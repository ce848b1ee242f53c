import Nortia.Lib.Result
import Nortia.Verify.Sunspot.WellFormed

/-!
# The witness vector fits the constraint system

The compilation numbers the variables by the slots of the call tree, the witness vector lists the
values of a witness stack. Both are the postorder of the calls, with the public parameters in front.
-/

namespace Nortia.Sunspot

open Lib

/-! ## Slots of a call tree -/

section

variable {p : Program} {R : Gadgets}

mutual

/-- The slots are the values of the stack, item by item. -/
theorem slots_eq : (f : Frame) → f.slots p = f.postorder.flatMap (·.values p)
  | .node item calls => by
    rw [Frame.slots, Frame.postorder, List.flatMap_append, slotsAll_eq calls, List.flatMap_singleton]

theorem slotsAll_eq : (fs : List Frame) →
    Frame.slotsAll p fs = (Frame.postorderAll fs).flatMap (·.values p)
  | [] => rfl
  | f :: fs => by
    rw [Frame.slotsAll, Frame.postorderAll, List.flatMap_append, slots_eq f, slotsAll_eq fs]

end

theorem postorder_eq (f : Frame) : f.postorder = Frame.postorderAll f.calls ++ [f.item] := by
  cases f
  rfl

theorem slots_append (f : Frame) : f.slots p = Frame.slotsAll p f.calls ++ f.item.values p := by
  cases f
  rfl

theorem length_values (item : StackItem) :
    (item.values p).length = (item.circuit p).currentWitnessIndex + 1 := by
  rw [StackItem.values, List.length_map, List.length_range]

theorem length_slots (f : Frame) : (f.slots p).length =
    (Frame.slotsAll p f.calls).length + ((f.item.circuit p).currentWitnessIndex + 1) := by
  rw [slots_append, List.length_append, length_values]

/-- A frame of a function is one of its circuit. -/
theorem Frame.Fits.circuit {f : Frame} {id : Nat} {c : Circuit} (h : f.Fits p id)
    (hc : p.functions[id]? = some c) : f.item.circuit p = c := by
  cases f with
  | node item calls => rw [Frame.item, StackItem.circuit, h.1, hc, Option.getD_some]

theorem Frame.Fits.calls {f : Frame} {id : Nat} (h : f.Fits p id) :
    Frame.FitsAll p (f.item.circuit p).calls f.calls := by
  cases f with
  | node item calls => exact h.2.2

/-- The start of a circuit's own slots is counted for every frame of it. -/
def CountsSlots (p : Program) (sub : Circuit → Nat → Except CompileError Nat) : Prop :=
  ∀ {f : Frame} {id : Nat} {c : Circuit} {index own : Nat}, f.Fits p id →
    p.functions[id]? = some c → index + (f.slots p).length < 2 ^ 32 → sub c index = .ok own →
      own = index + (Frame.slotsAll p f.calls).length

theorem countCalls_ok {sub : Circuit → Nat → Except CompileError Nat} (hsub : CountsSlots p sub)
    {calls : List Call} {frames : List Frame} {index own : Nat} (hfits : Frame.FitsAll p calls frames)
    (hlt : index + (Frame.slotsAll p frames).length < 2 ^ 32)
    (h : countCalls p sub calls index = .ok own) :
    own = index + (Frame.slotsAll p frames).length := by
  induction calls generalizing frames index with
  | nil =>
    cases frames with
    | nil => cases h; rfl
    | cons f frames => exact hfits.elim
  | cons callOp calls ih =>
    cases frames with
    | nil => exact hfits.elim
    | cons f frames =>
      obtain ⟨hfit, hfits⟩ := hfits
      rw [Frame.slotsAll, List.length_append] at hlt ⊢
      obtain ⟨c, hresolve, hrest₁⟩ := bind_eq_ok.mp h
      obtain ⟨subOwnStart, hown, hrest₂⟩ := bind_eq_ok.mp hrest₁
      have hc := resolver_ok hresolve
      have hstart := hsub hfit hc (by omega) hown
      have hlength := length_slots (p := p) f
      rw [hfit.circuit hc] at hlength
      have hnext : (subOwnStart + c.currentWitnessIndex + 1) % 2 ^ 32 =
          index + (f.slots p).length := by
        rw [Nat.mod_eq_of_lt (by omega)]
        omega
      rw [hnext] at hrest₂
      rw [ih hfits (by omega) hrest₂, Nat.add_assoc]

theorem countSubcircuitSlots_ok (room : Nat) : CountsSlots p (Circuit.countSubcircuitSlots p room) := by
  induction room with
  | zero =>
    intro f id c index own _ _ _ h
    cases h
  | succ room ih =>
    intro f id c index own hfits hc hlt h
    have hcalls := hfits.calls
    rw [hfits.circuit hc] at hcalls
    rw [length_slots] at hlt
    exact countCalls_ok ih hcalls (by omega) h

theorem main_ok {c : Circuit} (h : p.main = .ok c) : p.functions[0]? = some c := by
  unfold Program.main at h
  split at h
  · cases h
  · next hfunctions => cases h; rw [hfunctions]; rfl

/-- The slots and the main circuit's first one are those of the call tree. -/
theorem witnessLayout_ok {f : Frame} (hfits : f.Fits p 0) (hlt : (f.slots p).length < 2 ^ 32)
    {totalSlots mainStart : Nat} (h : p.witnessLayout = .ok (totalSlots, mainStart)) :
    totalSlots = (f.slots p).length ∧ mainStart = (Frame.slotsAll p f.calls).length := by
  obtain ⟨main, hmain, hrest⟩ := bind_eq_ok.mp h
  obtain ⟨start, hstart, hpure⟩ := bind_eq_ok.mp hrest
  cases hpure
  have hc := main_ok hmain
  have hown := countSubcircuitSlots_ok p.room hfits hc (by omega) hstart
  have hlength := length_slots (p := p) f
  rw [hfits.circuit hc] at hlength
  rw [Nat.zero_add] at hown
  exact ⟨by rw [Nat.mod_eq_of_lt (by omega)]; omega, hown⟩

end

/-! ## Variables -/

section

variable {σ : Wire → Scalar} {b b' : Calls} {ws ws' : Witnesses} {params : List ParamInfo}

theorem means_pub {k : Nat} {x : Scalar} (h : σ (.pub k) = x) : Means σ (.wire (.pub k)) x :=
  ⟨trivial, fun _ => h⟩

theorem means_secret {k : Nat} {x : Scalar} (h : σ (.secret k) = x) :
    Means σ (.wire (.secret k)) x := ⟨trivial, fun _ => h⟩

/-- The slots without a variable get one each, in order; the others keep theirs. -/
theorem allocateSecret_ok (value : Nat → Scalar) {slots : List Nat} (hnodup : slots.Nodup)
    (hσ : ∀ (k : Nat) (x : Scalar), ((slots.filter fun i => (ws i).isNone).map value)[k]? = some x →
      σ (.secret (b.secrets + k)) = x)
    (h : allocateSecret slots ws b = .ok (ws', b')) :
    b' = { b with secrets := b.secrets + (slots.filter fun i => (ws i).isNone).length } ∧
      (∀ j v, ws j = some v → ws' j = some v) ∧
      ∀ j ∈ slots, ws j = none → ∃ v, ws' j = some v ∧ Means σ v (value j) := by
  induction slots generalizing ws b with
  | nil =>
    obtain ⟨rfl, rfl⟩ := build_pure_ok.mp h
    exact ⟨rfl, fun _ _ hj => hj, fun j hj => absurd hj List.not_mem_nil⟩
  | cons i slots ih =>
    obtain ⟨hi, hnodup⟩ := List.nodup_cons.mp hnodup
    rw [allocateSecret] at h
    cases hslot : ws i with
    | some v =>
      simp only [hslot] at h
      have hfilter : (i :: slots).filter (fun i => (ws i).isNone) =
          slots.filter fun i => (ws i).isNone := List.filter_cons_of_neg (by simp [hslot])
      rw [hfilter] at hσ ⊢
      obtain ⟨hb, hkeep, hfresh⟩ := ih hnodup hσ h
      refine ⟨hb, hkeep, fun j hj hnone => ?_⟩
      rcases List.mem_cons.mp hj with rfl | hj
      · rw [hslot] at hnone
        cases hnone
      · exact hfresh j hj hnone
    | none =>
      simp only [hslot] at h
      obtain ⟨v, b₁, hv, hrest⟩ := build_bind_ok.mp h
      cases hv
      have hother : ∀ j, j ≠ i →
          Function.update ws i (some (.wire (.secret b.secrets))) j = ws j :=
        fun j hne => Function.update_of_ne hne _ _
      have hfilter : (i :: slots).filter (fun i => (ws i).isNone) =
          i :: slots.filter fun i => (ws i).isNone := List.filter_cons_of_pos (by simp [hslot])
      have hupdate : (slots.filter fun j =>
          (Function.update ws i (some (.wire (.secret b.secrets))) j).isNone) =
          slots.filter fun j => (ws j).isNone := by
        refine List.filter_congr fun j hj => ?_
        rw [hother j fun heq => hi (heq ▸ hj)]
      rw [hfilter] at hσ ⊢
      obtain ⟨hb, hkeep, hfresh⟩ := ih (b := { b with secrets := b.secrets + 1 }) hnodup
        (by
          intro k x hk
          rw [hupdate] at hk
          show σ (.secret (b.secrets + 1 + k)) = x
          rw [Nat.add_assoc, Nat.add_comm 1]
          exact hσ (k + 1) x hk) hrest
      refine ⟨?_, fun j v hj => hkeep j v ?_, fun j hj hnone => ?_⟩
      · rw [hb, hupdate]
        simp only [List.length_cons, Nat.add_assoc, Nat.add_comm 1]
      · rw [hother j (fun heq => by rw [heq, hslot] at hj; cases hj)]
        exact hj
      · by_cases heq : j = i
        · subst heq
          refine ⟨_, hkeep j _ (Function.update_self ..), means_secret ?_⟩
          exact hσ 0 (value j) rfl
        · have hmem : j ∈ slots := (List.mem_cons.mp hj).resolve_left heq
          exact hfresh j hmem (by rw [hother j heq]; exact hnone)

/-- The number of public parameters. -/
def countPublic (params : List ParamInfo) : Nat :=
  (params.filter fun param => param.visibility = .pub).length

theorem countPublic_pub {param : ParamInfo} (h : param.visibility = .pub)
    (params : List ParamInfo) : countPublic (param :: params) = 1 + countPublic params := by
  simp [countPublic, h, Nat.add_comm]

theorem countPublic_other {param : ParamInfo} (h : param.visibility ≠ .pub)
    (params : List ParamInfo) : countPublic (param :: params) = countPublic params := by
  simp [countPublic, h]

/-- The public parameters get variables with the values of the outer item, in order. -/
theorem allocatePublic_ok (outer : StackItem) {mainStart index : Nat}
    (hσ : ∀ (k : Nat) (x : Scalar), (publicValues outer index params)[k]? = some x →
      σ (.pub (b.pubs + k)) = x)
    (hslots : ∀ j : Nat, skipKey params j = true → index + j + mainStart < 2 ^ 32)
    (hvalues : ∀ j : Nat, skipKey params j = true → (outer.witnessMap.lookup (index + j)).isSome)
    (h : allocatePublic mainStart index params ws b = .ok (ws', b')) :
    b' = { b with pubs := b.pubs + countPublic params } ∧
      (∀ i : Nat, (∀ j : Nat, skipKey params j = true → i ≠ index + j + mainStart) → ws' i = ws i) ∧
      ∀ j : Nat, skipKey params j = true →
        ∃ v, ws' (index + j + mainStart) = some v ∧ Means σ v (outer.value (index + j)) := by
  induction params generalizing index ws b with
  | nil =>
    obtain ⟨rfl, rfl⟩ := build_pure_ok.mp h
    exact ⟨rfl, fun _ _ => rfl, fun j hj => by cases hj⟩
  | cons param params ih =>
    have hnext : ∀ j, index + (j + 1) = index + 1 + j := fun j => by omega
    have hslots' : ∀ j : Nat, skipKey params j = true → index + 1 + j + mainStart < 2 ^ 32 :=
      fun j hj => hnext j ▸ hslots (j + 1) hj
    have hvalues' : ∀ j : Nat, skipKey params j = true →
        (outer.witnessMap.lookup (index + 1 + j)).isSome :=
      fun j hj => hnext j ▸ hvalues (j + 1) hj
    rw [allocatePublic] at h
    by_cases hpub : param.visibility = .pub
    · have hskip : skipKey (param :: params) 0 = true := decide_eq_true hpub
      rw [if_pos hpub] at h
      obtain ⟨v, b₁, hv, hrest⟩ := build_bind_ok.mp h
      cases hv
      have hslot : (index + mainStart) % 2 ^ 32 = index + mainStart :=
        Nat.mod_eq_of_lt (hslots 0 hskip)
      obtain ⟨value, hvalue⟩ := Option.isSome_iff_exists.mp (hvalues 0 hskip)
      rw [Nat.add_zero] at hvalue
      have hcons : publicValues outer index (param :: params) =
          (value : Scalar) :: publicValues outer (index + 1) params := by
        rw [publicValues, if_pos hpub, hvalue]
      rw [hcons] at hσ
      rw [hslot] at hrest
      obtain ⟨hb, hkeep, hfresh⟩ := ih (b := { b with pubs := b.pubs + 1 })
        (by
          intro k x hk
          show σ (.pub (b.pubs + 1 + k)) = x
          rw [Nat.add_assoc, Nat.add_comm 1]
          exact hσ (k + 1) x hk) hslots' hvalues' hrest
      refine ⟨?_, fun i hi => ?_, fun j hj => ?_⟩
      · rw [hb, countPublic_pub hpub, ← Nat.add_assoc]
      · rw [hkeep i fun j hj => hnext j ▸ hi (j + 1) hj]
        exact Function.update_of_ne (hi 0 hskip) _ _
      · cases j with
        | zero =>
          refine ⟨.wire (.pub b.pubs), ?_, means_pub ?_⟩
          · rw [Nat.add_zero, hkeep _ fun j _ => by omega]
            exact Function.update_self ..
          · rw [StackItem.value, Nat.add_zero, hvalue]
            exact hσ 0 _ rfl
        | succ j =>
          rw [hnext]
          exact hfresh j hj
    · have hskip : skipKey (param :: params) 0 = false := decide_eq_false hpub
      rw [if_neg hpub] at h
      have hcons : publicValues outer index (param :: params) =
          publicValues outer (index + 1) params := by
        rw [publicValues, if_neg hpub]
      rw [hcons] at hσ
      obtain ⟨hb, hkeep, hfresh⟩ := ih hσ hslots' hvalues' h
      refine ⟨?_, fun i hi => hkeep i fun j hj => hnext j ▸ hi (j + 1) hj, fun j hj => ?_⟩
      · rw [hb, countPublic_other hpub]
      · cases j with
        | zero =>
          rw [hskip] at hj
          cases hj
        | succ j =>
          rw [hnext]
          exact hfresh j hj

end

/-! ## The witness vector -/

section

variable {p : Program} {params : List ParamInfo}

/-- The values of an item's slots with a public parameter. -/
def ownPublics (p : Program) (params : List ParamInfo) (item : StackItem) : List Scalar :=
  ((List.range ((item.circuit p).currentWitnessIndex + 1)).filter (skipKey params)).map item.value

/-- The values of the other slots. -/
def ownSecrets (p : Program) (params : List ParamInfo) (item : StackItem) : List Scalar :=
  ((List.range ((item.circuit p).currentWitnessIndex + 1)).filter fun j => !skipKey params j).map
    item.value

theorem circuit_eq {item : StackItem} {c : Circuit} (h : p.functions[item.circuitIndex]? = some c) :
    item.circuit p = c := by
  rw [StackItem.circuit, h, Option.getD_some]

theorem countSlots_ok {items : List StackItem} {n : Nat} (h : countSlots p items = .ok n) :
    n = (items.flatMap (·.values p)).length := by
  induction items generalizing n with
  | nil => cases h; rfl
  | cons item items ih =>
    rw [countSlots] at h
    cases hc : p.functions[item.circuitIndex]? with
    | none => rw [hc] at h; cases h
    | some c =>
      rw [hc] at h
      obtain ⟨m, hm, hpure⟩ := bind_eq_ok.mp h
      cases hpure
      rw [List.flatMap_cons, List.length_append, length_values, circuit_eq hc, ih hm]

theorem ownSlots_ok {c : Circuit} {slots : List Witness} (h : c.ownSlots = .ok slots) :
    slots = List.range (c.currentWitnessIndex + 1) := by
  unfold Circuit.ownSlots at h
  split at h
  · cases h
    rfl
  · cases h

theorem privateValues_ok {items : List StackItem} {last : StackItem} {values : List Scalar}
    (h : privateValues p params (items ++ [last]) = .ok values) :
    values = items.flatMap (·.values p) ++ ownSecrets p params last := by
  induction items generalizing values with
  | nil =>
    rw [List.nil_append, privateValues] at h
    cases hc : p.functions[last.circuitIndex]? with
    | none => rw [hc] at h; cases h
    | some c =>
      rw [hc] at h
      obtain ⟨slots, hslots, hrest⟩ := bind_eq_ok.mp h
      obtain rfl := ownSlots_ok hslots
      obtain ⟨rest, hnil, hpure⟩ := bind_eq_ok.mp hrest
      cases hnil
      cases hpure
      rw [List.flatMap_nil, List.nil_append, ownSecrets, circuit_eq hc, List.append_nil]
      rfl
  | cons item items ih =>
    rw [List.cons_append, privateValues] at h
    cases hc : p.functions[item.circuitIndex]? with
    | none => rw [hc] at h; cases h
    | some c =>
      rw [hc] at h
      obtain ⟨slots, hslots, hrest₁⟩ := bind_eq_ok.mp h
      obtain rfl := ownSlots_ok hslots
      obtain ⟨rest, hrest, hpure⟩ := bind_eq_ok.mp hrest₁
      have hempty : (items ++ [last]).isEmpty = false := by
        cases items <;> rfl
      rw [hempty, if_neg Bool.false_ne_true] at hpure
      cases hpure
      rw [List.flatMap_cons, List.append_assoc, ← ih hrest, StackItem.values, circuit_eq hc]

theorem length_publicValues_le (outer : StackItem) (index : Nat) (params : List ParamInfo) :
    (publicValues outer index params).length ≤ countPublic params := by
  induction params generalizing index with
  | nil => exact Nat.le_refl _
  | cons param params ih =>
    have hle := ih (index + 1)
    rw [publicValues]
    by_cases hpub : param.visibility = .pub
    · rw [if_pos hpub, countPublic_pub hpub]
      split
      · rw [List.length_cons]
        omega
      · omega
    · rw [if_neg hpub, countPublic_other hpub]
      exact hle

/-- No public value is left out. -/
theorem lookup_isSome {outer : StackItem} {index : Nat}
    (h : (publicValues outer index params).length = countPublic params) :
    ∀ j : Nat, skipKey params j = true → (outer.witnessMap.lookup (index + j)).isSome := by
  induction params generalizing index with
  | nil => exact fun j hj => by cases hj
  | cons param params ih =>
    have hle := length_publicValues_le outer (index + 1) params
    intro j hj
    rw [publicValues] at h
    by_cases hpub : param.visibility = .pub
    · rw [if_pos hpub, countPublic_pub hpub] at h
      cases hvalue : outer.witnessMap.lookup index with
      | none =>
        simp only [hvalue] at h
        omega
      | some value =>
        simp only [hvalue, List.length_cons] at h
        cases j with
        | zero => rw [Nat.add_zero, hvalue]; rfl
        | succ j =>
          rw [show index + (j + 1) = index + 1 + j by omega]
          exact ih (by omega) j hj
    · rw [if_neg hpub, countPublic_other hpub] at h
      cases j with
      | zero => exact absurd (of_decide_eq_true hj) hpub
      | succ j =>
        rw [show index + (j + 1) = index + 1 + j by omega]
        exact ih h j hj

theorem filter_skipKey_succ (param : ParamInfo) (params : List ParamInfo) (n : Nat) :
    (List.range (n + 1)).filter (skipKey (param :: params)) =
      (if param.visibility = .pub then [0] else []) ++
        ((List.range n).filter (skipKey params)).map Nat.succ := by
  have hfilter : ((List.range n).map Nat.succ).filter (skipKey (param :: params)) =
      ((List.range n).filter (skipKey params)).map Nat.succ := List.filter_map
  rw [List.range_succ_eq_map]
  by_cases hpub : param.visibility = .pub
  · have hskip : skipKey (param :: params) 0 = true := decide_eq_true hpub
    rw [List.filter_cons_of_pos hskip, hfilter, if_pos hpub]
    rfl
  · have hskip : ¬ skipKey (param :: params) 0 = true := by
      rw [show skipKey (param :: params) 0 = false from decide_eq_false hpub]
      exact Bool.false_ne_true
    rw [List.filter_cons_of_neg hskip, hfilter, if_neg hpub]
    rfl

/-- The public parameters are counted by the slots that are skipped. -/
theorem length_filter_skipKey {n : Nat} (h : ∀ j : Nat, skipKey params j = true → j < n) :
    ((List.range n).filter (skipKey params)).length = countPublic params := by
  induction params generalizing n with
  | nil =>
    have hnone : (List.range n).filter (skipKey []) = [] :=
      List.filter_eq_nil_iff.mpr fun j _ => Bool.false_ne_true
    rw [hnone]
    rfl
  | cons param params ih =>
    cases n with
    | zero =>
      have hpub : param.visibility ≠ .pub := fun hpub =>
        absurd (h 0 (decide_eq_true hpub)) (Nat.not_lt_zero _)
      rw [countPublic_other hpub, ← ih (n := 0) fun j hj => absurd (h (j + 1) hj) (Nat.not_lt_zero _)]
      rfl
    | succ n =>
      have hrest := ih (n := n) fun j hj => Nat.lt_of_succ_lt_succ (h (j + 1) hj)
      rw [filter_skipKey_succ, List.length_append, List.length_map, hrest]
      by_cases hpub : param.visibility = .pub
      · rw [if_pos hpub, countPublic_pub hpub]
        rfl
      · rw [if_neg hpub, countPublic_other hpub]
        exact Nat.zero_add _

/-- The public values are those of the slots that are skipped. -/
theorem publicValues_eq {outer : StackItem} {index n : Nat}
    (h : ∀ j : Nat, skipKey params j = true → j < n)
    (hvalues : ∀ j : Nat, skipKey params j = true → (outer.witnessMap.lookup (index + j)).isSome) :
    publicValues outer index params =
      ((List.range n).filter (skipKey params)).map fun j => outer.value (index + j) := by
  induction params generalizing index n with
  | nil =>
    have hnone : (List.range n).filter (skipKey []) = [] :=
      List.filter_eq_nil_iff.mpr fun j _ => Bool.false_ne_true
    rw [hnone]
    rfl
  | cons param params ih =>
    have hnext : ∀ j, index + (j + 1) = index + 1 + j := fun j => by omega
    have hrest : ∀ n, (∀ j : Nat, skipKey params j = true → j < n) →
        publicValues outer (index + 1) params =
          ((List.range n).filter (skipKey params)).map fun j => outer.value (index + (j + 1)) := by
      intro n hn
      rw [ih hn fun j hj => hnext j ▸ hvalues (j + 1) hj]
      exact List.map_congr_left fun j _ => by rw [hnext j]
    rw [publicValues]
    cases n with
    | zero =>
      have hpub : param.visibility ≠ .pub := fun hpub =>
        absurd (h 0 (decide_eq_true hpub)) (Nat.not_lt_zero _)
      rw [if_neg hpub, hrest 0 fun j hj => absurd (h (j + 1) hj) (Nat.not_lt_zero _)]
      rfl
    | succ n =>
      rw [filter_skipKey_succ, List.map_append, List.map_map]
      have htail := hrest n fun j hj => Nat.lt_of_succ_lt_succ (h (j + 1) hj)
      by_cases hpub : param.visibility = .pub
      · obtain ⟨value, hvalue⟩ := Option.isSome_iff_exists.mp (hvalues 0 (decide_eq_true hpub))
        rw [Nat.add_zero] at hvalue
        rw [if_pos hpub, if_pos hpub, hvalue, htail]
        have hzero : outer.value (index + 0) = (value : Scalar) := by
          rw [StackItem.value, Nat.add_zero, hvalue]
        rw [List.map_singleton, hzero]
        rfl
      · rw [if_neg hpub, if_neg hpub, htail]
        rfl

theorem length_ownSecrets {item : StackItem}
    (h : ∀ j : Nat, skipKey params j = true → j ≤ (item.circuit p).currentWitnessIndex) :
    countPublic params + (ownSecrets p params item).length = (item.values p).length := by
  have hskip := length_filter_skipKey (n := (item.circuit p).currentWitnessIndex + 1)
    fun j hj => Nat.lt_succ_of_le (h j hj)
  have hsplit := List.length_eq_length_filter_add (skipKey params)
    (l := List.range ((item.circuit p).currentWitnessIndex + 1))
  rw [hskip] at hsplit
  rw [ownSecrets, List.length_map, ← hsplit, length_values, List.length_range]

end

section

variable {acir : ACIR} {fill : Fill} {f : Frame} {v : WitnessVector}

/-- The slots of a call tree hold at least the public parameters. -/
theorem slots_split
    (hparams : ∀ j : Nat, skipKey (params acir.abi) j = true →
      j ≤ (f.item.circuit acir.program).currentWitnessIndex) :
    countPublic (params acir.abi) + (Frame.slotsAll acir.program f.calls ++
      ownSecrets acir.program (params acir.abi) f.item).length = (f.slots acir.program).length := by
  have hown := length_ownSecrets hparams
  rw [slots_append, List.length_append, List.length_append]
  omega

/-- What is filled in: the public values there are, then every other slot in postorder. -/
theorem getWitness_fill (h : acir.getWitness fill f.postorder = .ok v) :
    fill (countPublic (params acir.abi))
        ((f.slots acir.program).length - countPublic (params acir.abi))
        (publicValues f.item 0 (params acir.abi) ++ (Frame.slotsAll acir.program f.calls ++
          ownSecrets acir.program (params acir.abi) f.item)) = .ok v := by
  obtain ⟨slots, hslots, hrest₁⟩ := bind_eq_ok.mp h
  have hcount := countSlots_ok hslots
  rw [← slots_eq] at hcount
  rw [postorder_eq, List.getLast?_concat] at hrest₁
  obtain ⟨pubs, hpubs, hrest₂⟩ := bind_eq_ok.mp hrest₁
  cases hpubs
  obtain ⟨values, hvalues, hfill⟩ := bind_eq_ok.mp hrest₂
  obtain rfl := privateValues_ok hvalues
  rw [← slotsAll_eq, hcount] at hfill
  split at hfill
  · next witness hwitness =>
    cases hfill
    exact hwitness
  · cases hfill

/-- What a witness vector holds: the public parameters, then every other slot in postorder. -/
theorem getWitness_ok (hfill : fill.Documented)
    (hparams : ∀ j : Nat, skipKey (params acir.abi) j = true →
      j ≤ (f.item.circuit acir.program).currentWitnessIndex)
    (h : acir.getWitness fill f.postorder = .ok v) :
    v.pubs = publicValues f.item 0 (params acir.abi) ∧
      v.pubs.length = countPublic (params acir.abi) ∧
      v.secrets = Frame.slotsAll acir.program f.calls ++
        ownSecrets acir.program (params acir.abi) f.item := by
  have hsplit := slots_split hparams
  have hfilled := getWitness_fill h
  rw [← hsplit, Nat.cast_add, add_sub_cancel_left] at hfilled
  obtain ⟨hlength, rfl⟩ := (hfill _ _ _ _).mp hfilled
  have hpubs : (publicValues f.item 0 (params acir.abi)).length = countPublic (params acir.abi) := by
    rw [List.length_append] at hlength
    exact Nat.add_right_cancel hlength
  refine ⟨List.take_left' hpubs, ?_, List.drop_left' hpubs⟩
  exact (congrArg List.length (List.take_left' hpubs)).trans hpubs

end

/-! ## When there is a vector -/

section

variable {p : Program} {params : List ParamInfo}

mutual

/-- The stack items of a fitting frame have circuits. -/
theorem functions_of_fits {id : Nat} : (f : Frame) → f.Fits p id →
    ∀ item ∈ f.postorder, item.circuitIndex < p.functions.length
  | .node item calls, h => by
    intro x hx
    rw [Frame.postorder, List.mem_append] at hx
    rcases hx with hx | hx
    · exact functions_of_fitsAll _ calls h.2.2 x hx
    · cases List.mem_singleton.mp hx
      rw [h.1]
      exact h.2.1

theorem functions_of_fitsAll : (cs : List Call) → (fs : List Frame) → Frame.FitsAll p cs fs →
    ∀ item ∈ Frame.postorderAll fs, item.circuitIndex < p.functions.length
  | _, [], _ => fun x hx => absurd hx List.not_mem_nil
  | [], _ :: _, h => h.elim
  | _ :: cs, f :: fs, h => by
    intro x hx
    rw [Frame.postorderAll, List.mem_append] at hx
    rcases hx with hx | hx
    · exact functions_of_fits f h.1 x hx
    · exact functions_of_fitsAll cs fs h.2 x hx

end

theorem countSlots_run {items : List StackItem}
    (h : ∀ item ∈ items, item.circuitIndex < p.functions.length) :
    ∃ n, countSlots p items = .ok n := by
  induction items with
  | nil => exact ⟨0, rfl⟩
  | cons item items ih =>
    obtain ⟨n, hn⟩ := ih fun x hx => h x (List.mem_cons_of_mem _ hx)
    rw [countSlots, List.getElem?_eq_getElem (h item List.mem_cons_self), hn]
    exact ⟨_, rfl⟩

theorem privateValues_run {items : List StackItem}
    (h : ∀ item ∈ items, item.circuitIndex < p.functions.length)
    (hlt : (items.flatMap (·.values p)).length < 2 ^ 32) :
    ∃ values, privateValues p params items = .ok values := by
  induction items with
  | nil => exact ⟨[], rfl⟩
  | cons item items ih =>
    have hc := List.getElem?_eq_getElem (h item List.mem_cons_self)
    rw [List.flatMap_cons, List.length_append, length_values, circuit_eq hc] at hlt
    obtain ⟨values, hvalues⟩ :=
      ih (fun x hx => h x (List.mem_cons_of_mem _ hx)) (by omega)
    rw [privateValues, hc]
    simp only [Circuit.ownSlots]
    rw [if_pos (by omega), ok_bind, hvalues]
    exact ⟨_, rfl⟩

end

section

variable {acir : ACIR} {fill : Fill} {f : Frame} {v : WitnessVector}

/-- There is a vector where one can be filled in. -/
theorem getWitness_run (hfits : f.Fits acir.program 0) (hlt : (f.slots acir.program).length < 2 ^ 32)
    (h : fill (countPublic (params acir.abi))
        ((f.slots acir.program).length - countPublic (params acir.abi))
        (publicValues f.item 0 (params acir.abi) ++ (Frame.slotsAll acir.program f.calls ++
          ownSecrets acir.program (params acir.abi) f.item)) = .ok v) :
    acir.getWitness fill f.postorder = .ok v := by
  have hfunctions := functions_of_fits f hfits
  obtain ⟨slots, hslots⟩ := countSlots_run hfunctions
  rw [slots_eq] at hlt
  obtain ⟨values, hprivate⟩ : ∃ values,
      privateValues acir.program (params acir.abi) f.postorder = .ok values :=
    privateValues_run hfunctions hlt
  have hcount := countSlots_ok hslots
  rw [← slots_eq] at hcount
  have hlast : f.postorder.getLast? = some f.item := by
    rw [postorder_eq, List.getLast?_concat]
  have hprivate' := hprivate
  rw [postorder_eq] at hprivate'
  obtain rfl := privateValues_ok hprivate'
  rw [← slotsAll_eq] at hprivate
  rw [← hcount, countPublic] at h
  rw [ACIR.getWitness, hslots, ok_bind, hlast]
  simp only [ok_bind, hprivate, h]

/-- **There is a witness vector exactly when the outermost item has every public parameter**: their
values in order, and those of every other slot of the call tree in postorder. -/
theorem getWitness_iff (hfill : fill.Documented) (hfits : f.Fits acir.program 0)
    (hlt : (f.slots acir.program).length < 2 ^ 32)
    (hparams : ∀ j : Nat, skipKey (params acir.abi) j = true →
      j ≤ (f.item.circuit acir.program).currentWitnessIndex) :
    acir.getWitness fill f.postorder = .ok v ↔
      (∀ j : Nat, skipKey (params acir.abi) j = true → (f.item.witnessMap.lookup j).isSome) ∧
        v = ⟨ownPublics acir.program (params acir.abi) f.item,
          Frame.slotsAll acir.program f.calls ++
            ownSecrets acir.program (params acir.abi) f.item⟩ := by
  have hslots : ∀ j : Nat, skipKey (params acir.abi) j = true →
      j < (f.item.circuit acir.program).currentWitnessIndex + 1 :=
    fun j hj => Nat.lt_succ_of_le (hparams j hj)
  have hpublics :
      (∀ j : Nat, skipKey (params acir.abi) j = true → (f.item.witnessMap.lookup j).isSome) →
        publicValues f.item 0 (params acir.abi) =
          ownPublics acir.program (params acir.abi) f.item := by
    intro hvalues
    rw [publicValues_eq hslots fun j hj => (Nat.zero_add j).symm ▸ hvalues j hj, ownPublics]
    exact List.map_congr_left fun j _ => by rw [Nat.zero_add]
  constructor
  · intro h
    obtain ⟨hpubs, hcount, hsecrets⟩ := getWitness_ok hfill hparams h
    have hvalues : ∀ j : Nat, skipKey (params acir.abi) j = true →
        (f.item.witnessMap.lookup j).isSome := by
      intro j hj
      have hsome := lookup_isSome (by rw [← hpubs, hcount]) j hj
      rwa [Nat.zero_add] at hsome
    refine ⟨hvalues, ?_⟩
    rw [hpublics hvalues] at hpubs
    rw [← hpubs, ← hsecrets]
  · rintro ⟨hvalues, rfl⟩
    have hlength : (ownPublics acir.program (params acir.abi) f.item).length =
        countPublic (params acir.abi) := by
      rw [ownPublics, List.length_map, length_filter_skipKey hslots]
    refine getWitness_run hfits hlt ?_
    rw [hpublics hvalues, ← slots_split hparams, Nat.cast_add, add_sub_cancel_left]
    refine (hfill _ _ _ _).mpr ⟨?_, ?_⟩
    · rw [List.length_append, hlength]
    · rw [List.take_left' hlength, List.drop_left' hlength]

end

/-! ## A sample -/

/-- A program whose main circuit calls `w₀ * w₀ = w₁` on a private and a public parameter. -/
def squareProgram : Program where
  functions := [
    { currentWitnessIndex := 1
      opcodes := [.call { id := 1, inputs := [0], outputs := [1], predicate := { constant := 1 } }]
      privateParameters := WitnessSet.empty.insert 0
      publicParameters := WitnessSet.empty.insert 1 },
    { currentWitnessIndex := 1
      opcodes := [.assertZero {
        mulTerms := [⟨1, 0, 0⟩]
        linearCombinations := [⟨scalarModulus - 1, 1⟩] }]
      privateParameters := WitnessSet.empty.insert 0
      returnValues := WitnessSet.empty.insert 1 }]

def squareAcir : ACIR where
  abi := [⟨"x", .scalar .field, .priv⟩, ⟨"y", .scalar .field, .pub⟩]
  program := squareProgram

def squareItem (index : Nat) : StackItem := { circuitIndex := index, witnessMap := [(1, 9), (0, 3)] }

def squareFrame : Frame := .node (squareItem 0) [.node (squareItem 1) []]

/-- The only public parameter is the witness `1`. -/
theorem squareAcir_public (j : Nat) (h : skipKey (params squareAcir.abi) j = true) : j ≤ 1 := by
  rcases j with _ | _ | j
  · exact Nat.zero_le _
  · exact Nat.le_refl _
  · cases h

theorem squareFrame_fits : squareFrame.Fits squareProgram 0 :=
  ⟨rfl, by decide, ⟨rfl, by decide, trivial⟩, trivial⟩

theorem squareItem_isSome (j : Nat) (h : skipKey (params squareAcir.abi) j = true) :
    (squareFrame.item.witnessMap.lookup j).isSome := by
  rcases j with _ | _ | j
  · cases h
  · rfl
  · cases h

/-- A vector is filled with as many values as announced. -/
def fillVector : Fill := fun nbPublic nbSecret values =>
  if nbPublic + nbSecret = values.length then
    .ok ⟨values.take nbPublic.toNat, values.drop nbPublic.toNat⟩
  else .error s!"expected {nbPublic + nbSecret} values, got {values.length}"

theorem fillVector_documented : fillVector.Documented := by
  intro nbPublic nbSecret values v
  have hcast : (nbPublic : Int) + nbSecret = values.length ↔
      values.length = nbPublic + nbSecret := by omega
  rw [fillVector, Int.toNat_natCast]
  by_cases hlength : values.length = nbPublic + nbSecret
  · rw [if_pos (hcast.mpr hlength), Except.ok.injEq]
    exact ⟨fun h => ⟨hlength, h.symm⟩, fun h => h.2.symm⟩
  · rw [if_neg (mt hcast.mp hlength)]
    exact ⟨(nomatch ·), fun h => absurd h.1 hlength⟩

theorem squareFrame_getWitness :
    squareAcir.getWitness fillVector squareFrame.postorder = .ok ⟨[9], [3, 9, 3]⟩ :=
  (getWitness_iff fillVector_documented squareFrame_fits (by decide) squareAcir_public).mpr
    ⟨squareItem_isSome, rfl⟩

end Nortia.Sunspot
