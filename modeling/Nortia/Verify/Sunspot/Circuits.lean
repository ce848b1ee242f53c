import Nortia.Verify.Sunspot.MemoryBlocks

/-!
# The constraints of a call tree

The opcodes of a circuit one after another, and then the circuits of a call tree: a circuit is defined
for the frame whose values its slots have.
-/

namespace Nortia.Sunspot

/-! ## The opcodes of a circuit -/

section

variable {R : Gadgets} {T : List (List Variable)} {σ : Wire → Scalar} {b b₁ b' : Calls}
  {n : Nat} {w : Valuation} {s s₁ s' : Scope} {ops : List Opcode}

theorem opcode_step (hok : ScopeOk n σ w b s) {op : Opcode} (hop : OpcodeOk n op)
    (hdefine : op.define s b = .ok (s₁, b₁)) : OpStep R σ n w op b b₁ s s₁ := by
  cases op with
  | assertZero e =>
    have hstep : ∀ T pre, s₁ = s ∧ b₁.tables = b.tables ∧ Exact R T σ b b₁ pre (e.value w = 0) :=
      fun _ _ => expression_define hok.bound hop.closed hdefine
    obtain ⟨rfl, htables, -⟩ := hstep [] fun _ => True
    exact plain_step hok htables (fun T pre => (hstep T pre).2.2) (fun _ _ => rfl)
      fun _ _ => Iff.rfl
  | blackBoxFuncCall f =>
    obtain ⟨_, b₂, hfunction, hpure⟩ := build_bind_ok.mp hdefine
    obtain ⟨rfl, rfl⟩ := build_pure_ok.mp hpure
    have hstep : ∀ T pre, b₁.tables = b.tables ∧ Exact R T σ b b₁ pre (f.Holds R w) :=
      fun _ _ => blackBoxFunction_define hok.bound hop.closed hop.sized hfunction
    exact plain_step hok (hstep [] fun _ => True).1 (fun T pre => (hstep T pre).2)
      (fun _ _ => rfl) fun _ _ => Iff.rfl
  | memoryOp m =>
    cases hwrite : m.isWrite with
    | false => exact memoryRead_step hok hwrite hop hdefine
    | true => exact memoryWrite_step hok hwrite hop hdefine
  | memoryInit m => exact memoryInit_step hok hop hdefine
  | brilligCall c | call c =>
    obtain ⟨rfl, rfl⟩ := build_pure_ok.mp hdefine
    exact plain_step hok rfl (fun _ _ => .refl fun _ _ => trivial) (fun _ _ => rfl)
      fun _ _ => (true_and _).symm.to_iff

/-- **The constraints of a run of opcodes are exact** for what the opcodes accept, where a read may
see the dummy entry of a table that is replaced later. -/
theorem constrainOpcodes_exact (hok : ScopeOk n σ w b s) (hops : ∀ op ∈ ops, OpcodeOk n op)
    (hdefine : constrainOpcodes ops s b = .ok (s', b')) (hT : Extends b' T) :
    s'.witnesses = s.witnesses ∧ TablesFinal T b s ops ∧
      ∀ mem, Exact R T σ b b' (Related σ b s mem) (OpcodesAccept R dummySlack w ops mem) := by
  induction ops generalizing s b with
  | nil =>
    obtain ⟨rfl, rfl⟩ := build_pure_ok.mp hdefine
    refine ⟨rfl, ⟨fun block table entries _ h => ?_, fun table entries _ h => hT table entries h⟩,
      fun mem => .refl fun _ _ => trivial⟩
    rw [dummyEntry, writtenLater, if_neg Bool.false_ne_true, List.append_nil]
    exact hT table entries h
  | cons op rest ih =>
    obtain ⟨s₁, b₁, hop, hrest⟩ := build_bind_ok.mp hdefine
    have hstep : OpStep R σ n w op b b₁ s s₁ := opcode_step hok (hops op List.mem_cons_self) hop
    obtain ⟨hwitnesses, hfinal, hexact⟩ :=
      ih hstep.ok (fun op hop => hops op (List.mem_cons_of_mem _ hop)) hrest
    exact ⟨hwitnesses.trans hstep.witnesses, hstep.final T rest hfinal,
      fun mem => hstep.exact T rest mem b' hfinal hexact⟩

/-- The opcodes of a circuit start without memory blocks. -/
theorem constrainCircuit_exact {c : Circuit} {ws ws' : Witnesses} (hbound : Bound n ws σ w)
    (hops : ∀ op ∈ c.opcodes, OpcodeOk n op) (hdefine : c.constrainCircuit ws b = .ok (ws', b'))
    (hT : Extends b' T) : ws' = ws ∧ Extends b T ∧
      Exact R T σ b b' (fun _ => True) (OpcodesAccept R dummySlack w c.opcodes []) := by
  obtain ⟨s, b₁, hrun, hpure⟩ := build_bind_ok.mp hdefine
  obtain ⟨rfl, rfl⟩ := build_pure_ok.mp hpure
  have hnone : ∀ (block table : Nat), ([] : List (Nat × Nat)).lookup block ≠ some table :=
    fun _ table => (Option.some_ne_none table).symm
  have hok : ScopeOk n σ w b { witnesses := ws, memory := [] } :=
    ⟨hbound, fun _ _ h => absurd h (hnone _ _), fun _ _ _ h => absurd h (hnone _ _)⟩
  obtain ⟨hwitnesses, hfinal, hexact⟩ := constrainOpcodes_exact (R := R) hok hops hrun hT
  exact ⟨hwitnesses, fun table entries h => hfinal.dead table entries (fun _ => hnone _ _) h,
    (hexact []).weaken fun _ _ block => rfl⟩

end

/-! ## Variables and their values -/

/-- The variables are there, with these values. -/
abbrev AllMean (σ : Wire → Scalar) : List (Option Variable) → List Scalar → Prop :=
  List.Forall₂ fun v x => ∃ v', v = some v' ∧ Means σ v' x

/-- The slots from `index` on have variables with these values. -/
def Assigned (ws : Witnesses) (σ : Wire → Scalar) (index : Nat) (xs : List Scalar) : Prop :=
  ∀ (j : Nat) (x : Scalar), xs[j]? = some x → ∃ v, ws (index + j) = some v ∧ Means σ v x

theorem assigned_append {ws : Witnesses} {σ : Wire → Scalar} {index : Nat} {xs ys : List Scalar} :
    Assigned ws σ index (xs ++ ys) ↔
      Assigned ws σ index xs ∧ Assigned ws σ (index + xs.length) ys := by
  constructor
  · intro h
    refine ⟨fun j x hj => h j x ?_, fun j x hj => ?_⟩
    · rw [List.getElem?_append_left (List.getElem?_eq_some_iff.mp hj).1]
      exact hj
    · rw [Nat.add_assoc]
      refine h (xs.length + j) x ?_
      rw [List.getElem?_append_right (Nat.le_add_right _ _), Nat.add_sub_cancel_left]
      exact hj
  · rintro ⟨hxs, hys⟩ j x hj
    by_cases hlt : j < xs.length
    · rw [List.getElem?_append_left hlt] at hj
      exact hxs j x hj
    · have hle : xs.length ≤ j := Nat.le_of_not_lt hlt
      rw [List.getElem?_append_right hle] at hj
      have hget := hys (j - xs.length) x hj
      rwa [Nat.add_assoc, Nat.add_sub_cancel' hle] at hget

/-! ## One circuit -/

section

variable {R : Gadgets} {T : List (List Variable)} {σ : Wire → Scalar} {b b' : Calls}
  {n : Nat} {w : Valuation} {ws witnesses : Witnesses} {index : Nat}

/-- The slots of a circuit are collected. -/
theorem collectCurrentWitnesses_bound {c : Circuit} {index' : Nat}
    (hassigned : Assigned witnesses σ index ((List.range (c.currentWitnessIndex + 1)).map w))
    (hlt : index + (c.currentWitnessIndex + 1) < 2 ^ 32)
    (h : c.collectCurrentWitnesses witnesses index b = .ok ((ws, index'), b')) :
    b' = b ∧ index' = index + (c.currentWitnessIndex + 1) ∧
      Bound (c.currentWitnessIndex + 1) ws σ w := by
  have hn : (c.currentWitnessIndex + 1) % 2 ^ 32 = c.currentWitnessIndex + 1 :=
    Nat.mod_eq_of_lt (by omega)
  rw [Circuit.collectCurrentWitnesses, hn] at h
  cases hfind : (List.range (c.currentWitnessIndex + 1)).find?
      fun i => (witnesses ((i + index) % 2 ^ 32)).isNone with
  | some i =>
    simp only [hfind] at h
    exact (crash_ok.mp h).elim
  | none =>
    simp only [hfind] at h
    obtain ⟨heq, rfl⟩ := build_pure_ok.mp h
    cases heq
    refine ⟨rfl, Nat.mod_eq_of_lt hlt, fun j hj => ?_⟩
    have hslot : (j + index) % 2 ^ 32 = index + j := by
      rw [Nat.mod_eq_of_lt (by omega), Nat.add_comm]
    obtain ⟨v, hv, hmeans⟩ := hassigned j (w j) (by
      rw [List.getElem?_map, List.getElem?_range hj, Option.map_some])
    exact ⟨v, by simp only [if_pos hj, hslot, hv], hmeans.outer, hmeans.value⟩

theorem collectWitnesses_means (hbound : Bound n ws σ w) {merged : WitnessSet}
    (hmerged : ∀ j ∈ merged.1, j < n) :
    AllMean σ (collectWitnesses ws merged) (merged.1.map w) := by
  rw [collectWitnesses, AllMean, List.forall₂_map_left_iff, List.forall₂_map_right_iff, List.forall₂_same]
  exact fun j hj => hbound.means (hmerged j hj)

/-- Witnesses of the caller are constrained to be the callee's. -/
theorem connect_exact (hbound : Bound n ws σ w) {js : List Witness} {vs : List (Option Variable)}
    {xs : List Scalar} (hjs : ∀ j ∈ js, j < n) (hvs : AllMean σ vs xs) (hlen : vs.length ≤ js.length)
    (hdefine : connect ws js vs b = .ok ((), b')) :
    b'.tables = b.tables ∧ Exact R T σ b b' (fun _ => True) (js.map w = xs) := by
  induction js generalizing vs xs b with
  | nil =>
    obtain ⟨-, rfl⟩ := build_pure_ok.mp hdefine
    have hnil : vs = [] := List.eq_nil_of_length_eq_zero (Nat.le_zero.mp hlen)
    subst hnil
    cases hvs
    exact ⟨rfl, .refl fun _ _ => rfl⟩
  | cons j js ih =>
    cases hvs with
    | nil => exact (crash_ok.mp hdefine).elim
    | @cons v x vs xs hv hvs =>
      obtain ⟨inner, rfl, hinner⟩ := hv
      obtain ⟨outer, b₁, houter, hrest₁⟩ := build_bind_ok.mp hdefine
      obtain ⟨rfl, hmeans⟩ := deref_means hbound (hjs j List.mem_cons_self) houter
      rw [build_bind_run (deref_run inner _)] at hrest₁
      obtain ⟨_, b₂, hassert, hrest₂⟩ := build_bind_ok.mp hrest₁
      rw [assertIsEqual, constrain_ok] at hassert
      subst hassert
      obtain ⟨htables, hexact⟩ := ih (fun j hj => hjs j (List.mem_cons_of_mem _ hj)) hvs
        (Nat.le_of_succ_le_succ hlen) hrest₂
      refine ⟨htables, ((exact_assertIsEqual hmeans hinner).trans hexact
        fun _ _ _ _ _ _ _ => trivial).congr fun _ _ => ?_⟩
      rw [List.map_cons, List.cons.injEq]

end

/-! ## The call tree -/

def Circuit.Sized (c : Circuit) : Prop := ∀ op ∈ c.opcodes, op.Sized

/-- Every witness has a slot, and the constants are in range. -/
structure Program.WellFormed (p : Program) : Prop where
  closed : p.Closed
  sized : ∀ c ∈ p.functions, c.Sized

section

variable {p : Program} {c : Circuit}

theorem Program.WellFormed.opcodeOk (hp : p.WellFormed) (hc : c ∈ p.functions) :
    ∀ op ∈ c.opcodes, OpcodeOk (c.currentWitnessIndex + 1) op := by
  intro op hop
  refine ⟨fun j hj => Nat.lt_succ_of_le (hp.closed c hc j ?_), hp.sized c hc op hop⟩
  have hmem : j ∈ c.opcodes.flatMap Opcode.witnesses := List.mem_flatMap.mpr ⟨op, hop, hj⟩
  exact List.mem_append_left _ (List.mem_append_left _ (List.mem_append_left _ hmem))

theorem mem_calls {callOp : Call} : callOp ∈ c.calls ↔ Opcode.call callOp ∈ c.opcodes := by
  rw [Circuit.calls, List.mem_filterMap]
  constructor
  · rintro ⟨op, hop, hcall⟩
    cases op with
    | call _ => cases hcall; exact hop
    | _ => cases hcall
  · exact fun h => ⟨_, h, rfl⟩

theorem Program.WellFormed.call (hp : p.WellFormed) (hc : c ∈ p.functions) {callOp : Call}
    (hcall : callOp ∈ c.calls) : ∀ j ∈ callOp.inputs ++ callOp.outputs,
      j < c.currentWitnessIndex + 1 := fun j hj =>
  (hp.opcodeOk hc _ (mem_calls.mp hcall)).closed j (List.mem_append_left _ hj)

theorem Program.WellFormed.parameters (hp : p.WellFormed) (hc : c ∈ p.functions) :
    ∀ j ∈ (c.privateParameters.union c.publicParameters).1, j < c.currentWitnessIndex + 1 := by
  intro j hj
  refine Nat.lt_succ_of_le (hp.closed c hc j ?_)
  simp only [Circuit.witnesses, List.mem_append]
  rcases mem_foldl_insert.mp hj with h | h
  · exact .inl (.inl (.inr h))
  · exact .inl (.inr h)

theorem Program.WellFormed.returnValues (hp : p.WellFormed) (hc : c ∈ p.functions) :
    ∀ j ∈ c.returnValues.1, j < c.currentWitnessIndex + 1 := fun j hj =>
  Nat.lt_succ_of_le (hp.closed c hc j (List.mem_append_right _ hj))

end

section

variable (R : Gadgets) (σ : Wire → Scalar) (p : Program)

/-- A circuit is defined for a frame: its own slots come after those of its calls, and the step
is exact for what the frame's values are accepted by. -/
structure CircuitStep (T : List (List Variable)) (f : Frame) (index : Nat) (d : Defined)
    (b b' : Calls) : Prop where
  index : d.index = index + (f.slots p).length
  inputs : AllMean σ d.inputs (f.inputs p)
  outputs : AllMean σ d.outputs (f.outputs p)
  tables : Extends b T
  exact : Exact R T σ b b' (fun _ => True) (f.Accepted p R dummySlack)

/-- Every call that `sub` defines is defined for its frame. -/
def Defines (witnesses : Witnesses) (sub : Circuit → Nat → Build Defined) : Prop :=
  ∀ {T : List (List Variable)} {f : Frame} {id : Nat} {c : Circuit} {index : Nat} {d : Defined}
    {b b' : Calls}, f.Fits p id → p.functions[id]? = some c → Assigned witnesses σ index (f.slots p) →
      index + (f.slots p).length < 2 ^ 32 → sub c index b = .ok (d, b') → Extends b' T →
        CircuitStep R σ p T f index d b b'

/-- The variables of a call are those of its frame, and no more than the caller connects. -/
structure Connected (f : Frame) (connection : Call × Defined) : Prop where
  inputs : AllMean σ connection.2.inputs (f.inputs p)
  outputs : AllMean σ connection.2.outputs (f.outputs p)
  enoughInputs : connection.2.inputs.length ≤ connection.1.inputs.length
  enoughOutputs : connection.2.outputs.length ≤ connection.1.outputs.length

end

section

variable {R : Gadgets} {T : List (List Variable)} {σ : Wire → Scalar} {p : Program}
  {b b' : Calls} {n : Nat} {w : Valuation} {ws witnesses : Witnesses} {index index' : Nat}
  {frames : List Frame}

/-- The values of a call are those of its frame. -/
abbrev CallMatches (p : Program) (w : Valuation) (c : Call) (f : Frame) : Prop :=
  c.inputs.map w = f.inputs p ∧ c.outputs.map w = f.outputs p

theorem constrainCircuitCalls_exact (hbound : Bound n ws σ w)
    {connections : List (Call × Defined)}
    (hconnected : List.Forall₂ (Connected σ p) frames connections)
    (hclosed : ∀ connection ∈ connections, ∀ j ∈ connection.1.inputs ++ connection.1.outputs, j < n)
    (hdefine : constrainCircuitCalls ws connections b = .ok ((), b')) :
    b'.tables = b.tables ∧ Exact R T σ b b' (fun _ => True)
      (List.Forall₂ (CallMatches p w) (connections.map Prod.fst) frames) := by
  induction hconnected generalizing b with
  | nil =>
    obtain ⟨-, rfl⟩ := build_pure_ok.mp hdefine
    exact ⟨rfl, .refl fun _ _ => .nil⟩
  | @cons f connection frames connections hf _ ih =>
    have hjs := hclosed connection List.mem_cons_self
    obtain ⟨_, b₁, hinputs, hrest₁⟩ := build_bind_ok.mp hdefine
    obtain ⟨_, b₂, houtputs, hrest₂⟩ := build_bind_ok.mp hrest₁
    obtain ⟨htables₁, hexact₁⟩ := connect_exact (R := R) (T := T) hbound
      (fun j hj => hjs j (List.mem_append_left _ hj)) hf.inputs hf.enoughInputs hinputs
    obtain ⟨htables₂, hexact₂⟩ := connect_exact (R := R) (T := T) hbound
      (fun j hj => hjs j (List.mem_append_right _ hj)) hf.outputs hf.enoughOutputs houtputs
    obtain ⟨htables, hexact⟩ := ih (fun c hc => hclosed c (List.mem_cons_of_mem _ hc)) hrest₂
    refine ⟨htables.trans (htables₂.trans htables₁), ?_⟩
    refine ((hexact₁.trans hexact₂ fun _ _ _ _ _ _ _ => trivial).trans hexact
      fun _ _ _ _ _ _ _ => trivial).congr fun _ _ => ?_
    rw [List.map_cons, List.forall₂_cons]

theorem resolver_ok {id : Nat} {c : Circuit} (h : p.resolver id = .ok c) :
    p.functions[id]? = some c := by
  rw [Program.resolver] at h
  cases hget : p.functions[id]? with
  | none => rw [hget] at h; cases h
  | some c' => rw [hget] at h; cases h; rfl

/-- The calls of a circuit are defined one after another. -/
theorem defineSubcircuits_exact {sub : Circuit → Nat → Build Defined}
    (hsub : Defines R σ p witnesses sub) {calls : List Call}
    {connections : List (Call × Defined)} (hfits : Frame.FitsAll p calls frames)
    (hassigned : Assigned witnesses σ index (Frame.slotsAll p frames))
    (hlt : index + (Frame.slotsAll p frames).length < 2 ^ 32)
    (hdefine : defineSubcircuits p sub calls index b = .ok ((connections, index'), b'))
    (hT : Extends b' T) :
    index' = index + (Frame.slotsAll p frames).length ∧ connections.map Prod.fst = calls ∧
      List.Forall₂ (Connected σ p) frames connections ∧ Extends b T ∧
      Exact R T σ b b' (fun _ => True) (∀ f ∈ frames, f.Accepted p R dummySlack) := by
  induction calls generalizing frames index b connections with
  | nil =>
    obtain ⟨heq, rfl⟩ := build_pure_ok.mp hdefine
    cases heq
    cases frames with
    | nil => exact ⟨rfl, rfl, .nil, hT, .refl fun _ _ f hf => absurd hf List.not_mem_nil⟩
    | cons f frames => exact hfits.elim
  | cons callOp calls ih =>
    cases frames with
    | nil => exact hfits.elim
    | cons f frames =>
      obtain ⟨hfit, hfits⟩ := hfits
      rw [Frame.slotsAll] at hassigned hlt ⊢
      rw [List.length_append] at hlt ⊢
      obtain ⟨hown, hothers⟩ := assigned_append.mp hassigned
      obtain ⟨c, b₁, hresolve, hrest₁⟩ := build_bind_ok.mp hdefine
      obtain ⟨hc, rfl⟩ := lift_ok.mp hresolve
      obtain ⟨d, b₂, hd, hrest₂⟩ := build_bind_ok.mp hrest₁
      by_cases hinputs : callOp.inputs.length < d.inputs.length
      · rw [if_pos hinputs] at hrest₂
        exact (crash_ok.mp hrest₂).elim
      · rw [if_neg hinputs] at hrest₂
        by_cases houtputs : callOp.outputs.length < d.outputs.length
        · rw [if_pos houtputs] at hrest₂
          exact (crash_ok.mp hrest₂).elim
        · rw [if_neg houtputs] at hrest₂
          obtain ⟨⟨connections', index₂⟩, b₃, hrest₃, hpure⟩ := build_bind_ok.mp hrest₂
          obtain ⟨heq, rfl⟩ := build_pure_ok.mp hpure
          cases heq
          -- the next free slot does not depend on the final tables
          have hindex : d.index = index + (f.slots p).length :=
            (hsub (T := b₂.tables) hfit (resolver_ok hc) hown (by omega) hd fun _ _ h => h).index
          rw [← hindex] at hothers
          obtain ⟨hend, hcalls, hconnected, htables, hexact⟩ :=
            ih hfits hothers (by omega) hrest₃
          have hstep := hsub hfit (resolver_ok hc) hown (by omega) hd htables
          refine ⟨by omega, by rw [List.map_cons, hcalls], .cons ?_ hconnected, hstep.tables, ?_⟩
          · exact ⟨hstep.inputs, hstep.outputs, Nat.le_of_not_lt hinputs,
              Nat.le_of_not_lt houtputs⟩
          · refine (hstep.exact.trans hexact fun _ _ _ _ _ _ _ => trivial).congr fun _ _ => ?_
            rw [List.forall_mem_cons]

theorem acceptedAll_iff {slack : Slack} {calls : List Call} (hfits : Frame.FitsAll p calls frames) :
    Frame.AcceptedAll p R slack w calls frames ↔
      List.Forall₂ (CallMatches p w) calls frames ∧ ∀ f ∈ frames, f.Accepted p R slack := by
  induction calls generalizing frames with
  | nil =>
    cases frames with
    | nil => exact iff_of_true trivial ⟨.nil, fun f hf => absurd hf List.not_mem_nil⟩
    | cons f frames => exact hfits.elim
  | cons callOp calls ih =>
    cases frames with
    | nil => exact hfits.elim
    | cons f frames =>
      rw [Frame.AcceptedAll, ih hfits.2, List.forall₂_cons, List.forall_mem_cons]
      exact ⟨fun ⟨hmatch, hf, hall, hframes⟩ => ⟨⟨hmatch, hall⟩, hf, hframes⟩,
        fun ⟨⟨hmatch, hall⟩, hf, hframes⟩ => ⟨hmatch, hf, hall, hframes⟩⟩

/-- **A call tree is constrained for its frames**, however deep the calls are nested. -/
theorem circuit_define (hp : p.WellFormed) (room : Nat) :
    Defines R σ p witnesses (Circuit.define p witnesses room) := by
  induction room with
  | zero => exact fun _ _ _ _ h => (crash_ok.mp h).elim
  | succ room ih =>
    intro T f id c index d b b' hfits hc hassigned hlt hdefine hT
    obtain ⟨item, calls⟩ := f
    obtain ⟨hid, -, hcalls⟩ := hfits
    have hcircuit : item.circuit p = c := by
      rw [StackItem.circuit, hid, hc, Option.getD_some]
    have hmem : c ∈ p.functions := List.mem_of_getElem? hc
    have hvalues : item.values p = (List.range (c.currentWitnessIndex + 1)).map item.value := by
      rw [StackItem.values, hcircuit]
    have hlength : (item.values p).length = c.currentWitnessIndex + 1 := by
      rw [hvalues, List.length_map, List.length_range]
    rw [Frame.slots] at hassigned hlt
    rw [List.length_append, hlength] at hlt
    rw [hcircuit] at hcalls
    obtain ⟨hothers, hown⟩ := assigned_append.mp hassigned
    obtain ⟨⟨connections, index₁⟩, b₁, hsub, hrest₁⟩ := build_bind_ok.mp hdefine
    obtain ⟨⟨ws, index₂⟩, b₂, hcollect, hrest₂⟩ := build_bind_ok.mp hrest₁
    obtain ⟨ws', b₃, hconstrain, hrest₃⟩ := build_bind_ok.mp hrest₂
    obtain ⟨_, b₄, hconnect, hpure⟩ := build_bind_ok.mp hrest₃
    obtain ⟨rfl, rfl⟩ := build_pure_ok.mp hpure
    -- what does not depend on the final tables
    obtain ⟨hindex, hfst, hconnected, -, -⟩ :=
      defineSubcircuits_exact (T := b₁.tables) ih hcalls hothers (by omega) hsub fun _ _ h => h
    rw [hvalues, ← hindex] at hown
    obtain ⟨rfl, hindex₂, hbound⟩ := collectCurrentWitnesses_bound hown (by omega) hcollect
    have hops := hp.opcodeOk hmem
    obtain ⟨rfl, -, -⟩ :=
      constrainCircuit_exact (R := R) (T := b₃.tables) hbound hops hconstrain fun _ _ h => h
    have hclosed : ∀ connection ∈ connections,
        ∀ j ∈ connection.1.inputs ++ connection.1.outputs, j < c.currentWitnessIndex + 1 := by
      intro connection hconnection
      refine hp.call hmem ?_
      rw [← hfst]
      exact List.mem_map_of_mem hconnection
    obtain ⟨htables, hexact₃⟩ :=
      constrainCircuitCalls_exact (R := R) (T := T) hbound hconnected hclosed hconnect
    -- the parts are exact one after another
    obtain ⟨-, hT₂, hexact₂⟩ := constrainCircuit_exact (R := R) hbound hops hconstrain
      fun table entries h => hT table entries (by rw [htables]; exact h)
    obtain ⟨-, -, -, hT₁, hexact₁⟩ :=
      defineSubcircuits_exact ih hcalls hothers (by omega) hsub hT₂
    constructor
    · show index₂ = _
      rw [Frame.slots, List.length_append, hlength]
      omega
    · rw [Frame.inputs, Frame.item, hcircuit]
      exact collectWitnesses_means hbound (hp.parameters hmem)
    · rw [Frame.outputs, Frame.item, hcircuit]
      exact collectWitnesses_means hbound (hp.returnValues hmem)
    · exact hT₁
    · refine ((hexact₁.trans hexact₂ fun _ _ _ _ _ _ _ => trivial).trans hexact₃
        fun _ _ _ _ _ _ _ => trivial).congr fun _ _ => ?_
      rw [Frame.Accepted, hcircuit, acceptedAll_iff hcalls, hfst]
      exact ⟨fun ⟨⟨hframes, hopcodes⟩, hmatch⟩ => ⟨hopcodes, hmatch, hframes⟩,
        fun ⟨hopcodes, hmatch, hframes⟩ => ⟨⟨hframes, hopcodes⟩, hmatch⟩⟩

end

end Nortia.Sunspot
