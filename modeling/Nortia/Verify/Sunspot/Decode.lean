import Mathlib.Tactic.Tauto
import Nortia.Sunspot.Acir
import Nortia.Verify.Sunspot.Reader

/-!
# Every witness of a decoded circuit has a slot

The reader's high-water mark is at least every witness index in the values decoded so far. A circuit
takes the mark as its last slot, so its opcodes refer to no witness beyond it.
-/

namespace Nortia.Sunspot

open Lib

/-! ## Witnesses of a value -/

def MulTerm.witnesses (mt : MulTerm) : List Witness := [mt.witnessLeft, mt.witnessRight]

def LinearCombination.witnesses (lc : LinearCombination) : List Witness := [lc.witness]

def Expression.witnesses (e : Expression) : List Witness :=
  e.mulTerms.flatMap MulTerm.witnesses ++ e.linearCombinations.flatMap LinearCombination.witnesses

def MemoryOp.witnesses (m : MemoryOp) : List Witness := [m.index, m.value]

def Call.witnesses (c : Call) : List Witness := c.inputs ++ c.outputs ++ c.predicate.witnesses

def BrilligInputs.witnesses (b : BrilligInputs) : List Witness :=
  b.single.toList.flatMap Expression.witnesses ++
    b.array.toList.flatMap (·.flatMap Expression.witnesses)

def BrilligOutputs.witnesses (b : BrilligOutputs) : List Witness :=
  b.single.toList ++ b.array.toList.flatten

def BrilligCall.witnesses (b : BrilligCall) : List Witness :=
  b.inputs.flatMap BrilligInputs.witnesses ++ b.outputs.flatMap BrilligOutputs.witnesses ++
    b.predicate.witnesses

def FunctionInput.witnesses (f : FunctionInput) : List Witness := f.witness.toList

def Range.witnesses (a : Range) : List Witness := a.input.witnesses

def Bitwise.witnesses (a : Bitwise) : List Witness :=
  a.lhs.witnesses ++ a.rhs.witnesses ++ [a.output]

def Payload.allWitnesses : Payload → List Witness
  | .input x => x.witnesses
  | .inputs xs => xs.flatMap FunctionInput.witnesses
  | .witness w => [w]
  | .witnesses ws => ws
  | .number _ => []

def BlackBoxFunction.witnesses : BlackBoxFunction → List Witness
  | .and a => a.witnesses
  | .xor a => a.witnesses
  | .range a => a.witnesses
  | .other _ values => values.flatMap Payload.allWitnesses

def Opcode.witnesses : Opcode → List Witness
  | .assertZero e => e.witnesses
  | .blackBoxFuncCall function => function.witnesses
  | .memoryOp m => m.witnesses
  | .memoryInit m => m.init
  | .brilligCall b => b.witnesses
  | .call c => c.witnesses

/-- Every witness a circuit refers to. -/
def Circuit.witnesses (c : Circuit) : List Witness :=
  c.opcodes.flatMap Opcode.witnesses ++ c.privateParameters.1 ++ c.publicParameters.1 ++
    c.returnValues.1

/-! ## The mark -/

variable {α β σ τ : Type} {r r' : Reader} {t : WitnessTracker} {known : List Witness}

theorem WitnessTracker.le_observe (t : WitnessTracker) (idx : Nat) :
    t.maxWitness ≤ (t.observe idx).maxWitness ∧ idx ≤ (t.observe idx).maxWitness := by
  unfold observe
  split
  · next h =>
    cases hseen : t.witnessSeen with
    | false => exact ⟨by rw [t.unseen hseen]; exact Nat.zero_le _, Nat.le_refl _⟩
    | true =>
      have hlt : t.maxWitness < idx := by simpa [hseen] using h
      exact ⟨Nat.le_of_lt hlt, Nat.le_refl _⟩
  · next h =>
    have hle : ¬ t.maxWitness < idx := by simp_all
    exact ⟨Nat.le_refl _, Nat.le_of_not_lt hle⟩

/-- Where the `known` witnesses are below the mark, the decoder does not lower it and leaves it above
the witnesses of what it decodes. -/
def Observes (known : List Witness) (ws : α → List Witness) (p : Decoder α) : Prop :=
  ∀ r x r', p r = .ok (x, r') → (∀ w ∈ known, w ≤ r.tracker.maxWitness) →
    r.tracker.maxWitness ≤ r'.tracker.maxWitness ∧ ∀ w ∈ ws x, w ≤ r'.tracker.maxWitness

/-- A decoder that reads no witness. -/
def Still (p : Decoder α) : Prop := ∀ r x r', p r = .ok (x, r') → r'.tracker = r.tracker

variable {ws : α → List Witness} {vs : β → List Witness} {p : Decoder α} {f : α → Decoder β}

namespace Observes

theorem pure {x : α} (h : ∀ w ∈ ws x, w = 0 ∨ w ∈ known) : Observes known ws (Pure.pure x) := by
  intro r y r' hp hknown
  obtain ⟨rfl, rfl⟩ := pure_ok.mp hp
  refine ⟨Nat.le_refl _, fun w hw => ?_⟩
  rcases h w hw with rfl | hw
  · exact Nat.zero_le _
  · exact hknown w hw

theorem bind (hp : Observes known ws p) (hf : ∀ x, Observes (ws x ++ known) vs (f x)) :
    Observes known vs (p >>= f) := by
  intro r y r' h hknown
  obtain ⟨x, r₁, hfirst, hrest⟩ := bind_ok.mp h
  obtain ⟨hle, hx⟩ := hp r x r₁ hfirst hknown
  have hknown₁ : ∀ w ∈ ws x ++ known, w ≤ r₁.tracker.maxWitness := by
    intro w hw
    rcases List.mem_append.mp hw with hw | hw
    · exact hx w hw
    · exact Nat.le_trans (hknown w hw) hle
  obtain ⟨hle', hy⟩ := hf x r₁ y r' hrest hknown₁
  exact ⟨Nat.le_trans hle hle', hy⟩

theorem mono {more : List Witness} (hp : Observes known ws p) (h : ∀ w ∈ known, w ∈ more) :
    Observes more ws p :=
  fun r x r' hread hmore => hp r x r' hread fun w hw => hmore w (h w hw)

theorem of_still (h : Still p) : Observes known (fun _ => []) p := by
  intro r x r' hp _
  rw [h r x r' hp]
  exact ⟨Nat.le_refl _, fun w hw => absurd hw List.not_mem_nil⟩

theorem fail {e : DecodeError} : Observes known ws (fail e) :=
  fun _ _ _ h => (fail_ok.mp h).elim

/-- A fresh value refers to nothing but the witness `0`, which is below every mark. -/
theorem of_zero {fresh : List Witness} (h : ∀ w ∈ fresh, w = 0) (hp : Observes fresh ws p) :
    Observes known ws p := by
  intro r x r' hread _
  refine hp r x r' hread fun w hw => ?_
  rw [h w hw]
  exact Nat.zero_le _

theorem wrap {context : DecodeError → DecodeError} (hp : Observes known ws p) :
    Observes known ws (wrap context p) :=
  fun r x r' h => hp r x r' (wrap_ok.mp h)

end Observes

namespace Still

theorem pure {x : α} : Still (Pure.pure x : Decoder α) := by
  intro r y r' h
  rw [(pure_ok.mp h).2]

theorem bind (hp : Still p) (hf : ∀ x, Still (f x)) : Still (p >>= f) := by
  intro r y r' h
  obtain ⟨x, r₁, hfirst, hrest⟩ := bind_ok.mp h
  rw [hf x r₁ y r' hrest, hp r x r₁ hfirst]

theorem fail {e : DecodeError} : Still (fail e : Decoder α) := fun _ _ _ h => (fail_ok.mp h).elim

theorem wrap {context : DecodeError → DecodeError} (hp : Still p) : Still (wrap context p) :=
  fun r x r' h => hp r x r' (wrap_ok.mp h)

theorem ite {c : Prop} [Decidable c] {q : Decoder α} (hp : Still p) (hq : Still q) :
    Still (if c then p else q) := by
  split
  · exact hp
  · exact hq

end Still

theorem still_peek : Still peek := by
  intro r b r' h
  rw [(peek_ok.mp h).2]

theorem still_readByte : Still readByte := by
  intro r b r' h
  obtain ⟨rest, -, rfl⟩ := readByte_ok.mp h
  rfl

theorem still_readN (n : Nat) : Still (readN n) := by
  intro r x r' h
  rw [(readN_ok.mp h).2.2]

theorem still_readUnsigned (n : Nat) : Still (readUnsigned n) :=
  (still_readN n).bind fun _ => .pure

theorem still_readSigned (n : Nat) : Still (readSigned n) :=
  (still_readN n).bind fun _ => .ite .fail .pure

theorem still_readBool : Still readBool :=
  still_readByte.bind fun _ => .ite .pure (.ite .pure .fail)

theorem still_readUint : Still readUint :=
  still_readByte.bind fun _ => .ite .pure <| .ite (still_readUnsigned 1) <|
    .ite (still_readUnsigned 2) <| .ite (still_readUnsigned 4) <| .ite (still_readUnsigned 8) <|
    .ite (still_readSigned 1) <| .ite (still_readSigned 2) <| .ite (still_readSigned 4) <|
    .ite (still_readSigned 8) .fail

theorem still_readU32 : Still readU32 := still_readUint.bind fun _ => .ite .pure .fail

theorem still_readTruncated : Still readTruncated := still_readUint.bind fun _ => .pure

theorem still_readStringLen : Still readStringLen :=
  still_readByte.bind fun _ => .ite .pure <| .ite (still_readUnsigned 1) <|
    .ite (still_readUnsigned 2) <| .ite (still_readUnsigned 4) .fail

theorem still_readString : Still readString := still_readStringLen.bind still_readN

theorem still_readBytes : Still readBytes :=
  (still_readByte.bind fun _ => .ite (still_readUnsigned 1) <| .ite (still_readUnsigned 2) <|
    .ite (still_readUnsigned 4) .fail).bind still_readN

theorem still_readArrayLen : Still readArrayLen :=
  still_readByte.bind fun _ => .ite .pure <| .ite (still_readUnsigned 2) <|
    .ite (still_readUnsigned 4) .fail

theorem still_readMapLen : Still readMapLen :=
  still_readByte.bind fun _ => .ite .pure <| .ite (still_readUnsigned 2) <|
    .ite (still_readUnsigned 4) .fail

theorem still_skipValue : Still skipValue := by
  intro r x r' h
  obtain ⟨value, -, -, ht⟩ := skipValueWithin_sound h
  exact ht

/-! ## Structs, enums and vectors -/

theorem Observes.still_bind {p : Decoder β} {f : β → Decoder α} (hp : Still p)
    (hf : ∀ x, Observes known ws (f x)) : Observes known ws (p >>= f) :=
  (of_still hp).bind fun x => (hf x).mono fun _ hw => List.mem_append_right _ hw

theorem Observes.ite {c : Prop} [Decidable c] {q : Decoder α} (hp : Observes known ws p)
    (hq : Observes known ws q) : Observes known ws (if c then p else q) := by
  split
  · exact hp
  · exact hq

section

variable {name parent kind : String} {us : σ → List Witness} {vs : τ → List Witness} {s : σ}

/-- A keyed entry is decoded by the field its key names. -/
theorem dispatchKeyed_ok {fields : List (Field σ τ)} {x : τ}
    (h : dispatchKeyed parent kind fields s r = .ok (x, r')) :
    ∃ f ∈ fields, ∃ r₁, r₁.tracker = r.tracker ∧ f.decode s r₁ = .ok (x, r') := by
  obtain ⟨b, r₁, hpeek, h⟩ := bind_ok.mp h
  have ht : r₁.tracker = r.tracker := still_peek r b r₁ hpeek
  by_cases hstring : isStringMarker b
  · rw [if_pos hstring] at h
    obtain ⟨key, r₂, hkey, h⟩ := bind_ok.mp h
    cases hfind : fields.find? (fun f => Text.asBytes f.name.toList = key) with
    | none => rw [hfind] at h; exact (fail_ok.mp h).elim
    | some f =>
      rw [hfind] at h
      exact ⟨f, List.mem_of_find?_eq_some hfind, r₂, (still_readString r₁ key r₂ hkey).trans ht,
        wrap_ok.mp h⟩
  · rw [if_neg hstring] at h
    obtain ⟨tag, r₂, htag, h⟩ := bind_ok.mp h
    cases hget : fields[tag]? with
    | none => rw [hget] at h; exact (fail_ok.mp h).elim
    | some f =>
      rw [hget] at h
      exact ⟨f, List.mem_of_getElem? hget, r₂, (still_readUint r₁ tag r₂ htag).trans ht,
        wrap_ok.mp h⟩

/-- What each field keeps of a struct and the mark, a struct keeps, in each of the three formats. -/
theorem readStruct_keeps {fields : List (Field σ)} {I : σ → WitnessTracker → Prop} {s' : σ}
    (hfields : ∀ f ∈ fields, ∀ s r s' r', I s r.tracker → f.decode s r = .ok (s', r') →
      I s' r'.tracker)
    (hs : I s r.tracker) (h : readStruct name fields s r = .ok (s', r')) : I s' r'.tracker := by
  have hentries : ∀ n i s r, I s r.tracker → readEntries name fields i n s r = .ok (s', r') →
      I s' r'.tracker := by
    intro n
    induction n with
    | zero =>
      intro i s r hs h
      obtain ⟨rfl, rfl⟩ := pure_ok.mp h
      exact hs
    | succ n ih =>
      intro i s r hs h
      obtain ⟨s₁, r₁, hentry, h⟩ := bind_ok.mp h
      obtain ⟨f, hf, r₂, ht, hdecode⟩ := dispatchKeyed_ok (wrap_ok.mp hentry)
      exact ih _ _ _ (hfields f hf s r₂ s₁ r₁ (by rwa [ht]) hdecode) h
  have hpositional : ∀ n i s r, I s r.tracker → readPositional name fields i n s r = .ok (s', r') →
      I s' r'.tracker := by
    intro n
    induction n with
    | zero =>
      intro i s r hs h
      obtain ⟨rfl, rfl⟩ := pure_ok.mp h
      exact hs
    | succ n ih =>
      intro i s r hs h
      rw [readPositional] at h
      cases hget : fields[i]? with
      | none => rw [hget] at h; exact (fail_ok.mp h).elim
      | some f =>
        rw [hget] at h
        obtain ⟨s₁, r₁, hinvoke, h⟩ := bind_ok.mp h
        have hf : f ∈ fields := List.mem_of_getElem? hget
        exact ih _ _ _ (hfields f hf s r s₁ r₁ hs (wrap_ok.mp hinvoke)) h
  obtain ⟨b, r₁, hpeek, h⟩ := bind_ok.mp h
  have ht : r₁.tracker = r.tracker := still_peek r b r₁ hpeek
  by_cases hmap : isMapMarker b
  · rw [if_pos hmap] at h
    obtain ⟨n, r₂, hlen, h⟩ := bind_ok.mp h
    exact hentries n 0 s r₂ (by rwa [still_readMapLen r₁ n r₂ hlen, ht]) h
  rw [if_neg hmap] at h
  by_cases harray : isArrayMarker b
  · rw [if_pos harray] at h
    obtain ⟨n, r₂, hlen, h⟩ := bind_ok.mp h
    exact hpositional n 0 s r₂ (by rwa [still_readArrayLen r₁ n r₂ hlen, ht]) h
  · rw [if_neg harray] at h
    exact (fail_ok.mp h).elim

/-- **A struct observes what its fields observe.** -/
theorem observes_readStruct {fields : List (Field σ)}
    (h : ∀ f ∈ fields, ∀ s, Observes (us s) us (f.decode s)) (s : σ) :
    Observes (us s) us (readStruct name fields s) := by
  intro r s' r' hread hs
  refine readStruct_keeps (I := fun s t => r.tracker.maxWitness ≤ t.maxWitness ∧
    ∀ w ∈ us s, w ≤ t.maxWitness) ?_ ⟨Nat.le_refl _, hs⟩ hread
  rintro f hf s₁ r₁ s₂ r₂ ⟨hle, hbelow⟩ hdecode
  obtain ⟨hle', hbelow'⟩ := h f hf s₁ r₁ s₂ r₂ hdecode hbelow
  exact ⟨Nat.le_trans hle hle', hbelow'⟩

theorem observes_dispatchKeyed {fields : List (Field σ τ)}
    (h : ∀ f ∈ fields, Observes known vs (f.decode s)) :
    Observes known vs (dispatchKeyed parent kind fields s) := by
  intro r x r' hread hknown
  obtain ⟨f, hf, r₁, ht, hdecode⟩ := dispatchKeyed_ok hread
  rw [← ht] at hknown ⊢
  exact h f hf r₁ x r' hdecode hknown

theorem observes_readEnum {variants : List (Field σ τ)}
    (h : ∀ f ∈ variants, Observes known vs (f.decode s)) :
    Observes known vs (readEnum name variants s) :=
  .still_bind still_readMapLen.wrap fun _ => .ite .fail (observes_dispatchKeyed h)

theorem observes_readElements {decode : α → Decoder α}
    (h : ∀ x, Observes (ws x) ws (decode x)) (xs : List α) :
    Observes (xs.flatMap ws) (·.flatMap ws) (readElements decode xs) := by
  induction xs with
  | nil => exact .pure fun w hw => absurd hw List.not_mem_nil
  | cons x xs ih =>
    refine ((h x).mono fun w hw => List.mem_append_left _ hw).bind fun y => ?_
    refine (ih.mono fun w hw => ?_).bind fun ys => .pure fun w hw => .inr ?_
    · exact List.mem_append_right _ (List.mem_append_right _ hw)
    · rcases List.mem_append.mp hw with hw | hw
      · exact List.mem_append_right _ (List.mem_append_left _ hw)
      · exact List.mem_append_left _ hw

/-- The zero values of a fresh slice refer to nothing but the witness `0`. -/
theorem observes_replicate {decode : α → Decoder α} (h : ∀ x, Observes (ws x) ws (decode x))
    {zero : α} (hzero : ∀ w ∈ ws zero, w = 0) (n : Nat) :
    Observes known (·.flatMap ws) (readElements decode (List.replicate n zero)) := by
  refine .of_zero (fun w hw => ?_) (observes_readElements h (List.replicate n zero))
  obtain ⟨y, hy, hw⟩ := List.mem_flatMap.mp hw
  rw [List.eq_of_mem_replicate hy] at hw
  exact hzero w hw

theorem observes_readVec (ws : α → List Witness) {decode : α → Decoder α} (h : ∀ x, Observes (ws x) ws (decode x))
    {zero : α} (hzero : ∀ w ∈ ws zero, w = 0) :
    Observes known (·.flatMap ws) (readVec zero decode) :=
  .still_bind still_readArrayLen fun n => observes_replicate h hzero n

theorem observes_readArrayInto (ws : α → List Witness) {decode : α → Decoder α} (h : ∀ x, Observes (ws x) ws (decode x))
    {zero : α} (hzero : ∀ w ∈ ws zero, w = 0) (n : Nat) :
    Observes known (·.flatMap ws) (readArrayInto decode (List.replicate n zero)) :=
  .still_bind still_readArrayLen fun _ => .ite .fail (observes_replicate h hzero n)

end

/-! ## Each type -/

theorem observes_witness (w : Witness) :
    Observes known (fun w => [w]) (Witness.unmarshalReader w) := by
  refine .still_bind still_readU32 fun v => ?_
  intro r x r' h _
  obtain ⟨u, r₁, hobserve, hpure⟩ := bind_ok.mp h
  cases hobserve
  obtain ⟨rfl, rfl⟩ := pure_ok.mp hpure
  obtain ⟨hle, hv⟩ := r.tracker.le_observe x
  exact ⟨hle, fun w hw => List.mem_singleton.mp hw ▸ hv⟩

theorem observes_witnesses : Observes known id (readVec 0 Witness.unmarshalReader) := by
  have h : Observes known (·.flatMap fun w => [w]) (readVec 0 Witness.unmarshalReader) :=
    observes_readVec _ (fun x => observes_witness x) fun w hw => List.mem_singleton.mp hw
  simpa [Function.id_def] using h

theorem still_field (v : BN254Field) : Still (BN254Field.unmarshalReader v) :=
  still_readBytes.bind fun _ => .pure

theorem observes_mulTerm (mt : MulTerm) :
    Observes known MulTerm.witnesses mt.unmarshalReader := by
  refine .still_bind still_readArrayLen fun n => .ite .fail ?_
  refine .still_bind (still_field _) fun term => ?_
  refine (observes_witness _).bind fun left => (observes_witness _).bind fun right => .pure ?_
  intro w hw
  simp only [MulTerm.witnesses, List.mem_cons, List.not_mem_nil, or_false] at hw
  rcases hw with rfl | rfl <;> simp

theorem observes_linearCombination (lc : LinearCombination) :
    Observes known LinearCombination.witnesses lc.unmarshalReader := by
  refine .still_bind still_readArrayLen fun n => .ite .fail ?_
  refine .still_bind (still_field _) fun term => (observes_witness _).bind fun w => .pure ?_
  intro v hv
  exact .inr (List.mem_append_left _ hv)

theorem observes_expression (e : Expression) :
    Observes e.witnesses Expression.witnesses e.unmarshalReader := by
  refine observes_readStruct ?_ e
  simp only [Expression.fields, List.forall_mem_cons, List.not_mem_nil, false_implies,
    implies_true, and_true]
  refine ⟨fun e => ?_, fun e => ?_, fun e => ?_⟩
  · refine (observes_readVec MulTerm.witnesses (fun x => observes_mulTerm x) ?_).bind fun mulTerms => .pure fun w hw => ?_
    · simp [MulTerm.witnesses]
    · simp only [Expression.witnesses, List.mem_append] at hw ⊢
      tauto
  · refine (observes_readVec LinearCombination.witnesses (fun x => observes_linearCombination x) ?_).bind fun lcs => .pure fun w hw => ?_
    · simp [LinearCombination.witnesses]
    · simp only [Expression.witnesses, List.mem_append] at hw ⊢
      tauto
  · exact .still_bind (still_field _) fun constant => .pure fun w hw => .inr hw

theorem observes_memoryOp (m : MemoryOp) :
    Observes m.witnesses MemoryOp.witnesses m.unmarshalReader := by
  have hop : ∀ m : MemoryOp, Observes m.witnesses MemoryOp.witnesses
      (readStruct "MemOp" MemoryOp.opFields m) := by
    refine fun m => observes_readStruct ?_ m
    simp only [MemoryOp.opFields, List.forall_mem_cons, List.not_mem_nil, false_implies,
      implies_true, and_true]
    refine ⟨fun m => ?_, fun m => ?_, fun m => ?_⟩
    · exact .still_bind still_readBool fun isWrite => .pure fun w hw => .inr hw
    · refine (observes_witness _).bind fun index => .pure fun w hw => ?_
      simp only [MemoryOp.witnesses, List.mem_cons, List.mem_append] at hw ⊢
      tauto
    · refine (observes_witness _).bind fun value => .pure fun w hw => ?_
      simp only [MemoryOp.witnesses, List.mem_cons, List.mem_append] at hw ⊢
      tauto
  refine observes_readStruct ?_ m
  simp only [MemoryOp.fields, List.forall_mem_cons, List.not_mem_nil, false_implies,
    implies_true, and_true]
  refine ⟨fun m => ?_, hop⟩
  exact .still_bind still_readTruncated fun blockID => .pure fun w hw => .inr hw

theorem observes_skipField {us : σ → List Witness} (s : σ) :
    Observes (us s) us (skipField s) :=
  .still_bind still_skipValue fun _ => .pure fun _ hw => .inr hw

theorem observes_memoryInit (m : MemoryInit) :
    Observes m.init MemoryInit.init m.unmarshalReader := by
  refine observes_readStruct ?_ m
  simp only [MemoryInit.fields, List.forall_mem_cons, List.not_mem_nil, false_implies,
    implies_true, and_true]
  refine ⟨fun m => ?_, fun m => ?_, observes_skipField⟩
  · exact .still_bind still_readU32 fun blockID => .pure fun w hw => .inr hw
  · exact observes_witnesses.bind fun init => .pure fun w hw => .inr (List.mem_append_left _ hw)

theorem observes_call (c : Call) : Observes c.witnesses Call.witnesses c.unmarshalReader := by
  refine observes_readStruct ?_ c
  simp only [Call.fields, List.forall_mem_cons, List.not_mem_nil, false_implies, implies_true,
    and_true]
  refine ⟨fun c => ?_, fun c => ?_, fun c => ?_, fun c => ?_⟩
  · exact .still_bind still_readTruncated fun id => .pure fun w hw => .inr hw
  · refine observes_witnesses.bind fun inputs => .pure fun w hw => ?_
    simp only [Call.witnesses, List.mem_append, id] at hw ⊢
    tauto
  · refine observes_witnesses.bind fun outputs => .pure fun w hw => ?_
    simp only [Call.witnesses, List.mem_append, id] at hw ⊢
    tauto
  · refine ((observes_expression _).mono fun w hw => ?_).bind fun predicate => .pure fun w hw => ?_
    · exact List.mem_append_right _ hw
    · simp only [Call.witnesses, List.mem_append] at hw ⊢
      tauto

theorem expression_zero : ∀ w ∈ ({} : Expression).witnesses, w = 0 := fun _ hw =>
  absurd hw List.not_mem_nil

theorem observes_brilligInputs (b : BrilligInputs) :
    Observes b.witnesses BrilligInputs.witnesses b.unmarshalReader := by
  refine observes_readEnum ?_
  simp only [BrilligInputs.variants, List.forall_mem_cons, List.not_mem_nil, false_implies, implies_true,
    and_true]
  refine ⟨?_, ?_, ?_⟩
  · refine ((observes_expression {}).mono fun w hw => ?_).bind fun single => .pure fun w hw => ?_
    · exact absurd hw List.not_mem_nil
    · simp only [BrilligInputs.witnesses, Option.toList_some, List.flatMap_singleton,
        List.mem_append] at hw ⊢
      tauto
  · refine (observes_readVec Expression.witnesses observes_expression expression_zero).bind
      fun array => .pure fun w hw => ?_
    simp only [BrilligInputs.witnesses, Option.toList_some, List.flatMap_singleton,
      List.mem_append] at hw ⊢
    tauto
  · exact .still_bind still_readTruncated fun blockID => .pure fun w hw => .inr hw

theorem observes_brilligOutputs (b : BrilligOutputs) :
    Observes b.witnesses BrilligOutputs.witnesses b.unmarshalReader := by
  refine observes_readEnum ?_
  simp only [BrilligOutputs.variants, List.forall_mem_cons, List.not_mem_nil, false_implies, implies_true,
    and_true]
  refine ⟨?_, ?_⟩
  · refine (observes_witness _).bind fun single => .pure fun w hw => ?_
    simp only [BrilligOutputs.witnesses, Option.toList_some, List.mem_append] at hw ⊢
    tauto
  · refine observes_witnesses.bind fun array => .pure fun w hw => ?_
    simp only [BrilligOutputs.witnesses, Option.toList_some, List.flatten_singleton, id,
      List.mem_append] at hw ⊢
    tauto

theorem observes_brilligCall (b : BrilligCall) :
    Observes b.witnesses BrilligCall.witnesses b.unmarshalReader := by
  refine observes_readStruct ?_ b
  simp only [BrilligCall.fields, List.forall_mem_cons, List.not_mem_nil, false_implies,
    implies_true, and_true]
  refine ⟨fun b => ?_, fun b => ?_, fun b => ?_, fun b => ?_⟩
  · exact .still_bind still_readTruncated fun id => .pure fun w hw => .inr hw
  · refine (observes_readVec BrilligInputs.witnesses observes_brilligInputs ?_).bind
      fun inputs => .pure fun w hw => ?_
    · exact fun w hw => absurd hw List.not_mem_nil
    · simp only [BrilligCall.witnesses, List.mem_append] at hw ⊢
      tauto
  · refine (observes_readVec BrilligOutputs.witnesses observes_brilligOutputs ?_).bind
      fun outputs => .pure fun w hw => ?_
    · exact fun w hw => absurd hw List.not_mem_nil
    · simp only [BrilligCall.witnesses, List.mem_append] at hw ⊢
      tauto
  · refine ((observes_expression _).mono fun w hw => ?_).bind fun predicate => .pure fun w hw => ?_
    · exact List.mem_append_right _ hw
    · simp only [BrilligCall.witnesses, List.mem_append] at hw ⊢
      tauto

theorem observes_functionInput (f : FunctionInput) :
    Observes known FunctionInput.witnesses f.unmarshalReader := by
  refine observes_readEnum ?_
  simp only [FunctionInput.variants, List.forall_mem_cons, List.not_mem_nil, false_implies, implies_true,
    and_true]
  refine ⟨?_, ?_⟩
  · exact .still_bind (still_field 0) fun constant => .pure fun w hw => absurd hw List.not_mem_nil
  · exact (observes_witness 0).bind fun witness => .pure fun w hw =>
      .inr (List.mem_append_left _ hw)

theorem observes_functionInputs :
    Observes known (·.flatMap FunctionInput.witnesses)
      (readVec {} FunctionInput.unmarshalReader) :=
  observes_readVec _ (fun x => observes_functionInput x) fun _ hw => absurd hw List.not_mem_nil

theorem observes_range (a : Range) :
    Observes a.witnesses Range.witnesses (readStruct "Range" Range.fields a) := by
  refine observes_readStruct ?_ a
  simp only [Range.fields, List.forall_mem_cons, List.not_mem_nil, false_implies, implies_true,
    and_true]
  refine ⟨fun a => ?_, fun a => ?_⟩
  · exact (observes_functionInput _).bind fun input => .pure fun w hw =>
      .inr (List.mem_append_left _ hw)
  · exact .still_bind still_readU32 fun n => .pure fun w hw => .inr hw

theorem observes_bitwise (name other : String) (a : Bitwise) :
    Observes a.witnesses Bitwise.witnesses (readStruct name (Bitwise.fields other) a) := by
  refine observes_readStruct ?_ a
  simp only [Bitwise.fields, List.forall_mem_cons, List.not_mem_nil, false_implies, implies_true,
    and_true]
  refine ⟨fun a => ?_, fun a => ?_, fun a => ?_, fun a => ?_⟩
  · refine (observes_functionInput _).bind fun lhs => .pure fun w hw => ?_
    simp only [Bitwise.witnesses, List.mem_append] at hw ⊢
    tauto
  · refine (observes_functionInput _).bind fun rhs => .pure fun w hw => ?_
    simp only [Bitwise.witnesses, List.mem_append] at hw ⊢
    tauto
  · exact .still_bind still_readU32 fun n => .ite .fail (.pure fun w hw => .inr hw)
  · refine (observes_witness _).bind fun output => .pure fun w hw => ?_
    simp only [Bitwise.witnesses, List.mem_append] at hw ⊢
    tauto

theorem observes_kind (k : Kind) : Observes known Payload.allWitnesses k.unmarshalReader := by
  cases k with
  | input =>
    exact (observes_functionInput {}).bind fun x => .pure fun w hw =>
      .inr (List.mem_append_left _ hw)
  | inputs =>
    exact observes_functionInputs.bind fun xs => .pure fun w hw => .inr (List.mem_append_left _ hw)
  | inputArray n =>
    exact (observes_readArrayInto _ (fun x => observes_functionInput x)
      (fun _ hw => absurd hw List.not_mem_nil) n).bind fun xs => .pure fun w hw =>
      .inr (List.mem_append_left _ hw)
  | witness =>
    exact (observes_witness 0).bind fun x => .pure fun w hw => .inr (List.mem_append_left _ hw)
  | witnesses =>
    exact observes_witnesses.bind fun xs => .pure fun w hw => .inr (List.mem_append_left _ hw)
  | witnessArray n =>
    refine (observes_readArrayInto _ (fun x => observes_witness x)
      (fun w hw => List.mem_singleton.mp hw) n).bind fun xs => .pure fun w hw => ?_
    refine .inr (List.mem_append_left _ ?_)
    simpa [Payload.allWitnesses] using hw
  | number => exact .still_bind still_readU32 fun n => .pure fun w hw => absurd hw List.not_mem_nil

theorem zero_kind (k : Kind) : ∀ w ∈ k.zero.allWitnesses, w = 0 := by
  intro w hw
  cases k with
  | inputArray n =>
    simp only [Kind.zero, Payload.allWitnesses, List.mem_flatMap] at hw
    obtain ⟨x, hx, hw⟩ := hw
    rw [List.eq_of_mem_replicate hx] at hw
    exact absurd hw List.not_mem_nil
  | witness => exact List.mem_singleton.mp hw
  | witnessArray n => exact List.eq_of_mem_replicate hw
  | input | inputs | witnesses | number => exact absurd hw List.not_mem_nil

theorem mem_set_flatMap {values : List Payload} {i : Nat} {value : Payload} {w : Witness}
    (hw : w ∈ (values.set i value).flatMap Payload.allWitnesses) :
    w ∈ value.allWitnesses ∨ w ∈ values.flatMap Payload.allWitnesses := by
  obtain ⟨x, hx, hmem⟩ := List.mem_flatMap.mp hw
  rcases List.mem_or_eq_of_mem_set hx with hx | hx
  · exact .inr (List.mem_flatMap.mpr ⟨x, hx, hmem⟩)
  · exact .inl (hx ▸ hmem)

theorem observes_schema (f : Schema) :
    Observes known (·.flatMap Payload.allWitnesses) f.unmarshalReader := by
  refine .of_zero (fun w hw => ?_) (observes_readStruct ?_ f.zero)
  · obtain ⟨value, hvalue, hw⟩ := List.mem_flatMap.mp hw
    obtain ⟨field, -, rfl⟩ := List.mem_map.mp hvalue
    exact zero_kind field.2 w hw
  · intro field hfield values
    obtain ⟨i, hi, rfl⟩ := List.mem_mapIdx.mp hfield
    refine (observes_kind _).bind fun value => .pure fun w hw => .inr ?_
    exact List.mem_append.mpr (mem_set_flatMap hw)

theorem observes_variant (f : Schema) :
    Observes known BlackBoxFunction.witnesses (f.variant.decode ()) :=
  (observes_schema f).bind fun _ => .pure fun _ hw => .inr (List.mem_append_left _ hw)

theorem observes_blackBoxFunction :
    Observes known BlackBoxFunction.witnesses
      (readDispatchedEnum "BlackBoxFuncCall" BlackBoxFunction.variants) := by
  refine observes_readEnum ?_
  simp only [BlackBoxFunction.variants, List.forall_mem_cons, observes_variant, List.not_mem_nil,
    false_implies, implies_true, and_true, true_and]
  have hbitwise : ∀ w ∈ ({} : Bitwise).witnesses, w = 0 := fun w hw => List.mem_singleton.mp hw
  refine ⟨?_, ?_, ?_⟩
  · exact (Observes.of_zero hbitwise (observes_bitwise _ _ {})).bind fun a => .pure fun w hw =>
      .inr (List.mem_append_left _ hw)
  · exact (Observes.of_zero hbitwise (observes_bitwise _ _ {})).bind fun a => .pure fun w hw =>
      .inr (List.mem_append_left _ hw)
  · refine (Observes.of_zero ?_ (observes_range {})).bind fun a => .pure fun w hw =>
      .inr (List.mem_append_left _ hw)
    exact fun w hw => absurd hw List.not_mem_nil

/-! ## Circuits -/

theorem observes_opcode :
    Observes known Opcode.witnesses (readDispatchedEnum "Opcode" Opcode.variants) := by
  have hnone {ws : List Witness} (h : ws = []) : ∀ w ∈ ws, w = 0 := fun w hw => by
    rw [h] at hw
    exact absurd hw List.not_mem_nil
  have hmemory : ∀ w ∈ ({} : MemoryOp).witnesses, w = 0 := by simp [MemoryOp.witnesses]
  refine observes_readEnum ?_
  simp only [Opcode.variants, List.forall_mem_cons, List.not_mem_nil, false_implies, implies_true,
    and_true]
  refine ⟨?_, ?_, ?_, ?_, ?_, ?_⟩
  · exact (Observes.of_zero expression_zero (observes_expression {})).bind fun e => .pure
      fun w hw => .inr (List.mem_append_left _ hw)
  · exact observes_blackBoxFunction.bind fun function => .pure
      fun w hw => .inr (List.mem_append_left _ hw)
  · exact (Observes.of_zero hmemory (observes_memoryOp {})).bind fun m => .pure
      fun w hw => .inr (List.mem_append_left _ hw)
  · exact (Observes.of_zero (hnone rfl) (observes_memoryInit {})).bind fun m => .pure
      fun w hw => .inr (List.mem_append_left _ hw)
  · exact (Observes.of_zero (hnone rfl) (observes_brilligCall {})).bind fun b => .pure
      fun w hw => .inr (List.mem_append_left _ hw)
  · exact (Observes.of_zero (hnone rfl) (observes_call {})).bind fun c => .pure
      fun w hw => .inr (List.mem_append_left _ hw)

theorem observes_readOpcodesFrom (i n : Nat) :
    Observes known (·.flatMap Opcode.witnesses) (readOpcodesFrom i n) := by
  induction n generalizing i known with
  | zero => exact .pure fun w hw => absurd hw List.not_mem_nil
  | succ n ih =>
    refine observes_opcode.wrap.bind fun op => (ih (i + 1)).bind fun ops => .pure fun w hw => ?_
    simp only [List.flatMap_cons, List.mem_append] at hw ⊢
    tauto

theorem mem_foldl_insert {js : List Witness} {set : WitnessSet} {w : Witness} :
    w ∈ (js.foldl WitnessSet.insert set).1 ↔ w ∈ set.1 ∨ w ∈ js := by
  induction js generalizing set with
  | nil => simp
  | cons j js ih =>
    rw [List.foldl_cons, ih, WitnessSet.insert, WitnessSet.mem_place, List.mem_cons]
    tauto

theorem observes_readWitnesses (n : Nat) (dst : WitnessSet) :
    Observes dst.1 (fun set => set.1) (readWitnesses n dst) := by
  induction n generalizing dst with
  | zero => exact .pure fun w hw => .inr hw
  | succ n ih =>
    refine (observes_witness 0).bind fun w => (ih (dst.insert w)).mono fun x hx => ?_
    exact List.mem_append.mpr ((WitnessSet.mem_place.mp hx).imp List.mem_singleton.mpr id)

theorem observes_readWitnessSet (dst : WitnessSet) :
    Observes dst.1 (fun set => set.1) (readWitnessSet dst) :=
  .still_bind still_readArrayLen fun n => observes_readWitnesses n dst

theorem observes_circuit (c : Circuit) :
    Observes c.witnesses Circuit.witnesses (readStruct "Circuit" Circuit.fields c) := by
  refine observes_readStruct ?_ c
  simp only [Circuit.fields, List.forall_mem_cons, List.not_mem_nil, false_implies, implies_true,
    and_true]
  refine ⟨fun c => ?_, fun c => ?_, fun c => ?_, fun c => ?_, fun c => ?_, observes_skipField⟩
  · exact .still_bind still_readString fun s => .pure fun w hw => .inr hw
  · refine (Observes.still_bind still_readArrayLen fun n => observes_readOpcodesFrom 0 n).bind
      fun opcodes => .pure fun w hw => ?_
    simp only [Circuit.witnesses, List.mem_append] at hw ⊢
    tauto
  · refine ((observes_readWitnessSet _).mono fun w hw => ?_).bind fun dst => .pure fun w hw => ?_
    · simp only [Circuit.witnesses, List.mem_append]
      tauto
    · simp only [Circuit.witnesses, List.mem_append] at hw ⊢
      tauto
  · refine ((observes_readWitnessSet _).mono fun w hw => ?_).bind fun dst => .pure fun w hw => ?_
    · simp only [Circuit.witnesses, List.mem_append]
      tauto
    · simp only [Circuit.witnesses, List.mem_append] at hw ⊢
      tauto
  · refine ((observes_readWitnessSet _).mono fun w hw => ?_).bind fun dst => .pure fun w hw => ?_
    · simp only [Circuit.witnesses, List.mem_append]
      tauto
    · simp only [Circuit.witnesses, List.mem_append] at hw ⊢
      tauto

/-- Every witness a circuit refers to has a slot. -/
def Circuit.Closed (c : Circuit) : Prop := ∀ w ∈ c.witnesses, w ≤ c.currentWitnessIndex

/-- The fields of a circuit leave the index alone, which is taken from the mark at the end. -/
theorem circuit_currentWitnessIndex {c c' : Circuit}
    (h : readStruct "Circuit" Circuit.fields c r = .ok (c', r')) :
    c'.currentWitnessIndex = c.currentWitnessIndex := by
  refine readStruct_keeps
    (I := fun s _ => s.currentWitnessIndex = c.currentWitnessIndex) ?_ rfl h
  simp only [Circuit.fields, List.forall_mem_cons, List.not_mem_nil, false_implies, implies_true,
    and_true]
  refine ⟨?_, ?_, ?_, ?_, ?_, ?_⟩ <;> intro s r s' r' hs h <;> obtain ⟨x, r₁, -, hpure⟩ := bind_ok.mp h
    <;> obtain ⟨rfl, -⟩ := pure_ok.mp hpure <;> exact hs

theorem closed_circuit {c : Circuit} (h : Circuit.unmarshalReader r = .ok (c, r')) : c.Closed := by
  obtain ⟨_, r₁, hreset, h⟩ := bind_ok.mp h
  cases hreset
  obtain ⟨c₁, r₂, hstruct, h⟩ := bind_ok.mp h
  obtain ⟨maxW, r₃, hmax, h⟩ := bind_ok.mp h
  cases hmax
  have hbelow : ∀ w ∈ c₁.witnesses, w ≤ r₂.tracker.maxWitness :=
    (observes_circuit {} _ c₁ r₂ hstruct fun w hw => absurd hw List.not_mem_nil).2
  have hindex : c₁.currentWitnessIndex = 0 := circuit_currentWitnessIndex hstruct
  cases hseen : r₂.tracker.witnessSeen with
  | true =>
    simp only [hseen, if_true] at h
    obtain ⟨rfl, -⟩ := pure_ok.mp h
    exact hbelow
  | false =>
    simp only [hseen, Bool.false_eq_true, if_false] at h
    obtain ⟨rfl, -⟩ := pure_ok.mp h
    intro w hw
    rw [hindex, ← r₂.tracker.unseen hseen]
    exact hbelow w hw

theorem closed_functions {i n : Nat} {cs : List Circuit}
    (h : readFunctions i n r = .ok (cs, r')) : ∀ c ∈ cs, c.Closed := by
  induction n generalizing i r cs with
  | zero =>
    obtain ⟨rfl, -⟩ := pure_ok.mp h
    exact fun c hc => absurd hc List.not_mem_nil
  | succ n ih =>
    obtain ⟨c, r₁, hfirst, h⟩ := bind_ok.mp h
    obtain ⟨rest, r₂, hrest, h⟩ := bind_ok.mp h
    obtain ⟨rfl, rfl⟩ := pure_ok.mp h
    intro x hx
    rcases List.mem_cons.mp hx with rfl | hx
    · exact closed_circuit (wrap_ok.mp hfirst)
    · exact ih hrest x hx

def Program.Closed (p : Program) : Prop := ∀ c ∈ p.functions, c.Closed

/-- **Every witness of a decoded program has a slot in its circuit**, whatever bytes it was decoded
from. -/
theorem decodeProgram_closed {p : Program} (h : decodeProgram r = .ok (p, r')) : p.Closed := by
  obtain ⟨_, r₁, -, h⟩ := bind_ok.mp h
  refine readStruct_keeps (I := fun s _ => s.Closed) ?_ (fun c hc => absurd hc List.not_mem_nil) h
  simp only [Program.fields, List.forall_mem_cons, List.not_mem_nil, false_implies, implies_true,
    and_true]
  constructor
  · intro s r s' r' _ h
    obtain ⟨n, r₂, -, h⟩ := bind_ok.mp h
    obtain ⟨functions, r₃, hfunctions, h⟩ := bind_ok.mp h
    obtain ⟨rfl, -⟩ := pure_ok.mp h
    exact closed_functions hfunctions
  · intro s r s' r' hs h
    obtain ⟨_, r₂, -, h⟩ := bind_ok.mp h
    obtain ⟨rfl, -⟩ := pure_ok.mp h
    exact hs

end Nortia.Sunspot
