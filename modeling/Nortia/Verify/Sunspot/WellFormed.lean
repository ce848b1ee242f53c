import Nortia.Verify.Sunspot.Circuits

/-!
# A decoded program is well formed

The decoder has checked what the compilation relies on: every witness has a slot, a bitwise operation
has at most 128 bits, and no memory block is too long for its places to be told apart.
-/

namespace Nortia.Sunspot

/-! ## What a decoder yields -/

section

variable {α β σ τ : Type} {r r' : Reader} {P : α → Prop} {p : Decoder α}

/-- Whatever the decoder returns has the property. -/
def Yields (P : α → Prop) (p : Decoder α) : Prop := ∀ r x r', p r = .ok (x, r') → P x

namespace Yields

theorem pure {x : α} (h : P x) : Yields P (Pure.pure x) := by
  intro r y r' hp
  rw [(pure_ok.mp hp).1]
  exact h

theorem bind {Q : β → Prop} {f : α → Decoder β} (hp : Yields P p)
    (hf : ∀ x, P x → Yields Q (f x)) : Yields Q (p >>= f) := by
  intro r y r' h
  obtain ⟨x, r₁, hfirst, hrest⟩ := bind_ok.mp h
  exact hf x (hp r x r₁ hfirst) r₁ y r' hrest

theorem always (p : Decoder α) : Yields (fun _ => True) p := fun _ _ _ _ => trivial

theorem fail {e : DecodeError} : Yields P (fail e) := fun _ _ _ h => (fail_ok.mp h).elim

theorem wrap {context : DecodeError → DecodeError} (hp : Yields P p) :
    Yields P (wrap context p) := fun r x r' h => hp r x r' (wrap_ok.mp h)

theorem ite {c : Prop} [Decidable c] {q : Decoder α} (hp : c → Yields P p) (hq : ¬ c → Yields P q) :
    Yields P (if c then p else q) := by
  split
  · next h => exact hp h
  · next h => exact hq h

end Yields

variable {name : String}

theorem yields_readEnum {variants : List (Field σ α)} {s : σ}
    (h : ∀ f ∈ variants, Yields P (f.decode s)) : Yields P (readEnum name variants s) := by
  refine (Yields.always _).bind fun n _ => .ite (fun _ => .fail) fun _ => ?_
  intro r x r' hx
  obtain ⟨f, hf, r₁, -, hdecode⟩ := dispatchKeyed_ok hx
  exact h f hf r₁ x r' hdecode

theorem yields_readStruct {fields : List (Field α)} (h : ∀ f ∈ fields, ∀ s, P s → Yields P (f.decode s))
    {s : α} (hs : P s) : Yields P (readStruct name fields s) := fun _ _ _ hread =>
  readStruct_keeps (I := fun s _ => P s) (fun f hf s r s' r' hs hdecode => h f hf s hs r s' r' hdecode)
    hs hread

end

/-! ## Opcodes -/

theorem yields_bitwise (name key : String) :
    Yields (fun a : Bitwise => a.nBits ≤ 128) (readStruct name (Bitwise.fields key) {}) := by
  refine yields_readStruct ?_ (Nat.zero_le _)
  simp only [Bitwise.fields, List.forall_mem_cons, List.not_mem_nil, false_implies, implies_true,
    and_true]
  refine ⟨fun a ha => ?_, fun a ha => ?_, fun a _ => ?_, fun a ha => ?_⟩
  · exact (Yields.always _).bind fun lhs _ => .pure ha
  · exact (Yields.always _).bind fun rhs _ => .pure ha
  · exact (Yields.always _).bind fun n _ => .ite (fun _ => .fail) fun hn => .pure
      (Nat.le_of_not_lt hn)
  · exact (Yields.always _).bind fun output _ => .pure ha

theorem yields_blackBoxFunction (name : String) :
    Yields BlackBoxFunction.Sized (readDispatchedEnum name BlackBoxFunction.variants) := by
  refine yields_readEnum ?_
  have hother (f : Schema) : Yields BlackBoxFunction.Sized (f.variant.decode ()) :=
    (Yields.always _).bind fun values _ => .pure trivial
  simp only [BlackBoxFunction.variants, List.forall_mem_cons, List.not_mem_nil, false_implies,
    implies_true, and_true, hother, true_and]
  refine ⟨?_, ?_, ?_⟩
  · exact (yields_bitwise _ _).bind fun a ha => .pure ha
  · exact (yields_bitwise _ _).bind fun a ha => .pure ha
  · exact (Yields.always _).bind fun a _ => .pure trivial

theorem yields_readUnsigned (n : Nat) : Yields (· < 256 ^ n) (readUnsigned n) := by
  intro r v r' h
  obtain ⟨hle, rfl, -⟩ := readUnsigned_ok.mp h
  have hlt := Lib.ofLeBytes_lt (r.bytes.take n).reverse
  rwa [List.length_reverse, List.length_take, Nat.min_eq_left hle] at hlt

theorem yields_readArrayLen : Yields (· < 2 ^ 32) readArrayLen := by
  refine (Yields.always _).bind fun b _ => .ite (fun _ => .pure ?_) fun _ => .ite (fun _ => ?_)
    fun _ => .ite (fun _ => ?_) fun _ => .fail
  · exact Nat.lt_trans (b &&& markerFixContainerLenMask).toNat_lt (by decide)
  · exact fun r v r' h => Nat.lt_trans (yields_readUnsigned 2 r v r' h) (by decide)
  · exact fun r v r' h => yields_readUnsigned 4 r v r' h

theorem yields_readElements {α : Type} (decode : α → Decoder α) (xs : List α) :
    Yields (·.length = xs.length) (readElements decode xs) := by
  induction xs with
  | nil => exact .pure rfl
  | cons x xs ih =>
    refine (Yields.always _).bind fun y _ => ih.bind fun ys hys => .pure ?_
    rw [List.length_cons, List.length_cons, hys]

theorem yields_memoryInit :
    Yields (fun m : MemoryInit => m.init.length < 2 ^ 32) (MemoryInit.unmarshalReader {}) := by
  refine yields_readStruct ?_ (by decide)
  simp only [MemoryInit.fields, List.forall_mem_cons, List.not_mem_nil, false_implies, implies_true,
    and_true]
  refine ⟨fun m hm => ?_, fun m _ => ?_, fun m hm => ?_⟩
  · exact (Yields.always _).bind fun blockID _ => .pure hm
  · refine Yields.bind (P := fun init => init.length < 2 ^ 32) ?_ fun init hinit => .pure hinit
    refine yields_readArrayLen.bind fun n hn r init r' h => ?_
    rw [yields_readElements _ _ r init r' h, List.length_replicate]
    exact hn
  · exact (Yields.always _).bind fun _ _ => .pure hm

theorem yields_opcode (name : String) :
    Yields Opcode.Sized (readDispatchedEnum name Opcode.variants) := by
  refine yields_readEnum ?_
  simp only [Opcode.variants, List.forall_mem_cons, List.not_mem_nil, false_implies, implies_true,
    and_true]
  refine ⟨?_, ?_, ?_, ?_, ?_, ?_⟩
  · exact (Yields.always _).bind fun e _ => .pure trivial
  · exact (yields_blackBoxFunction _).bind fun f hf => .pure hf
  · exact (Yields.always _).bind fun m _ => .pure trivial
  · exact yields_memoryInit.bind fun m hm => .pure hm
  · exact (Yields.always _).bind fun b _ => .pure trivial
  · exact (Yields.always _).bind fun c _ => .pure trivial

/-! ## Programs -/

theorem yields_readOpcodesFrom (i n : Nat) :
    Yields (fun ops => ∀ op ∈ ops, op.Sized) (readOpcodesFrom i n) := by
  induction n generalizing i with
  | zero => exact .pure fun op hop => absurd hop List.not_mem_nil
  | succ n ih =>
    exact (yields_opcode _).wrap.bind fun op hop => (ih (i + 1)).bind fun ops hops => .pure
      (List.forall_mem_cons.mpr ⟨hop, hops⟩)

theorem yields_circuit : Yields Circuit.Sized Circuit.unmarshalReader := by
  have hstruct : Yields Circuit.Sized (readStruct "Circuit" Circuit.fields {}) := by
    refine yields_readStruct ?_ fun op hop => absurd hop List.not_mem_nil
    simp only [Circuit.fields, List.forall_mem_cons, List.not_mem_nil, false_implies, implies_true,
      and_true]
    refine ⟨fun c hc => ?_, fun c _ => ?_, fun c hc => ?_, fun c hc => ?_, fun c hc => ?_,
      fun c hc => ?_⟩
    · exact (Yields.always _).bind fun s _ => .pure hc
    · exact Yields.bind ((Yields.always _).bind fun n _ => yields_readOpcodesFrom 0 n)
        fun ops hops => .pure hops
    · exact (Yields.always _).bind fun dst _ => .pure hc
    · exact (Yields.always _).bind fun dst _ => .pure hc
    · exact (Yields.always _).bind fun dst _ => .pure hc
    · exact (Yields.always _).bind fun _ _ => .pure hc
  refine (Yields.always _).bind fun _ _ => hstruct.bind fun c hc => (Yields.always _).bind
    fun maxW _ => ?_
  cases maxW with
  | some maxW => exact .pure hc
  | none => exact .pure hc

theorem yields_readFunctions (i n : Nat) :
    Yields (fun cs => ∀ c ∈ cs, c.Sized) (readFunctions i n) := by
  induction n generalizing i with
  | zero => exact .pure fun c hc => absurd hc List.not_mem_nil
  | succ n ih =>
    exact yields_circuit.wrap.bind fun c hc => (ih (i + 1)).bind fun cs hcs => .pure
      (List.forall_mem_cons.mpr ⟨hc, hcs⟩)

/-- **A decoded program is well formed**, whatever bytes it was decoded from. -/
theorem decodeProgram_wellFormed {r r' : Reader} {p : Program}
    (h : decodeProgram r = .ok (p, r')) : p.WellFormed := by
  refine ⟨decodeProgram_closed h, ?_⟩
  have hyields : Yields (fun p : Program => ∀ c ∈ p.functions, c.Sized) decodeProgram := by
    refine (Yields.always _).bind fun _ _ => yields_readStruct ?_
      fun c hc => absurd hc List.not_mem_nil
    simp only [Program.fields, List.forall_mem_cons, List.not_mem_nil, false_implies, implies_true,
      and_true]
    refine ⟨fun p _ => ?_, fun p hp => ?_⟩
    · exact (Yields.always _).bind fun n _ => (yields_readFunctions 0 n).bind fun cs hcs => .pure hcs
    · exact (Yields.always _).bind fun _ _ => .pure hp
  exact hyields r p r' h

/-- A program with positional structs and tagged variants: its circuit asserts `w₀ * w₀ + 2 w₁ = 0`. -/
def taggedBytes : List UInt8 := [3, 0x92,
  0x91, 0x96, 0xa0,
    0x91, 0x81, 0, 0x93, 0x91, 0x93, 0xc4, 1, 1, 0, 0, 0x91, 0x92, 0xc4, 1, 2, 1, 0xc4, 1, 0,
    0x91, 0, 0x90, 0x91, 1, 0x90,
  0x90]

theorem taggedBytes_wellFormed :
    ∃ p r', decodeProgram ⟨taggedBytes, .reset⟩ = .ok (p, r') ∧ p.WellFormed := by
  have hok : (decodeProgram ⟨taggedBytes, .reset⟩).isOk = true := by decide +kernel
  cases hdecode : decodeProgram ⟨taggedBytes, .reset⟩ with
  | error e => rw [hdecode] at hok; cases hok
  | ok x => exact ⟨x.1, x.2, rfl, decodeProgram_wellFormed hdecode⟩

end Nortia.Sunspot
