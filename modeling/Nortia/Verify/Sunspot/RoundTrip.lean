import Nortia.Verify.Sunspot.Encoding

/-!
# Programs and witness stacks are read back

The encodings of each type of a program and of a witness stack, and that the decoders turn all of them
into the value they write.
-/

namespace Nortia.Sunspot

open Lib Lib.MsgPack Nortia.Text

/-! ## Numbers and field elements -/

/-- A `uint32`. -/
def IsU32 (n : Nat) : Encoding := fun bs => n < 2 ^ 32 ∧ IsNumber n bs

/-- A field element, as big-endian bytes of any length. -/
def IsElement (x : BN254Field) : Encoding := fun bs => ∃ s, ofBeBytes s = x ∧ IsBinary s bs

theorem reads_u32 (n : Nat) : Reads readU32 (IsU32 n) id n := by
  rintro bs rest t ⟨hlt, hbs⟩
  refine (reads_number n).bind_pure ?_ bs rest t hbs
  rw [if_pos (Nat.le_sub_one_of_lt hlt)]

theorem reads_truncated (n : Nat) : Reads readTruncated (IsU32 n) id n := by
  rintro bs rest t ⟨hlt, hbs⟩
  refine (reads_number n).bind_pure ?_ bs rest t hbs
  rw [Nat.mod_eq_of_lt hlt]

theorem reads_element (fresh x : BN254Field) :
    Reads (BN254Field.unmarshalReader fresh) (IsElement x) id x := by
  rintro bs rest t ⟨s, rfl, hbs⟩
  exact (reads_binary s).map ofBeBytes bs rest t hbs

theorem reads_witness (fresh w : Witness) :
    Reads (Witness.unmarshalReader fresh) (IsU32 w) (·.observeAll [w]) w := by
  intro bs rest t hbs
  rw [Witness.unmarshalReader, decoder_bind (reads_u32 w bs rest t hbs)]
  rfl

theorem reads_witnesses (ws : List Witness) :
    Reads (readVec 0 Witness.unmarshalReader) (IsVector IsU32 ws) (·.observeAll ws) ws :=
  (reads_list fun w _ => reads_witness 0 w).congr (fun t => by rw [List.flatMap_singleton']) rfl

/-! ## Expressions -/

def MulTerm.Encodes (mt : MulTerm) : Encoding :=
  IsArray [IsElement mt.term, IsU32 mt.witnessLeft, IsU32 mt.witnessRight]

def LinearCombination.Encodes (lc : LinearCombination) : Encoding :=
  IsArray [IsElement lc.term, IsU32 lc.witness]

def Expression.parts (e : Expression) : List (Part Expression) := [
  ⟨"mul_terms", IsVector MulTerm.Encodes e.mulTerms,
    (·.observeAll (e.mulTerms.flatMap MulTerm.witnesses)), fun s => { s with mulTerms := e.mulTerms }⟩,
  ⟨"linear_combinations", IsVector LinearCombination.Encodes e.linearCombinations,
    (·.observeAll (e.linearCombinations.flatMap LinearCombination.witnesses)),
    fun s => { s with linearCombinations := e.linearCombinations }⟩,
  ⟨"q_c", IsElement e.constant, fun t => t, fun s => { s with constant := e.constant }⟩]

abbrev Expression.Encodes (e : Expression) : Encoding := IsWritten e.parts

theorem mulTerm_reads (fresh mt : MulTerm) :
    Reads (MulTerm.unmarshalReader fresh) mt.Encodes (·.observeAll mt.witnesses) mt := by
  rintro bs rest t ⟨head, body, hhead, hbody, rfl⟩
  obtain ⟨term, behind₁, rfl, hterm, hbehind₁⟩ := hbody.cons_inv
  obtain ⟨left, behind₂, rfl, hleft, hbehind₂⟩ := hbehind₁.cons_inv
  obtain ⟨right, nothing, rfl, hright, hnothing⟩ := hbehind₂.cons_inv
  rw [hnothing.nil_inv, List.append_nil]
  simp only [List.append_assoc]
  unfold MulTerm.unmarshalReader
  rw [decoder_bind (readArrayLen_run hhead), if_neg (fun h => h rfl),
    decoder_bind (reads_element _ _ term _ _ hterm), decoder_bind (reads_witness _ _ left _ _ hleft),
    decoder_bind (reads_witness _ _ right _ _ hright)]
  rfl

theorem linearCombination_reads (fresh lc : LinearCombination) :
    Reads (LinearCombination.unmarshalReader fresh) lc.Encodes (·.observeAll lc.witnesses) lc := by
  rintro bs rest t ⟨head, body, hhead, hbody, rfl⟩
  obtain ⟨term, behind, rfl, hterm, hbehind⟩ := hbody.cons_inv
  obtain ⟨witness, nothing, rfl, hwitness, hnothing⟩ := hbehind.cons_inv
  rw [hnothing.nil_inv, List.append_nil]
  simp only [List.append_assoc]
  unfold LinearCombination.unmarshalReader
  rw [decoder_bind (readArrayLen_run hhead), if_neg (fun h => h rfl),
    decoder_bind (reads_element _ _ term _ _ hterm),
    decoder_bind (reads_witness _ _ witness _ _ hwitness)]
  rfl

theorem expression_meets (e : Expression) : List.Forall₂ Field.Meets Expression.fields e.parts := by
  refine .cons ⟨rfl, fun s => ?_⟩ <| .cons ⟨rfl, fun s => ?_⟩ <| .cons ⟨rfl, fun s => ?_⟩ .nil
  · exact (reads_list fun mt _ => mulTerm_reads {} mt).map _
  · exact (reads_list fun lc _ => linearCombination_reads {} lc).map _
  · exact (reads_element _ _).map _

theorem expression_reads (s e : Expression) :
    Reads (Expression.unmarshalReader s) e.Encodes (·.observeAll e.witnesses) e :=
  (reads_struct (by decide) (expression_meets e) s).congr
    (fun t => (observeAll_append t _ _).symm) rfl

/-! ## Memory -/

def MemoryOp.opParts (m : MemoryOp) : List (Part MemoryOp) := [
  ⟨"read", IsBoolean m.isWrite, fun t => t, fun s => { s with isWrite := m.isWrite }⟩,
  ⟨"index", IsU32 m.index, (·.observeAll [m.index]), fun s => { s with index := m.index }⟩,
  ⟨"value", IsU32 m.value, (·.observeAll [m.value]), fun s => { s with value := m.value }⟩]

def MemoryOp.parts (m : MemoryOp) : List (Part MemoryOp) := [
  ⟨"block_id", IsU32 m.blockID, fun t => t, fun s => { s with blockID := m.blockID }⟩,
  ⟨"op", IsWritten m.opParts, (·.observeAll m.witnesses),
    fun s => { s with isWrite := m.isWrite, index := m.index, value := m.value }⟩]

abbrev MemoryOp.Encodes (m : MemoryOp) : Encoding := IsWritten m.parts

theorem memoryOp_meets (m : MemoryOp) : List.Forall₂ Field.Meets MemoryOp.fields m.parts := by
  have hop : List.Forall₂ Field.Meets MemoryOp.opFields m.opParts := by
    refine .cons ⟨rfl, fun s => ?_⟩ <| .cons ⟨rfl, fun s => ?_⟩ <| .cons ⟨rfl, fun s => ?_⟩ .nil
    · exact (reads_boolean _).map _
    · exact (reads_witness _ _).map _
    · exact (reads_witness _ _).map _
  refine .cons ⟨rfl, fun s => ?_⟩ <| .cons ⟨rfl, fun s => ?_⟩ .nil
  · exact (reads_truncated _).map _
  · exact reads_struct (by decide) hop s

theorem memoryOp_reads (m : MemoryOp) :
    Reads (MemoryOp.unmarshalReader {}) m.Encodes (·.observeAll m.witnesses) m :=
  reads_struct (by decide) (memoryOp_meets m) {}

def MemoryInit.parts (m : MemoryInit) : List (Part MemoryInit) := [
  ⟨"block_id", IsU32 m.blockID, fun t => t, fun s => { s with blockID := m.blockID }⟩,
  ⟨"init", IsVector IsU32 m.init, (·.observeAll m.init), fun s => { s with init := m.init }⟩,
  ⟨"block_type", IsPlain, fun t => t, fun s => s⟩]

abbrev MemoryInit.Encodes (m : MemoryInit) : Encoding := IsWritten m.parts

theorem memoryInit_reads (m : MemoryInit) :
    Reads (MemoryInit.unmarshalReader {}) m.Encodes (·.observeAll m.init) m := by
  have hmeets : List.Forall₂ Field.Meets MemoryInit.fields m.parts := by
    refine .cons ⟨rfl, fun s => ?_⟩ <| .cons ⟨rfl, fun s => ?_⟩ <| .cons ⟨rfl, fun s => ?_⟩ .nil
    · exact (reads_u32 _).map _
    · exact (reads_witnesses _).map _
    · exact reads_skipped s
  exact reads_struct (by decide) hmeets {}

/-! ## Calls -/

def Call.parts (c : Call) : List (Part Call) := [
  ⟨"id", IsU32 c.id, fun t => t, fun s => { s with id := c.id }⟩,
  ⟨"inputs", IsVector IsU32 c.inputs, (·.observeAll c.inputs), fun s => { s with inputs := c.inputs }⟩,
  ⟨"outputs", IsVector IsU32 c.outputs, (·.observeAll c.outputs),
    fun s => { s with outputs := c.outputs }⟩,
  ⟨"predicate", c.predicate.Encodes, (·.observeAll c.predicate.witnesses),
    fun s => { s with predicate := c.predicate }⟩]

abbrev Call.Encodes (c : Call) : Encoding := IsWritten c.parts

theorem call_reads (c : Call) :
    Reads (Call.unmarshalReader {}) c.Encodes (·.observeAll c.witnesses) c := by
  have hmeets : List.Forall₂ Field.Meets Call.fields c.parts := by
    refine .cons ⟨rfl, fun s => ?_⟩ <| .cons ⟨rfl, fun s => ?_⟩ <| .cons ⟨rfl, fun s => ?_⟩ <|
      .cons ⟨rfl, fun s => ?_⟩ .nil
    · exact (reads_truncated _).map _
    · exact (reads_witnesses _).map _
    · exact (reads_witnesses _).map _
    · exact (expression_reads _ _).map _
  refine (reads_struct (by decide) hmeets {}).congr (fun t => ?_) rfl
  rw [Call.witnesses, observeAll_append, observeAll_append]
  rfl

/-- The inputs of a Brillig call: an expression, several of them, or a memory block. -/
def BrilligInputs.Encodes (b : BrilligInputs) : Encoding := fun bs =>
  (∃ e : Expression, b = { single := some e } ∧ IsVariant 0 "Single" e.Encodes bs) ∨
  (∃ es, b = { array := some es } ∧ IsVariant 1 "Array" (IsVector Expression.Encodes es) bs) ∨
  ∃ blockID, b = { blockID := some blockID } ∧ IsVariant 2 "MemoryArray" (IsU32 blockID) bs

theorem brilligInputs_reads (b : BrilligInputs) :
    Reads (BrilligInputs.unmarshalReader {}) b.Encodes (·.observeAll b.witnesses) b := by
  have hnames : (wireNames BrilligInputs.variants).Nodup := by decide
  rintro bs rest t (⟨e, rfl, hbs⟩ | ⟨es, rfl, hbs⟩ | ⟨blockID, rfl, hbs⟩)
  · have h : Reads (BrilligInputs.unmarshalReader {}) (IsVariant 0 "Single" e.Encodes)
        (·.observeAll e.witnesses) { single := some e } :=
      reads_variant hnames rfl ((expression_reads _ e).map _)
    rw [h bs rest t hbs]
    simp [BrilligInputs.witnesses]
  · have h : Reads (BrilligInputs.unmarshalReader {})
        (IsVariant 1 "Array" (IsVector Expression.Encodes es))
        (·.observeAll (es.flatMap Expression.witnesses)) { array := some es } :=
      reads_variant hnames rfl ((reads_list fun e _ => expression_reads _ e).map _)
    rw [h bs rest t hbs]
    simp [BrilligInputs.witnesses]
  · have h : Reads (BrilligInputs.unmarshalReader {}) (IsVariant 2 "MemoryArray" (IsU32 blockID))
        (fun t => t) { blockID := some blockID } :=
      reads_variant hnames rfl ((reads_truncated blockID).map _)
    exact h bs rest t hbs

def BrilligOutputs.Encodes (b : BrilligOutputs) : Encoding := fun bs =>
  (∃ w, b = { single := some w } ∧ IsVariant 0 "Simple" (IsU32 w) bs) ∨
  ∃ ws, b = { array := some ws } ∧ IsVariant 1 "Array" (IsVector IsU32 ws) bs

theorem brilligOutputs_reads (b : BrilligOutputs) :
    Reads (BrilligOutputs.unmarshalReader {}) b.Encodes (·.observeAll b.witnesses) b := by
  have hnames : (wireNames BrilligOutputs.variants).Nodup := by decide
  rintro bs rest t (⟨w, rfl, hbs⟩ | ⟨ws, rfl, hbs⟩)
  · have h : Reads (BrilligOutputs.unmarshalReader {}) (IsVariant 0 "Simple" (IsU32 w))
        (·.observeAll [w]) { single := some w } :=
      reads_variant hnames rfl ((reads_witness 0 w).map _)
    exact h bs rest t hbs
  · have h : Reads (BrilligOutputs.unmarshalReader {}) (IsVariant 1 "Array" (IsVector IsU32 ws))
        (·.observeAll ws) { array := some ws } :=
      reads_variant hnames rfl ((reads_witnesses ws).map _)
    rw [h bs rest t hbs]
    simp [BrilligOutputs.witnesses]

def BrilligCall.parts (b : BrilligCall) : List (Part BrilligCall) := [
  ⟨"id", IsU32 b.id, fun t => t, fun s => { s with id := b.id }⟩,
  ⟨"inputs", IsVector BrilligInputs.Encodes b.inputs,
    (·.observeAll (b.inputs.flatMap BrilligInputs.witnesses)), fun s => { s with inputs := b.inputs }⟩,
  ⟨"outputs", IsVector BrilligOutputs.Encodes b.outputs,
    (·.observeAll (b.outputs.flatMap BrilligOutputs.witnesses)),
    fun s => { s with outputs := b.outputs }⟩,
  ⟨"predicate", b.predicate.Encodes, (·.observeAll b.predicate.witnesses),
    fun s => { s with predicate := b.predicate }⟩]

abbrev BrilligCall.Encodes (b : BrilligCall) : Encoding := IsWritten b.parts

theorem brilligCall_reads (b : BrilligCall) :
    Reads (BrilligCall.unmarshalReader {}) b.Encodes (·.observeAll b.witnesses) b := by
  have hmeets : List.Forall₂ Field.Meets BrilligCall.fields b.parts := by
    refine .cons ⟨rfl, fun s => ?_⟩ <| .cons ⟨rfl, fun s => ?_⟩ <| .cons ⟨rfl, fun s => ?_⟩ <|
      .cons ⟨rfl, fun s => ?_⟩ .nil
    · exact (reads_truncated _).map _
    · exact (reads_list fun x _ => brilligInputs_reads x).map _
    · exact (reads_list fun x _ => brilligOutputs_reads x).map _
    · exact (expression_reads _ _).map _
  refine (reads_struct (by decide) hmeets {}).congr (fun t => ?_) rfl
  rw [BrilligCall.witnesses, observeAll_append, observeAll_append]
  rfl

/-! ## Black box functions -/

/-- A constant or a witness. -/
def FunctionInput.Encodes (x : FunctionInput) : Encoding := fun bs =>
  (∃ c, x = { constantInput := some c } ∧ IsVariant 0 "Constant" (IsElement c) bs) ∨
  ∃ w, x = { witness := some w } ∧ IsVariant 1 "Witness" (IsU32 w) bs

theorem functionInput_reads (s x : FunctionInput) :
    Reads (FunctionInput.unmarshalReader s) x.Encodes (·.observeAll x.witnesses) x := by
  have hnames : (wireNames FunctionInput.variants).Nodup := by decide
  rintro bs rest t (⟨c, rfl, hbs⟩ | ⟨w, rfl, hbs⟩)
  · have h : Reads (FunctionInput.unmarshalReader s) (IsVariant 0 "Constant" (IsElement c))
        (fun t => t) { constantInput := some c } :=
      reads_variant hnames rfl ((reads_element 0 c).map _)
    exact h bs rest t hbs
  · have h : Reads (FunctionInput.unmarshalReader s) (IsVariant 1 "Witness" (IsU32 w))
        (·.observeAll [w]) { witness := some w } :=
      reads_variant hnames rfl ((reads_witness 0 w).map _)
    exact h bs rest t hbs

def Range.parts (a : Range) : List (Part Range) := [
  ⟨"input", a.input.Encodes, (·.observeAll a.input.witnesses), fun s => { s with input := a.input }⟩,
  ⟨"num_bits", IsU32 a.nBits, fun t => t, fun s => { s with nBits := a.nBits }⟩]

theorem range_reads (a : Range) :
    Reads (readStruct "Range" Range.fields {}) (IsWritten a.parts) (·.observeAll a.witnesses) a := by
  have hmeets : List.Forall₂ Field.Meets Range.fields a.parts := by
    refine .cons ⟨rfl, fun s => ?_⟩ <| .cons ⟨rfl, fun s => ?_⟩ .nil
    · exact (functionInput_reads _ _).map _
    · exact (reads_u32 _).map _
  exact reads_struct (by decide) hmeets {}

/-- The operands of an `AND` or a `XOR` of at most 128 bits. -/
def Bitwise.parts (a : Bitwise) : List (Part Bitwise) := [
  ⟨"lhs", a.lhs.Encodes, (·.observeAll a.lhs.witnesses), fun s => { s with lhs := a.lhs }⟩,
  ⟨"rhs", a.rhs.Encodes, (·.observeAll a.rhs.witnesses), fun s => { s with rhs := a.rhs }⟩,
  ⟨"num_bits", fun bs => a.nBits ≤ 128 ∧ IsU32 a.nBits bs, fun t => t,
    fun s => { s with nBits := a.nBits }⟩,
  ⟨"output", IsU32 a.output, (·.observeAll [a.output]), fun s => { s with output := a.output }⟩]

theorem bitwise_reads (name key : String) (a : Bitwise) :
    Reads (readStruct name (Bitwise.fields key) {}) (IsWritten a.parts) (·.observeAll a.witnesses)
      a := by
  have hmeets : List.Forall₂ Field.Meets (Bitwise.fields key) a.parts := by
    refine .cons ⟨rfl, fun s => ?_⟩ <| .cons ⟨rfl, fun s => ?_⟩ <| .cons ⟨rfl, fun s => ?_⟩ <|
      .cons ⟨rfl, fun s => ?_⟩ .nil
    · exact (functionInput_reads _ _).map _
    · exact (functionInput_reads _ _).map _
    · rintro bs rest t ⟨hbits, hbs⟩
      refine (reads_u32 a.nBits).bind_pure ?_ bs rest t hbs
      rw [if_neg (Nat.not_lt.mpr hbits)]
    · exact (reads_witness _ _).map _
  have hnames : (wireNames (Bitwise.fields key)).Nodup := by
    show (wireNames (Bitwise.fields "")).Nodup
    decide
  refine (reads_struct hnames hmeets {}).congr (fun t => ?_) rfl
  rw [Bitwise.witnesses, observeAll_append, observeAll_append]
  rfl

/-- The payload of a field, by its type. -/
def Kind.Encodes : Kind → Payload → Encoding
  | .input, .input x => x.Encodes
  | .inputs, .inputs xs => IsVector FunctionInput.Encodes xs
  | .inputArray n, .inputs xs => fun bs => xs.length = n ∧ IsVector FunctionInput.Encodes xs bs
  | .witness, .witness w => IsU32 w
  | .witnesses, .witnesses ws => IsVector IsU32 ws
  | .witnessArray n, .witnesses ws => fun bs => ws.length = n ∧ IsVector IsU32 ws bs
  | .number, .number n => IsU32 n
  | _, _ => fun _ => False

theorem kind_reads (kind : Kind) (value : Payload) :
    Reads kind.unmarshalReader (kind.Encodes value) (·.observeAll value.allWitnesses) value := by
  intro bs rest t hbs
  cases kind with
  | input =>
    cases value with
    | input x => exact (functionInput_reads {} x).map Payload.input bs rest t hbs
    | _ => exact hbs.elim
  | inputs =>
    cases value with
    | inputs xs =>
      exact (reads_list fun x (_ : x ∈ xs) => functionInput_reads {} x).map Payload.inputs bs rest t hbs
    | _ => exact hbs.elim
  | inputArray n =>
    cases value with
    | inputs xs =>
      exact (reads_array hbs.1 fun x _ => functionInput_reads {} x).map Payload.inputs bs rest t hbs.2
    | _ => exact hbs.elim
  | witness =>
    cases value with
    | witness w => exact (reads_witness 0 w).map Payload.witness bs rest t hbs
    | _ => exact hbs.elim
  | witnesses =>
    cases value with
    | witnesses ws => exact (reads_witnesses ws).map Payload.witnesses bs rest t hbs
    | _ => exact hbs.elim
  | witnessArray n =>
    cases value with
    | witnesses ws =>
      have h := (reads_array hbs.1 fun w (_ : w ∈ ws) => reads_witness 0 w).map Payload.witnesses
      rw [List.flatMap_singleton'] at h
      exact h bs rest t hbs.2
    | _ => exact hbs.elim
  | number =>
    cases value with
    | number n => exact (reads_u32 n).map Payload.number bs rest t hbs
    | _ => exact hbs.elim

/-- The parts of a payload, from the `i`-th field on. -/
def schemaParts (i : Nat) : List (String × Kind) → List Payload → List (Part (List Payload))
  | field :: fields, value :: values =>
    ⟨field.1, field.2.Encodes value, (·.observeAll value.allWitnesses), (·.set i value)⟩ ::
      schemaParts (i + 1) fields values
  | _, _ => []

def Schema.Encodes (f : Schema) (values : List Payload) : Encoding := fun bs =>
  f.fields.length = values.length ∧ IsWritten (schemaParts 0 f.fields values) bs

theorem schemaParts_meets {fields : List (String × Kind)} {values : List Payload}
    (h : fields.length = values.length) (i : Nat) :
    List.Forall₂ Field.Meets (fields.mapIdx fun j => Schema.field (i + j))
      (schemaParts i fields values) := by
  induction fields generalizing values i with
  | nil => exact .nil
  | cons field fields ih =>
    cases values with
    | nil => cases h
    | cons value values =>
      rw [List.mapIdx_cons, schemaParts]
      refine .cons ⟨rfl, fun s => (kind_reads field.2 value).map _⟩ ?_
      have hnext := ih (Nat.succ.inj h) (i + 1)
      simp only [Nat.add_assoc, Nat.add_comm 1] at hnext
      exact hnext

theorem schemaParts_mark {fields : List (String × Kind)} {values : List Payload}
    (h : fields.length = values.length) (i : Nat) (t : WitnessTracker) :
    (schemaParts i fields values).foldl (fun t part => part.mark t) t =
      t.observeAll (values.flatMap Payload.allWitnesses) := by
  induction fields generalizing values i t with
  | nil =>
    cases values with
    | nil => rfl
    | cons value values => cases h
  | cons field fields ih =>
    cases values with
    | nil => cases h
    | cons value values =>
      rw [schemaParts, List.foldl_cons, ih (Nat.succ.inj h), List.flatMap_cons, observeAll_append]

theorem schemaParts_update {fields : List (String × Kind)} {values front back : List Payload}
    (h : fields.length = values.length) (hback : back.length = values.length) :
    (schemaParts front.length fields values).foldl (fun s part => part.update s) (front ++ back) =
      front ++ values := by
  induction fields generalizing values front back with
  | nil =>
    cases values with
    | nil =>
      rw [List.eq_nil_of_length_eq_zero hback]
      rfl
    | cons value values => cases h
  | cons field fields ih =>
    cases values with
    | nil => cases h
    | cons value values =>
      cases back with
      | nil => cases hback
      | cons old back =>
        have hset : (front ++ old :: back).set front.length value = front ++ [value] ++ back := by
          rw [List.set_append_right _ _ (Nat.le_refl _), Nat.sub_self, List.append_assoc]
          rfl
        have hnext := @ih values (front ++ [value]) back (Nat.succ.inj h) (Nat.succ.inj hback)
        rw [schemaParts, List.foldl_cons]
        show List.foldl _ ((front ++ old :: back).set front.length value) _ = _
        rw [List.length_append, List.length_singleton] at hnext
        rw [hset, hnext, List.append_assoc]
        rfl

/-- The names of the fields differ. -/
abbrev Schema.Named (f : Schema) : Prop := (f.fields.map fun field => asBytes field.1.toList).Nodup

theorem wireNames_mapIdx (fields : List (String × Kind)) (i : Nat) :
    wireNames (fields.mapIdx fun j => Schema.field (i + j)) =
      fields.map fun field => asBytes field.1.toList := by
  induction fields generalizing i with
  | nil => rfl
  | cons field fields ih =>
    have hnext := ih (i + 1)
    simp only [Nat.add_assoc, Nat.add_comm 1] at hnext
    rw [List.mapIdx_cons, List.map_cons, ← hnext]
    rfl

theorem schema_reads {f : Schema} (hnames : f.Named) (values : List Payload) :
    Reads f.unmarshalReader (f.Encodes values)
      (·.observeAll (values.flatMap Payload.allWitnesses)) values := by
  rintro bs rest t ⟨hlength, hbs⟩
  have hmeets := schemaParts_meets hlength 0
  have hwire := wireNames_mapIdx f.fields 0
  simp only [Nat.zero_add] at hmeets hwire
  have hzero : f.zero.length = values.length := by
    rw [Schema.zero, List.length_map, hlength]
  have hupdate := @schemaParts_update _ _ [] _ hlength hzero
  rw [List.nil_append, List.nil_append] at hupdate
  have h : Reads f.unmarshalReader (IsWritten (schemaParts 0 f.fields values))
      (·.observeAll (values.flatMap Payload.allWitnesses)) values :=
    (reads_struct (by rw [hwire]; exact hnames) hmeets f.zero).congr (schemaParts_mark hlength 0)
      hupdate
  exact h bs rest t hbs

/-- The other functions, by their place among the variants. -/
def schemas : List (Option Schema) := [
  some aes128Encrypt, none, none, none, some blake2s, some blake3, some ecdsaSecp256k1,
  some ecdsaSecp256r1, some multiScalarMul, some embeddedCurveAdd, some keccakf1600,
  some recursiveAggregation, some poseidon2Permutation, some sha256Compression]

def BlackBoxFunction.Encodes : BlackBoxFunction → Encoding
  | .and a => IsVariant 1 "AND" (IsWritten a.parts)
  | .xor a => IsVariant 2 "XOR" (IsWritten a.parts)
  | .range a => IsVariant 3 "RANGE" (IsWritten a.parts)
  | .other f values => fun bs =>
    ∃ i, schemas[i]? = some (some f) ∧ IsVariant i f.name (f.Encodes values) bs

theorem schemas_variants : List.Forall₂
    (fun (schema : Option Schema) variant => ∀ f, schema = some f → variant = f.variant ∧ f.Named)
    schemas BlackBoxFunction.variants := by
  have hnone {v : Field Unit BlackBoxFunction} (f : Schema) (h : none = some f) :
      v = f.variant ∧ f.Named := by cases h
  have hsome {g : Schema} (hg : g.Named) (f : Schema) (h : some g = some f) :
      g.variant = f.variant ∧ f.Named := by
    cases h
    exact ⟨rfl, hg⟩
  refine .cons (hsome (by decide)) <| .cons hnone <| .cons hnone <| .cons hnone <|
    .cons (hsome (by decide)) <| .cons (hsome (by decide)) <| .cons (hsome (by decide)) <|
    .cons (hsome (by decide)) <| .cons (hsome (by decide)) <| .cons (hsome (by decide)) <|
    .cons (hsome (by decide)) <| .cons (hsome (by decide)) <| .cons (hsome (by decide)) <|
    .cons (hsome (by decide)) .nil

theorem forall₂_getElem? {α β : Type} {R : α → β → Prop} {xs : List α} {ys : List β} {i : Nat} {x : α}
    (h : List.Forall₂ R xs ys) (hx : xs[i]? = some x) : ∃ y, ys[i]? = some y ∧ R x y := by
  induction h generalizing i with
  | nil => cases hx
  | @cons a b xs ys hab _ ih =>
    cases i with
    | zero =>
      cases hx
      exact ⟨b, rfl, hab⟩
    | succ i => exact ih hx

theorem blackBoxFunction_reads (function : BlackBoxFunction) :
    Reads (readDispatchedEnum "BlackBoxFuncCall" BlackBoxFunction.variants) function.Encodes
      (·.observeAll function.witnesses) function := by
  have hnames : (wireNames BlackBoxFunction.variants).Nodup := by decide
  cases function with
  | and a => exact reads_variant hnames rfl ((bitwise_reads _ _ a).map _)
  | xor a => exact reads_variant hnames rfl ((bitwise_reads _ _ a).map _)
  | range a => exact reads_variant hnames rfl ((range_reads a).map _)
  | other f values =>
    rintro bs rest t ⟨i, hi, hbs⟩
    obtain ⟨variant, hvariant, hschema⟩ := forall₂_getElem? schemas_variants hi
    obtain ⟨rfl, hnamed⟩ := hschema f rfl
    exact reads_variant hnames hvariant ((schema_reads hnamed values).map _) bs rest t hbs

/-! ## Opcodes -/

def Opcode.Encodes : Opcode → Encoding
  | .assertZero e => IsVariant 0 "AssertZero" e.Encodes
  | .blackBoxFuncCall function => IsVariant 1 "BlackBoxFuncCall" function.Encodes
  | .memoryOp m => IsVariant 2 "MemoryOp" m.Encodes
  | .memoryInit m => IsVariant 3 "MemoryInit" m.Encodes
  | .brilligCall b => IsVariant 4 "BrilligCall" b.Encodes
  | .call c => IsVariant 5 "Call" c.Encodes

theorem opcode_reads (op : Opcode) :
    Reads (readDispatchedEnum "Opcode" Opcode.variants) op.Encodes (·.observeAll op.witnesses) op := by
  have hnames : (wireNames Opcode.variants).Nodup := by decide
  cases op with
  | assertZero e => exact reads_variant hnames rfl ((expression_reads _ e).map _)
  | blackBoxFuncCall function =>
    exact reads_variant hnames rfl ((blackBoxFunction_reads function).map _)
  | memoryOp m => exact reads_variant hnames rfl ((memoryOp_reads m).map _)
  | memoryInit m => exact reads_variant hnames rfl ((memoryInit_reads m).map _)
  | brilligCall b => exact reads_variant hnames rfl ((brilligCall_reads b).map _)
  | call c => exact reads_variant hnames rfl ((call_reads c).map _)

theorem readOpcodesFrom_reads (ops : List Opcode) (i : Nat) :
    Reads (readOpcodesFrom i ops.length) (Each (ops.map Opcode.Encodes))
      (·.observeAll (ops.flatMap Opcode.witnesses)) ops := by
  induction ops generalizing i with
  | nil =>
    intro bs rest t hbs
    rw [hbs.nil_inv]
    rfl
  | cons op ops ih =>
    intro bs rest t hbs
    obtain ⟨first, behind, rfl, hfirst, hbehind⟩ := hbs.cons_inv
    rw [List.length_cons, readOpcodesFrom, List.append_assoc,
      decoder_bind ((opcode_reads op).wrap first _ t hfirst),
      decoder_bind (ih (i + 1) behind rest _ hbehind)]
    simp only [List.flatMap_cons, observeAll_append]
    rfl

theorem opcodes_reads (ops : List Opcode) :
    Reads readOpcodes (IsVector Opcode.Encodes ops) (·.observeAll (ops.flatMap Opcode.witnesses))
      ops := by
  rintro bs rest t ⟨head, body, hhead, hbody, rfl⟩
  rw [List.length_map] at hhead
  rw [readOpcodes, List.append_assoc, decoder_bind (readArrayLen_run hhead)]
  exact readOpcodesFrom_reads ops 0 body rest t hbody

/-! ## Circuits -/

section

variable {t t' : WitnessTracker} {ws ws' : List Witness}

theorem observe_maxWitness (t : WitnessTracker) (w : Witness) :
    (t.observe w).maxWitness = max t.maxWitness w ∧ (t.observe w).witnessSeen = true := by
  unfold WitnessTracker.observe
  cases hseen : t.witnessSeen with
  | false => simp [t.unseen hseen]
  | true =>
    by_cases hlt : t.maxWitness < w
    · simp [hlt, Nat.max_eq_right (Nat.le_of_lt hlt)]
    · simp [hlt, hseen, Nat.max_eq_left (Nat.le_of_not_lt hlt)]

theorem observeAll_maxWitness (t : WitnessTracker) (ws : List Witness) :
    (t.observeAll ws).maxWitness = ws.foldl max t.maxWitness ∧
      (t.observeAll ws).witnessSeen = (t.witnessSeen || !ws.isEmpty) := by
  induction ws generalizing t with
  | nil => simp [WitnessTracker.observeAll]
  | cons w ws ih =>
    obtain ⟨hmax, hseen⟩ := ih (t.observe w)
    obtain ⟨hmax', hseen'⟩ := observe_maxWitness t w
    rw [hmax'] at hmax
    rw [hseen'] at hseen
    exact ⟨hmax, hseen.trans (by simp)⟩

theorem foldl_max_le {n m : Nat} : ws.foldl max n ≤ m ↔ n ≤ m ∧ ∀ w ∈ ws, w ≤ m := by
  induction ws generalizing n with
  | nil => simp
  | cons w ws ih =>
    rw [List.foldl_cons, ih, Nat.max_le, List.forall_mem_cons, and_assoc]

theorem tracker_ext (hmax : t.maxWitness = t'.maxWitness) (hseen : t.witnessSeen = t'.witnessSeen) :
    t = t' := by
  cases t
  cases t'
  cases hmax
  cases hseen
  rfl

/-- The mark does not depend on the order of the witnesses, or how often they occur. -/
theorem observeAll_congr (h : ∀ w, w ∈ ws ↔ w ∈ ws') (t : WitnessTracker) :
    t.observeAll ws = t.observeAll ws' := by
  obtain ⟨hmax, hseen⟩ := observeAll_maxWitness t ws
  obtain ⟨hmax', hseen'⟩ := observeAll_maxWitness t ws'
  apply tracker_ext
  · rw [hmax, hmax']
    apply Nat.le_antisymm
    · rw [foldl_max_le]
      obtain ⟨hn, hws⟩ := foldl_max_le.mp (Nat.le_refl (ws'.foldl max t.maxWitness))
      exact ⟨hn, fun w hw => hws w ((h w).mp hw)⟩
    · rw [foldl_max_le]
      obtain ⟨hn, hws⟩ := foldl_max_le.mp (Nat.le_refl (ws.foldl max t.maxWitness))
      exact ⟨hn, fun w hw => hws w ((h w).mpr hw)⟩
  · have hempty : ws.isEmpty = ws'.isEmpty := by
      rw [Bool.eq_iff_iff, List.isEmpty_iff, List.isEmpty_iff, List.eq_nil_iff_forall_not_mem,
        List.eq_nil_iff_forall_not_mem]
      exact forall_congr' fun w => not_congr (h w)
    rw [hseen, hseen', hempty]

end

/-- A set is known by its members. -/
theorem witnessSet_ext {a b : WitnessSet} (h : ∀ w, w ∈ a.1 ↔ w ∈ b.1) : a = b := by
  have hnodup (set : WitnessSet) : set.1.Nodup := set.2.imp fun hlt => Nat.ne_of_lt hlt
  have hperm := (List.perm_ext_iff_of_nodup (hnodup a) (hnodup b)).mpr h
  refine Subtype.ext (List.Perm.eq_of_pairwise (fun x y _ _ hxy hyx => ?_) a.2 b.2 hperm)
  exact absurd hxy (Nat.lt_asymm hyx)

/-- The witnesses of a set, in any order. -/
def WitnessSet.Encodes (set : WitnessSet) : Encoding := fun bs =>
  ∃ js, (∀ w, w ∈ js ↔ w ∈ set.1) ∧ IsVector IsU32 js bs

/-- The set with the witnesses of another. -/
def WitnessSet.with (dst set : WitnessSet) : WitnessSet := set.1.foldl WitnessSet.insert dst

theorem readWitnesses_reads (js : List Witness) (dst : WitnessSet) :
    Reads (readWitnesses js.length dst) (Each (js.map IsU32)) (·.observeAll js)
      (js.foldl WitnessSet.insert dst) := by
  induction js generalizing dst with
  | nil =>
    intro bs rest t hbs
    rw [hbs.nil_inv]
    rfl
  | cons j js ih =>
    intro bs rest t hbs
    obtain ⟨first, behind, rfl, hfirst, hbehind⟩ := hbs.cons_inv
    rw [List.length_cons, readWitnesses, List.append_assoc,
      decoder_bind (reads_witness 0 j first _ t hfirst)]
    exact ih (dst.insert j) behind rest _ hbehind

theorem witnessSet_reads (dst set : WitnessSet) :
    Reads (readWitnessSet dst) set.Encodes (·.observeAll set.1) (dst.with set) := by
  rintro bs rest t ⟨js, hjs, head, body, hhead, hbody, rfl⟩
  rw [List.length_map] at hhead
  have hset : js.foldl WitnessSet.insert dst = dst.with set := by
    apply witnessSet_ext
    intro w
    rw [WitnessSet.with, mem_foldl_insert, mem_foldl_insert, hjs]
  rw [readWitnessSet, List.append_assoc, decoder_bind (readArrayLen_run hhead)]
  exact (readWitnesses_reads js dst).congr (observeAll_congr hjs) hset body rest t hbody

theorem empty_with (set : WitnessSet) : WitnessSet.empty.with set = set := by
  apply witnessSet_ext
  intro w
  rw [WitnessSet.with, mem_foldl_insert]
  exact or_iff_right List.not_mem_nil

def Circuit.parts (c : Circuit) : List (Part Circuit) := [
  ⟨"function_name", IsText c.circuitName, fun t => t, fun s => { s with circuitName := c.circuitName }⟩,
  ⟨"opcodes", IsVector Opcode.Encodes c.opcodes,
    (·.observeAll (c.opcodes.flatMap Opcode.witnesses)), fun s => { s with opcodes := c.opcodes }⟩,
  ⟨"private_parameters", c.privateParameters.Encodes, (·.observeAll c.privateParameters.1),
    fun s => { s with privateParameters := s.privateParameters.with c.privateParameters }⟩,
  ⟨"public_parameters", c.publicParameters.Encodes, (·.observeAll c.publicParameters.1),
    fun s => { s with publicParameters := s.publicParameters.with c.publicParameters }⟩,
  ⟨"return_values", c.returnValues.Encodes, (·.observeAll c.returnValues.1),
    fun s => { s with returnValues := s.returnValues.with c.returnValues }⟩,
  ⟨"assert_messages", IsPlain, fun t => t, fun s => s⟩]

/-- A circuit is written without its last slot, which is that of its highest witness. -/
def Circuit.Encodes (c : Circuit) : Encoding := fun bs =>
  c.currentWitnessIndex = c.witnesses.foldl max 0 ∧ IsWritten c.parts bs

theorem circuit_reads (c : Circuit) :
    Reads Circuit.unmarshalReader c.Encodes (fun _ => WitnessTracker.reset.observeAll c.witnesses)
      c := by
  rintro bs rest t ⟨hindex, hbs⟩
  have hmeets : List.Forall₂ Field.Meets Circuit.fields c.parts := by
    refine .cons ⟨rfl, fun s => ?_⟩ <| .cons ⟨rfl, fun s => ?_⟩ <| .cons ⟨rfl, fun s => ?_⟩ <|
      .cons ⟨rfl, fun s => ?_⟩ <| .cons ⟨rfl, fun s => ?_⟩ <| .cons ⟨rfl, fun s => ?_⟩ .nil
    · exact (reads_text _).map _
    · exact (opcodes_reads _).map _
    · exact (witnessSet_reads _ _).map _
    · exact (witnessSet_reads _ _).map _
    · exact (witnessSet_reads _ _).map _
    · exact reads_skipped s
  have hstruct : Reads (readStruct "Circuit" Circuit.fields {}) (IsWritten c.parts)
      (·.observeAll c.witnesses) { c with currentWitnessIndex := 0 } := by
    refine (reads_struct (by decide) hmeets {}).congr (fun t => ?_) ?_
    · rw [Circuit.witnesses, observeAll_append, observeAll_append, observeAll_append]
      rfl
    · have hfold : c.parts.foldl (fun s part => part.update s) ({} : Circuit) =
          { c with
            currentWitnessIndex := 0
            privateParameters := WitnessSet.empty.with c.privateParameters
            publicParameters := WitnessSet.empty.with c.publicParameters
            returnValues := WitnessSet.empty.with c.returnValues } := rfl
      rw [hfold, empty_with, empty_with, empty_with]
  let tracker := WitnessTracker.reset.observeAll c.witnesses
  obtain ⟨hmax, hseen⟩ := observeAll_maxWitness .reset c.witnesses
  have hreset : resetWitnessTracker ⟨bs ++ rest, t⟩ = .ok ((), ⟨bs ++ rest, .reset⟩) := rfl
  have hmaxW : maxWitness ⟨rest, tracker⟩ =
      .ok (if tracker.witnessSeen then some tracker.maxWitness else none, ⟨rest, tracker⟩) := rfl
  rw [Circuit.unmarshalReader, decoder_bind hreset, decoder_bind (hstruct bs rest .reset hbs),
    decoder_bind hmaxW, hseen, hmax]
  have hmark : WitnessTracker.reset.witnessSeen = false ∧ WitnessTracker.reset.maxWitness = 0 :=
    ⟨rfl, rfl⟩
  rw [hmark.1, hmark.2, ← hindex, Bool.false_or]
  cases hempty : c.witnesses.isEmpty with
  | true =>
    rw [List.isEmpty_iff.mp hempty] at hindex
    have hzero : c.currentWitnessIndex = 0 := hindex
    rw [← hzero]
    rfl
  | false => rfl

/-! ## Programs -/

theorem readFunctions_reads (cs : List Circuit) (i : Nat) :
    Reads (readFunctions i cs.length) (Each (cs.map Circuit.Encodes))
      (fun t => cs.foldl (fun _ c => WitnessTracker.reset.observeAll c.witnesses) t) cs := by
  induction cs generalizing i with
  | nil =>
    intro bs rest t hbs
    rw [hbs.nil_inv]
    rfl
  | cons c cs ih =>
    intro bs rest t hbs
    obtain ⟨first, behind, rfl, hfirst, hbehind⟩ := hbs.cons_inv
    rw [List.length_cons, readFunctions, List.append_assoc,
      decoder_bind ((circuit_reads c).wrap first _ t hfirst),
      decoder_bind (ih (i + 1) behind rest _ hbehind)]
    rfl

def Program.parts (p : Program) : List (Part Program) := [
  ⟨"functions", IsVector Circuit.Encodes p.functions,
    fun t => p.functions.foldl (fun _ c => WitnessTracker.reset.observeAll c.witnesses) t,
    fun s => { s with functions := p.functions }⟩,
  ⟨"unconstrained_functions", IsPlain, fun t => t, fun s => s⟩]

abbrev Program.Encodes (p : Program) : Encoding := IsWritten p.parts

theorem program_meets (p : Program) : List.Forall₂ Field.Meets Program.fields p.parts := by
  refine .cons ⟨rfl, fun s => ?_⟩ <| .cons ⟨rfl, fun s => ?_⟩ .nil
  · rintro bs rest t ⟨head, body, hhead, hbody, rfl⟩
    rw [List.length_map] at hhead
    have hfunctions := readFunctions_reads p.functions 0 body rest t hbody
    rw [List.append_assoc]
    simp only
    rw [decoder_bind (readArrayLen_run hhead), decoder_bind hfunctions]
    rfl
  · exact reads_skipped s

/-- The byte of one of the three formats. -/
abbrev IsFormat (b : UInt8) : Prop := b = 2 ∨ b = 3 ∨ b = 4

theorem consumeFormatByte_run {b : UInt8} (hb : IsFormat b) (rest : List UInt8) (t : WitnessTracker) :
    consumeFormatByte ⟨b :: rest, t⟩ = .ok ((), ⟨rest, t⟩) := by
  have hbyte : wrap (.within "read format byte") readByte ⟨b :: rest, t⟩ = .ok (b, ⟨rest, t⟩) := rfl
  unfold consumeFormatByte
  rw [decoder_bind hbyte, if_pos hb]
  rfl

/-- **Every encoding of a program is decoded to it**, in each of the three formats, with headers and
numbers of any width. -/
theorem decodeProgram_encodes {p : Program} {format : UInt8} (hformat : IsFormat format)
    {bs : List UInt8} (h : p.Encodes bs) (rest : List UInt8) (t : WitnessTracker) :
    ∃ t', decodeProgram ⟨format :: (bs ++ rest), t⟩ = .ok (p, ⟨rest, t'⟩) := by
  refine ⟨p.parts.foldl (fun t part => part.mark t) t, ?_⟩
  unfold decodeProgram
  rw [decoder_bind (consumeFormatByte_run hformat _ t)]
  exact reads_struct (by decide) (program_meets p) {} bs rest t h

/-- A program with the one constraint `w₀ + 2 w₁ = 0`. -/
def lineProgram : Program where
  functions := [
    { currentWitnessIndex := 1
      opcodes := [.assertZero { linearCombinations := [⟨1, 0⟩, ⟨2, 1⟩] }]
      privateParameters := WitnessSet.empty.insert 0
      publicParameters := WitnessSet.empty.insert 1 }]

/-- An encoding of it, with structs as arrays and variants by their tags. -/
def lineBytes : List UInt8 := [0x92,
  0x91, 0x96, 0xa0,
    0x91, 0x81, 0, 0x93, 0x90, 0x92, 0x92, 0xc4, 1, 1, 0, 0x92, 0xc4, 1, 2, 1, 0xc4, 1, 0,
    0x91, 0, 0x91, 1, 0x90, 0xc0,
  0xc0]

section

variable {b : UInt8} {items : List Encoding} {body : List UInt8}

theorem isArray_fixed (h : marker b = some (.fixed (.values items.length))) (ha : isArrayMarker b)
    (hbody : Each items body) : IsArray items (b :: body) :=
  ⟨[b], body, .fixed h ha, hbody, rfl⟩

theorem isU32_fixed (h : b ≤ markerPosFixintMax) : IsU32 b.toNat [b] :=
  ⟨Nat.lt_trans b.toNat_lt (by decide), .fixed h⟩

theorem isElement_byte (b : UInt8) : IsElement (ofBeBytes [b]) [markerBin8, 1, b] :=
  have hhead : Header isBinMarker [markerBin8, 1] (.bytes 1) := .counted rfl (.inl rfl) rfl
  ⟨[b], rfl, [markerBin8, 1], hhead, rfl⟩

end

theorem lineProgram_encodes : lineProgram.Encodes lineBytes := by
  have hzero : IsU32 0 [0] := isU32_fixed (b := 0) (by decide)
  have hone : IsU32 1 [1] := isU32_fixed (b := 1) (by decide)
  have hleft : LinearCombination.Encodes ⟨1, 0⟩ [0x92, 0xc4, 1, 1, 0] :=
    isArray_fixed rfl (by decide) (.cons (isElement_byte 1) (.cons hzero .nil))
  have hright : LinearCombination.Encodes ⟨2, 1⟩ [0x92, 0xc4, 1, 2, 1] :=
    isArray_fixed rfl (by decide) (.cons (isElement_byte 2) (.cons hone .nil))
  have hnone : IsArray [] [0x90] := isArray_fixed rfl (by decide) .nil
  have hnone' : Header (fun b => ¬ IsExtension b) [0xc0] (.bytes 0) := .fixed rfl (by decide)
  have hnil : IsPlain ([0xc0] ++ []) := .bytes hnone'
  have hexpression : Expression.Encodes { linearCombinations := [⟨1, 0⟩, ⟨2, 1⟩] }
      [0x93, 0x90, 0x92, 0x92, 0xc4, 1, 1, 0, 0x92, 0xc4, 1, 2, 1, 0xc4, 1, 0] :=
    .inl <| isArray_fixed rfl (by decide) <| .cons hnone <|
      .cons (isArray_fixed rfl (by decide) (.cons hleft (.cons hright .nil))) <|
      .cons (isElement_byte 0) .nil
  have hopcode : Opcode.Encodes (.assertZero { linearCombinations := [⟨1, 0⟩, ⟨2, 1⟩] }) _ :=
    ⟨[0x81], _, .fixed rfl (by decide), .cons (.inr hzero.2) (.cons hexpression .nil), rfl⟩
  have hprivate : (WitnessSet.empty.insert 0).Encodes [0x91, 0] :=
    ⟨[0], fun w => Iff.rfl, isArray_fixed rfl (by decide) (.cons hzero .nil)⟩
  have hpublic : (WitnessSet.empty.insert 1).Encodes [0x91, 1] :=
    ⟨[1], fun w => Iff.rfl, isArray_fixed rfl (by decide) (.cons hone .nil)⟩
  have hreturn : WitnessSet.empty.Encodes [0x90] := ⟨[], fun w => Iff.rfl, hnone⟩
  have hopcodes : IsVector Opcode.Encodes
      [.assertZero { linearCombinations := [⟨1, 0⟩, ⟨2, 1⟩] }] (0x91 :: _) :=
    isArray_fixed rfl (by decide) (.cons hopcode .nil)
  have hname : IsText [] [0xa0] := ⟨[0xa0], .fixed rfl (by decide), rfl⟩
  have hfields := Each.cons hname <| .cons hopcodes <| .cons hprivate <| .cons hpublic <|
    .cons hreturn <| .cons hnil .nil
  have hcircuits : Each (lineProgram.functions.map Circuit.Encodes) (0x96 :: _ ++ []) :=
    .cons ⟨rfl, .inl <| isArray_fixed rfl (by decide) hfields⟩ .nil
  have hfunctions : IsVector Circuit.Encodes lineProgram.functions (0x91 :: _) :=
    isArray_fixed rfl (by decide) hcircuits
  exact .inl <| isArray_fixed rfl (by decide) <| .cons hfunctions <| .cons hnil .nil


theorem lineBytes_decodes :
    ∃ t', decodeProgram ⟨3 :: (lineBytes ++ [0]), .reset⟩ = .ok (lineProgram, ⟨[0], t'⟩) :=
  decodeProgram_encodes (.inr (.inl rfl)) lineProgram_encodes [0] .reset

/-! ## Witness stacks -/

/-- The entries of a witness map, the first one in front. -/
def WitnessMap.Encodes (entries : WitnessMap) : Encoding :=
  IsMap (entries.map fun entry => (IsU32 entry.1, IsElement entry.2))

theorem readWitnessEntries_reads (entries dst : WitnessMap) :
    Reads (readWitnessEntries entries.length dst)
      (Each ((entries.map fun entry => (IsU32 entry.1, IsElement entry.2)).flatMap
        fun entry => [entry.1, entry.2]))
      (·.observeAll (entries.map Prod.fst)) (entries.reverse ++ dst) := by
  induction entries generalizing dst with
  | nil =>
    intro bs rest t hbs
    rw [hbs.nil_inv]
    rfl
  | cons entry entries ih =>
    intro bs rest t hbs
    obtain ⟨key, behind, rfl, hkey, hbehind⟩ := hbs.cons_inv
    obtain ⟨value, others, rfl, hvalue, hothers⟩ := hbehind.cons_inv
    rw [List.length_cons, readWitnessEntries, List.append_assoc, List.append_assoc,
      decoder_bind (reads_witness 0 entry.1 key _ t hkey),
      decoder_bind (reads_element 0 entry.2 value _ _ hvalue), List.reverse_cons, List.append_assoc]
    exact ih (entry :: dst) others rest _ hothers

def StackItem.parts (item : StackItem) : List (Part StackItem) := [
  ⟨"index", IsU32 item.circuitIndex, fun t => t, fun s => { s with circuitIndex := item.circuitIndex }⟩,
  ⟨"witness", WitnessMap.Encodes item.witnessMap.reverse,
    (·.observeAll (item.witnessMap.reverse.map Prod.fst)),
    fun s => { s with witnessMap := item.witnessMap ++ s.witnessMap }⟩]

abbrev StackItem.Encodes (item : StackItem) : Encoding := IsWritten item.parts

def StackItem.keys (item : StackItem) : List Witness := item.witnessMap.reverse.map Prod.fst

theorem stackItem_reads (item : StackItem) :
    Reads readStackItem item.Encodes (·.observeAll item.keys) item := by
  have hmeets : List.Forall₂ Field.Meets StackItem.fields item.parts := by
    refine .cons ⟨rfl, fun s => ?_⟩ <| .cons ⟨rfl, fun s => ?_⟩ .nil
    · exact (reads_truncated _).map _
    · rintro bs rest t ⟨head, body, hhead, hbody, rfl⟩
      rw [List.length_map] at hhead
      have hentries := readWitnessEntries_reads item.witnessMap.reverse s.witnessMap body rest t hbody
      rw [List.reverse_reverse] at hentries
      have hmap : readWitnessMap s.witnessMap ⟨head ++ (body ++ rest), t⟩ =
          .ok (item.witnessMap ++ s.witnessMap, ⟨rest, t.observeAll item.keys⟩) := by
        unfold readWitnessMap
        rw [decoder_bind (readMapLen_run hhead)]
        exact hentries
      rw [List.append_assoc]
      simp only
      rw [decoder_bind hmap]
      rfl
  refine (reads_struct (by decide) hmeets {}).congr (fun t => rfl) ?_
  have hfold : item.parts.foldl (fun s part => part.update s) ({} : StackItem) =
      { item with witnessMap := item.witnessMap ++ [] } := rfl
  rw [hfold, List.append_nil]

theorem readStackItems_reads (items : List StackItem) (i : Nat) :
    Reads (readStackItems i items.length) (Each (items.map StackItem.Encodes))
      (·.observeAll (items.flatMap StackItem.keys)) items := by
  induction items generalizing i with
  | nil =>
    intro bs rest t hbs
    rw [hbs.nil_inv]
    rfl
  | cons item items ih =>
    intro bs rest t hbs
    obtain ⟨first, behind, rfl, hfirst, hbehind⟩ := hbs.cons_inv
    rw [List.length_cons, readStackItems, List.append_assoc,
      decoder_bind ((stackItem_reads item).wrap first _ t hfirst),
      decoder_bind (ih (i + 1) behind rest _ hbehind)]
    simp only [List.flatMap_cons, observeAll_append]
    rfl

/-- A witness stack is a struct of one field. -/
def stackPart (items : List StackItem) : Part (List StackItem) :=
  ⟨"stack", IsVector StackItem.Encodes items, (·.observeAll (items.flatMap StackItem.keys)),
    fun _ => items⟩

/-- **Every encoding of a witness stack is decoded to it.** -/
theorem loadWitnessStack_encodes {items : List StackItem} {format : UInt8}
    (hformat : IsFormat format) {bs : List UInt8} (h : IsWritten [stackPart items] bs)
    (rest : List UInt8) (t : WitnessTracker) :
    ∃ t', loadWitnessStack ⟨format :: (bs ++ rest), t⟩ = .ok (items, ⟨rest, t'⟩) := by
  have hmeets : List.Forall₂ Field.Meets [(⟨"stack", fun _ => do
      let n ← readArrayLen
      readStackItems 0 n⟩ : Field (List StackItem))] [stackPart items] := by
    refine .cons ⟨rfl, fun s => ?_⟩ .nil
    rintro bs rest t ⟨head, body, hhead, hbody, rfl⟩
    rw [List.length_map] at hhead
    rw [List.append_assoc]
    simp only
    rw [decoder_bind (readArrayLen_run hhead)]
    exact readStackItems_reads items 0 body rest t hbody
  refine ⟨[stackPart items].foldl (fun t part => part.mark t) t, ?_⟩
  unfold loadWitnessStack
  rw [decoder_bind (wrap_ok.mpr (consumeFormatByte_run hformat _ t))]
  exact reads_struct (by decide) hmeets [] bs rest t h

/-- The solution of `lineProgram` with `w₁ = 3`, as a map by names and tags. -/
def lineStack : List StackItem := [{ witnessMap := [(1, 3)] }]

def lineStackBytes : List UInt8 :=
  [0x81, 0, 0x91, 0x82, 0, 0, 0xa7, 119, 105, 116, 110, 101, 115, 115, 0x81, 1, 0xc4, 1, 3]

theorem lineStack_encodes : IsWritten [stackPart lineStack] lineStackBytes := by
  have hzero : IsNumber 0 [0] := IsNumber.fixed (b := 0) (by decide)
  have hone : IsU32 1 [1] := isU32_fixed (b := 1) (by decide)
  have hentries := Each.cons hone <| .cons (isElement_byte 3) .nil
  have hmap : WitnessMap.Encodes [(1, 3)] (0x81 :: _) :=
    ⟨[0x81], _, .fixed rfl (by decide), hentries, rfl⟩
  have hname : IsKey 1 "witness" [0xa7, 119, 105, 116, 110, 101, 115, 115] :=
    .inl ⟨[0xa7], .fixed rfl (by decide), by decide⟩
  have hfields := Each.cons (E := IsKey 0 "index") (.inr hzero) <|
    .cons (isU32_fixed (b := 0) (by decide)) <| .cons hname <| .cons hmap .nil
  have hitem : StackItem.Encodes { witnessMap := [(1, 3)] } (0x82 :: _) :=
    .inr ⟨[0x82], _, .fixed rfl (by decide), hfields, rfl⟩
  have hitems : IsVector StackItem.Encodes lineStack (0x91 :: _) :=
    isArray_fixed rfl (by decide) (.cons hitem .nil)
  have hstack := Each.cons (E := IsKey 0 "stack") (.inr hzero) <| .cons hitems .nil
  exact .inr ⟨[0x81], _, .fixed rfl (by decide), hstack, rfl⟩

theorem lineStack_decodes :
    ∃ t', loadWitnessStack ⟨2 :: (lineStackBytes ++ []), .reset⟩ = .ok (lineStack, ⟨[], t'⟩) :=
  loadWitnessStack_encodes (.inl rfl) lineStack_encodes [] .reset

end Nortia.Sunspot
