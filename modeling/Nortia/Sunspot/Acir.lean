import Nortia.Sunspot.Msgpackutil

/-!
# ACIR programs

The decoded program of the browser prover, and the decoder of each of its types. A field element is
the big integer its bytes write; a witness is its `uint32` index. Each decoder updates the value it is
given, which for a fresh value is Go's zero value, the default of the structure.
-/

namespace Nortia.Sunspot

open Lib Nortia.Text

/-- `shr.Witness` -/
abbrev Witness := Nat

/-- `ObserveWitness` of the reader. -/
def observeWitness (idx : Nat) : Decoder Unit := fun r =>
  .ok ((), { r with tracker := r.tracker.observe idx })

def Witness.unmarshalReader (_ : Witness) : Decoder Witness := do
  let v ← readU32
  observeWitness v
  pure v

/-- `BN254Field`, its `Value`. -/
abbrev BN254Field := Nat

def BN254Field.unmarshalReader (_ : BN254Field) : Decoder BN254Field := do
  let bytes ← readBytes
  pure (ofBeBytes bytes)

/-- `uint32(v)` of a number that is read. -/
def readTruncated : Decoder Nat := do
  let v ← readUint
  pure (v % 2 ^ 32)

/-! ## Expressions -/

structure MulTerm where
  term : BN254Field := 0
  witnessLeft : Witness := 0
  witnessRight : Witness := 0
deriving DecidableEq, Repr

def MulTerm.unmarshalReader (mt : MulTerm) : Decoder MulTerm := do
  let n ← readArrayLen
  if n ≠ 3 then fail (.tuple "mul_term" 3 n)
  else
    let term ← BN254Field.unmarshalReader mt.term
    let witnessLeft ← Witness.unmarshalReader mt.witnessLeft
    let witnessRight ← Witness.unmarshalReader mt.witnessRight
    pure ⟨term, witnessLeft, witnessRight⟩

structure LinearCombination where
  term : BN254Field := 0
  witness : Witness := 0
deriving DecidableEq, Repr

def LinearCombination.unmarshalReader (lc : LinearCombination) : Decoder LinearCombination := do
  let n ← readArrayLen
  if n ≠ 2 then fail (.tuple "linear_combination" 2 n)
  else
    let term ← BN254Field.unmarshalReader lc.term
    let witness ← Witness.unmarshalReader lc.witness
    pure ⟨term, witness⟩

structure Expression where
  mulTerms : List MulTerm := []
  linearCombinations : List LinearCombination := []
  constant : BN254Field := 0
deriving DecidableEq, Repr

def Expression.fields : List (Field Expression) := [
  ⟨"mul_terms", fun e => do
    let mulTerms ← readVec {} MulTerm.unmarshalReader
    pure { e with mulTerms := mulTerms }⟩,
  ⟨"linear_combinations", fun e => do
    let linearCombinations ← readVec {} LinearCombination.unmarshalReader
    pure { e with linearCombinations := linearCombinations }⟩,
  ⟨"q_c", fun e => do
    let constant ← BN254Field.unmarshalReader e.constant
    pure { e with constant := constant }⟩]

def Expression.unmarshalReader : Expression → Decoder Expression :=
  readStruct "Expression" Expression.fields

/-! ## Memory -/

structure MemoryOp where
  blockID : Nat := 0
  isWrite : Bool := false
  index : Witness := 0
  value : Witness := 0
deriving DecidableEq, Repr

/-- The inner `MemOp`. -/
def MemoryOp.opFields : List (Field MemoryOp) := [
  ⟨"read", fun m => do
    let isWrite ← readBool
    pure { m with isWrite := isWrite }⟩,
  ⟨"index", fun m => do
    let index ← Witness.unmarshalReader m.index
    pure { m with index := index }⟩,
  ⟨"value", fun m => do
    let value ← Witness.unmarshalReader m.value
    pure { m with value := value }⟩]

def MemoryOp.fields : List (Field MemoryOp) := [
  ⟨"block_id", fun m => do
    let blockID ← readTruncated
    pure { m with blockID := blockID }⟩,
  ⟨"op", readStruct "MemOp" MemoryOp.opFields⟩]

def MemoryOp.unmarshalReader : MemoryOp → Decoder MemoryOp := readStruct "MemoryOp" MemoryOp.fields

structure MemoryInit where
  blockID : Nat := 0
  init : List Witness := []
deriving DecidableEq, Repr

def MemoryInit.fields : List (Field MemoryInit) := [
  ⟨"block_id", fun m => do
    let blockID ← readU32
    pure { m with blockID := blockID }⟩,
  ⟨"init", fun m => do
    let init ← readVec 0 Witness.unmarshalReader
    pure { m with init := init }⟩,
  ⟨"block_type", skipField⟩]

def MemoryInit.unmarshalReader : MemoryInit → Decoder MemoryInit :=
  readStruct "MemoryInit" MemoryInit.fields

/-! ## Calls -/

structure Call where
  id : Nat := 0
  inputs : List Witness := []
  outputs : List Witness := []
  predicate : Expression := {}
deriving DecidableEq, Repr

def Call.fields : List (Field Call) := [
  ⟨"id", fun c => do
    let id ← readTruncated
    pure { c with id := id }⟩,
  ⟨"inputs", fun c => do
    let inputs ← readVec 0 Witness.unmarshalReader
    pure { c with inputs := inputs }⟩,
  ⟨"outputs", fun c => do
    let outputs ← readVec 0 Witness.unmarshalReader
    pure { c with outputs := outputs }⟩,
  ⟨"predicate", fun c => do
    let predicate ← c.predicate.unmarshalReader
    pure { c with predicate := predicate }⟩]

def Call.unmarshalReader : Call → Decoder Call := readStruct "Call" Call.fields

structure BrilligInputs where
  single : Option Expression := none
  array : Option (List Expression) := none
  blockID : Option Nat := none
deriving DecidableEq, Repr

def BrilligInputs.variants : List (Field BrilligInputs) := [
  ⟨"Single", fun inputs => do
    let single ← Expression.unmarshalReader {}
    pure { inputs with single := some single }⟩,
  ⟨"Array", fun inputs => do
    let array ← readVec {} Expression.unmarshalReader
    pure { inputs with array := some array }⟩,
  ⟨"MemoryArray", fun inputs => do
    let blockID ← readTruncated
    pure { inputs with blockID := some blockID }⟩]

def BrilligInputs.unmarshalReader : BrilligInputs → Decoder BrilligInputs :=
  readEnum "BrilligInputs" BrilligInputs.variants

structure BrilligOutputs where
  single : Option Witness := none
  array : Option (List Witness) := none
deriving DecidableEq, Repr

def BrilligOutputs.variants : List (Field BrilligOutputs) := [
  ⟨"Simple", fun b => do
    let single ← Witness.unmarshalReader 0
    pure { b with single := some single }⟩,
  ⟨"Array", fun b => do
    let array ← readVec 0 Witness.unmarshalReader
    pure { b with array := some array }⟩]

def BrilligOutputs.unmarshalReader : BrilligOutputs → Decoder BrilligOutputs :=
  readEnum "BrilligOutputs" BrilligOutputs.variants

structure BrilligCall where
  id : Nat := 0
  inputs : List BrilligInputs := []
  outputs : List BrilligOutputs := []
  predicate : Expression := {}
deriving DecidableEq, Repr

def BrilligCall.fields : List (Field BrilligCall) := [
  ⟨"id", fun b => do
    let id ← readTruncated
    pure { b with id := id }⟩,
  ⟨"inputs", fun b => do
    let inputs ← readVec {} BrilligInputs.unmarshalReader
    pure { b with inputs := inputs }⟩,
  ⟨"outputs", fun b => do
    let outputs ← readVec {} BrilligOutputs.unmarshalReader
    pure { b with outputs := outputs }⟩,
  ⟨"predicate", fun b => do
    let predicate ← b.predicate.unmarshalReader
    pure { b with predicate := predicate }⟩]

def BrilligCall.unmarshalReader : BrilligCall → Decoder BrilligCall :=
  readStruct "BrilligCall" BrilligCall.fields

/-! ## Black box functions -/

/-- A constant or a witness; both are `nil` in the zero value. -/
structure FunctionInput where
  constantInput : Option BN254Field := none
  witness : Option Witness := none
deriving DecidableEq, Repr

def FunctionInput.variants : List (Field FunctionInput) := [
  ⟨"Constant", fun _ => do
    let constant ← BN254Field.unmarshalReader 0
    pure { constantInput := some constant, witness := none }⟩,
  ⟨"Witness", fun _ => do
    let witness ← Witness.unmarshalReader 0
    pure { constantInput := none, witness := some witness }⟩]

def FunctionInput.unmarshalReader : FunctionInput → Decoder FunctionInput :=
  readEnum "FunctionInput" FunctionInput.variants

structure Range where
  input : FunctionInput := {}
  nBits : Nat := 0
deriving DecidableEq, Repr

def Range.fields : List (Field Range) := [
  ⟨"input", fun a => do
    let input ← a.input.unmarshalReader
    pure { a with input := input }⟩,
  ⟨"num_bits", fun a => do
    let n ← readU32
    pure { a with nBits := n }⟩]

/-- `And` and `Xor` have the same fields. -/
structure Bitwise where
  lhs : FunctionInput := {}
  rhs : FunctionInput := {}
  nBits : Nat := 0
  output : Witness := 0
deriving DecidableEq, Repr

def Bitwise.fields (name : String) : List (Field Bitwise) := [
  ⟨"lhs", fun a => do
    let lhs ← a.lhs.unmarshalReader
    pure { a with lhs := lhs }⟩,
  ⟨"rhs", fun a => do
    let rhs ← a.rhs.unmarshalReader
    pure { a with rhs := rhs }⟩,
  ⟨"num_bits", fun a => do
    let n ← readU32
    if n > 128 then fail (.numBits name n) else pure { a with nBits := n }⟩,
  ⟨"output", fun a => do
    let output ← Witness.unmarshalReader a.output
    pure { a with output := output }⟩]

/-- The types of the fields of the other functions. -/
inductive Kind where
  | input
  | inputs
  | inputArray (n : Nat)
  | witness
  | witnesses
  | witnessArray (n : Nat)
  | number
deriving DecidableEq, Repr

/-- A field of one of the other functions. -/
inductive Payload where
  | input (x : FunctionInput)
  | inputs (xs : List FunctionInput)
  | witness (w : Witness)
  | witnesses (ws : List Witness)
  | number (n : Nat)
deriving DecidableEq, Repr

/-- The zero value of a field. -/
def Kind.zero : Kind → Payload
  | .input => .input {}
  | .inputs => .inputs []
  | .inputArray n => .inputs (List.replicate n {})
  | .witness => .witness 0
  | .witnesses => .witnesses []
  | .witnessArray n => .witnesses (List.replicate n 0)
  | .number => .number 0

/-- The decoder of a field. A fixed-size array has its size from its kind. -/
def Kind.unmarshalReader : Kind → Decoder Payload
  | .input => do
    let x ← FunctionInput.unmarshalReader {}
    pure (.input x)
  | .inputs => do
    let xs ← readVec {} FunctionInput.unmarshalReader
    pure (.inputs xs)
  | .inputArray n => do
    let xs ← readArrayInto FunctionInput.unmarshalReader (List.replicate n {})
    pure (.inputs xs)
  | .witness => do
    let w ← Witness.unmarshalReader 0
    pure (.witness w)
  | .witnesses => do
    let ws ← readVec 0 Witness.unmarshalReader
    pure (.witnesses ws)
  | .witnessArray n => do
    let ws ← readArrayInto Witness.unmarshalReader (List.replicate n 0)
    pure (.witnesses ws)
  | .number => do
    let n ← readU32
    pure (.number n)

/-- A function with its fields in the order of the wire. -/
structure Schema where
  name : String
  fields : List (String × Kind)
deriving DecidableEq, Repr

def Schema.zero (f : Schema) : List Payload := f.fields.map fun field => field.2.zero

/-- The field at place `i` of a payload. -/
def Schema.field (i : Nat) (field : String × Kind) : Field (List Payload) :=
  ⟨field.1, fun values => do
    let value ← field.2.unmarshalReader
    pure (values.set i value)⟩

def Schema.unmarshalReader (f : Schema) : Decoder (List Payload) :=
  readStruct f.name (f.fields.mapIdx Schema.field) f.zero

def aes128Encrypt : Schema := ⟨"AES128Encrypt",
  [("inputs", .inputs), ("iv", .inputArray 16), ("key", .inputArray 16), ("outputs", .witnesses)]⟩

def blake2s : Schema := ⟨"Blake2s", [("inputs", .inputs), ("outputs", .witnessArray 32)]⟩

def blake3 : Schema := ⟨"Blake3", [("inputs", .inputs), ("outputs", .witnessArray 32)]⟩

def ecdsaSecp256k1 : Schema := ⟨"EcdsaSecp256k1",
  [("public_key_x", .inputArray 32), ("public_key_y", .inputArray 32),
    ("signature", .inputArray 64), ("hashed_message", .inputArray 32), ("predicate", .input),
    ("output", .witness)]⟩

def ecdsaSecp256r1 : Schema := ⟨"EcdsaSecp256r1",
  [("public_key_x", .inputArray 32), ("public_key_y", .inputArray 32),
    ("signature", .inputArray 64), ("hashed_message", .inputArray 32), ("predicate", .input),
    ("output", .witness)]⟩

def multiScalarMul : Schema := ⟨"MultiScalarMul",
  [("points", .inputs), ("scalars", .inputs), ("predicate", .input), ("outputs", .witnessArray 2)]⟩

def embeddedCurveAdd : Schema := ⟨"EmbeddedCurveAdd",
  [("input1", .inputArray 2), ("input2", .inputArray 2), ("predicate", .input),
    ("outputs", .witnessArray 2)]⟩

def keccakf1600 : Schema := ⟨"Keccakf1600",
  [("inputs", .inputArray 25), ("outputs", .witnessArray 25)]⟩

def recursiveAggregation : Schema := ⟨"RecursiveAggregation",
  [("verification_key", .inputs), ("proof", .inputs), ("public_inputs", .inputs),
    ("key_hash", .input), ("proof_type", .number), ("predicate", .input)]⟩

def poseidon2Permutation : Schema := ⟨"Poseidon2Permutation",
  [("inputs", .inputs), ("outputs", .witnesses)]⟩

def sha256Compression : Schema := ⟨"Sha256Compression",
  [("inputs", .inputArray 16), ("hash_values", .inputArray 8), ("outputs", .witnessArray 8)]⟩

inductive BlackBoxFunction where
  | and (a : Bitwise)
  | xor (a : Bitwise)
  | range (a : Range)
  | other (f : Schema) (values : List Payload)
deriving DecidableEq, Repr

/-- One of the other functions as a variant. -/
def Schema.variant (f : Schema) : Field Unit BlackBoxFunction :=
  ⟨f.name, fun _ => do
    let values ← f.unmarshalReader
    pure (.other f values)⟩

def BlackBoxFunction.variants : List (Field Unit BlackBoxFunction) := [
  aes128Encrypt.variant,
  ⟨"AND", fun _ => do
    let a ← readStruct "And" (Bitwise.fields "AND") {}
    pure (.and a)⟩,
  ⟨"XOR", fun _ => do
    let a ← readStruct "Xor" (Bitwise.fields "XOR") {}
    pure (.xor a)⟩,
  ⟨"RANGE", fun _ => do
    let a ← readStruct "Range" Range.fields {}
    pure (.range a)⟩,
  blake2s.variant, blake3.variant, ecdsaSecp256k1.variant, ecdsaSecp256r1.variant,
  multiScalarMul.variant, embeddedCurveAdd.variant, keccakf1600.variant,
  recursiveAggregation.variant, poseidon2Permutation.variant, sha256Compression.variant]

/-! ## Circuits -/

inductive Opcode where
  | assertZero (e : Expression)
  | blackBoxFuncCall (function : BlackBoxFunction)
  | memoryOp (m : MemoryOp)
  | memoryInit (m : MemoryInit)
  | brilligCall (b : BrilligCall)
  | call (c : Call)
deriving DecidableEq, Repr

def Opcode.variants : List (Field Unit Opcode) := [
  ⟨"AssertZero", fun _ => do
    let e ← Expression.unmarshalReader {}
    pure (.assertZero e)⟩,
  ⟨"BlackBoxFuncCall", fun _ => do
    let function ← readDispatchedEnum "BlackBoxFuncCall" BlackBoxFunction.variants
    pure (.blackBoxFuncCall function)⟩,
  ⟨"MemoryOp", fun _ => do
    let m ← MemoryOp.unmarshalReader {}
    pure (.memoryOp m)⟩,
  ⟨"MemoryInit", fun _ => do
    let m ← MemoryInit.unmarshalReader {}
    pure (.memoryInit m)⟩,
  ⟨"BrilligCall", fun _ => do
    let b ← BrilligCall.unmarshalReader {}
    pure (.brilligCall b)⟩,
  ⟨"Call", fun _ => do
    let c ← Call.unmarshalReader {}
    pure (.call c)⟩]

/-- A `btree` of witnesses: ascending, each once. -/
abbrev WitnessSet := { ws : List Witness // ws.Pairwise (· < ·) }

namespace WitnessSet

/-- Insertion into an ascending list. -/
def place (w : Witness) : List Witness → List Witness
  | [] => [w]
  | x :: xs => if w < x then w :: x :: xs else if w = x then w :: xs else x :: place w xs

theorem mem_place {w x : Witness} {ws : List Witness} : x ∈ place w ws ↔ x = w ∨ x ∈ ws := by
  induction ws with
  | nil => simp [place]
  | cons y ys ih =>
    rw [place]
    split
    · simp
    · split
      · next heq => simp [heq]
      · simp [ih, or_left_comm]

theorem pairwise_place {w : Witness} {ws : List Witness} (h : ws.Pairwise (· < ·)) :
    (place w ws).Pairwise (· < ·) := by
  induction ws with
  | nil => exact List.pairwise_singleton _ _
  | cons y ys ih =>
    obtain ⟨hy, hys⟩ := List.pairwise_cons.mp h
    rw [place]
    split
    · next hlt =>
      refine List.pairwise_cons.mpr ⟨fun x hx => ?_, h⟩
      rcases List.mem_cons.mp hx with rfl | hx
      · exact hlt
      · exact Nat.lt_trans hlt (hy x hx)
    · next hge =>
      split
      · next heq => exact List.pairwise_cons.mpr ⟨heq ▸ hy, hys⟩
      · next hne =>
        refine List.pairwise_cons.mpr ⟨fun x hx => ?_, ih hys⟩
        rcases mem_place.mp hx with rfl | hx
        · exact Nat.lt_of_le_of_ne (Nat.le_of_not_lt hge) (Ne.symm hne)
        · exact hy x hx

/-- `ReplaceOrInsert` -/
def insert (ws : WitnessSet) (w : Witness) : WitnessSet := ⟨place w ws.1, pairwise_place ws.2⟩

def empty : WitnessSet := ⟨[], List.Pairwise.nil⟩

end WitnessSet

/-- The loop of `readWitnessSet`. -/
def readWitnesses : Nat → WitnessSet → Decoder WitnessSet
  | 0, dst => pure dst
  | n + 1, dst => do
    let w ← Witness.unmarshalReader 0
    readWitnesses n (dst.insert w)

def readWitnessSet (dst : WitnessSet) : Decoder WitnessSet := do
  let n ← readArrayLen
  readWitnesses n dst

structure Circuit where
  circuitName : List UInt8 := []
  currentWitnessIndex : Nat := 0
  opcodes : List Opcode := []
  privateParameters : WitnessSet := WitnessSet.empty
  publicParameters : WitnessSet := WitnessSet.empty
  returnValues : WitnessSet := WitnessSet.empty
deriving DecidableEq

/-- The loop of `readOpcodes`, from the `i`-th opcode on. -/
def readOpcodesFrom (i : Nat) : Nat → Decoder (List Opcode)
  | 0 => pure []
  | n + 1 => do
    let op ← wrap (.item "opcode" i) (readDispatchedEnum "Opcode" Opcode.variants)
    let rest ← readOpcodesFrom (i + 1) n
    pure (op :: rest)

def readOpcodes : Decoder (List Opcode) := do
  let n ← readArrayLen
  readOpcodesFrom 0 n

def Circuit.fields : List (Field Circuit) := [
  ⟨"function_name", fun c => do
    let s ← readString
    pure { c with circuitName := s }⟩,
  ⟨"opcodes", fun c => do
    let opcodes ← readOpcodes
    pure { c with opcodes := opcodes }⟩,
  ⟨"private_parameters", fun c => do
    let dst ← readWitnessSet c.privateParameters
    pure { c with privateParameters := dst }⟩,
  ⟨"public_parameters", fun c => do
    let dst ← readWitnessSet c.publicParameters
    pure { c with publicParameters := dst }⟩,
  ⟨"return_values", fun c => do
    let dst ← readWitnessSet c.returnValues
    pure { c with returnValues := dst }⟩,
  ⟨"assert_messages", skipField⟩]

def resetWitnessTracker : Decoder Unit := fun r => .ok ((), { r with tracker := .reset })

/-- `MaxWitness` -/
def maxWitness : Decoder (Option Nat) := fun r =>
  .ok (if r.tracker.witnessSeen then some r.tracker.maxWitness else none, r)

def Circuit.unmarshalReader : Decoder Circuit := do
  resetWitnessTracker
  let c ← readStruct "Circuit" Circuit.fields {}
  let maxW ← maxWitness
  match maxW with
  | some maxW => pure { c with currentWitnessIndex := maxW }
  | none => pure c

/-- The loop over the functions of a program, from the `i`-th on. -/
def readFunctions (i : Nat) : Nat → Decoder (List Circuit)
  | 0 => pure []
  | n + 1 => do
    let c ← wrap (.item "function" i) Circuit.unmarshalReader
    let rest ← readFunctions (i + 1) n
    pure (c :: rest)

structure Program where
  functions : List Circuit := []
deriving DecidableEq

def Program.fields : List (Field Program) := [
  ⟨"functions", fun p => do
    let n ← readArrayLen
    let functions ← readFunctions 0 n
    pure { p with functions := functions }⟩,
  ⟨"unconstrained_functions", skipField⟩]

def Program.unmarshalReader : Program → Decoder Program := readStruct "Program" Program.fields

/-! ## Witness stacks -/

/-- `btree.Map[shr.Witness, T]`; the latest entry of a key is in front. -/
abbrev WitnessMap := List (Witness × BN254Field)

structure StackItem where
  circuitIndex : Nat := 0
  witnessMap : WitnessMap := []
deriving DecidableEq, Repr

def readWitnessEntries : Nat → WitnessMap → Decoder WitnessMap
  | 0, dst => pure dst
  | n + 1, dst => do
    let w ← Witness.unmarshalReader 0
    let value ← BN254Field.unmarshalReader 0
    readWitnessEntries n ((w, value) :: dst)

def readWitnessMap (dst : WitnessMap) : Decoder WitnessMap := do
  let n ← readMapLen
  readWitnessEntries n dst

def StackItem.fields : List (Field StackItem) := [
  ⟨"index", fun s => do
    let index ← readTruncated
    pure { s with circuitIndex := index }⟩,
  ⟨"witness", fun s => do
    let witnessMap ← readWitnessMap s.witnessMap
    pure { s with witnessMap := witnessMap }⟩]

def readStackItem : Decoder StackItem := readStruct "StackItem" StackItem.fields {}

def readStackItems (i : Nat) : Nat → Decoder (List StackItem)
  | 0 => pure []
  | n + 1 => do
    let item ← wrap (.item "stack item" i) readStackItem
    let rest ← readStackItems (i + 1) n
    pure (item :: rest)

/-- `LoadWitnessStackFromReader`, behind the decompression. -/
def loadWitnessStack : Decoder (List StackItem) := do
  wrap (.within "witness") consumeFormatByte
  readStruct "WitnessStack" [
    ⟨"stack", fun _ => do
      let n ← readArrayLen
      readStackItems 0 n⟩] []

/-- `decodeProgramBytecode` behind the decompression, and the program. -/
def decodeProgram : Decoder Program := do
  consumeFormatByte
  Program.unmarshalReader {}

end Nortia.Sunspot
