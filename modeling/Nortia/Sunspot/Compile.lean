import Nortia.Sunspot.Acir
import Nortia.Sunspot.Frontend

/-!
# The compilation of a program

`Program.Define` and `Compile`: the call tree of the main circuit is constrained in postorder, each
circuit on its own block of the witness space. A Go `uint32` wraps around at `2 ^ 32`; a panic is an
error of its own.
-/

namespace Nortia.Sunspot

/-- The variables of a circuit by witness; a missing key reads as `nil`. -/
abbrev Witnesses := Witness → Option Variable

/-- `ToFrontendVariable` -/
def toFrontendVariable (x : BN254Field) : Variable := .constant (x : Scalar)

/-- A variable that must not be `nil`. -/
def deref : Option Variable → Build Variable
  | none => crash .panic
  | some v => pure v

def assertIsEqual (a b : Variable) : Build Unit := constrain (.assertIsEqual a b)

/-! ## Expressions -/

/-- A witness of an expression, which falls back to the wire of the same number. -/
def find (w : Witness) (ws : Witnesses) : Build (Variable × Witnesses) :=
  match ws w with
  | some v => pure (v, ws)
  | none => do
    let v ← internalVariable w
    pure (v, Function.update ws w (some v))

def MulTerm.calculate (mt : MulTerm) (ws : Witnesses) : Build (Variable × Witnesses) := do
  let (left, ws) ← find mt.witnessLeft ws
  let (right, ws) ← find mt.witnessRight ws
  pure (.mul (.mul left right) (toFrontendVariable mt.term), ws)

def LinearCombination.calculate (lc : LinearCombination) (ws : Witnesses) :
    Build (Variable × Witnesses) := do
  let (left, ws) ← find lc.witness ws
  pure (.mul left (toFrontendVariable lc.term), ws)

/-- The sum of the terms, each calculated by `f`, on top of `sum`. -/
def sumTerms {α : Type} (f : α → Witnesses → Build (Variable × Witnesses)) :
    List α → Variable → Witnesses → Build (Variable × Witnesses)
  | [], sum, ws => pure (sum, ws)
  | term :: rest, sum, ws => do
    let (v, ws) ← f term ws
    sumTerms f rest (.add sum v) ws

def Expression.calculate (e : Expression) (ws : Witnesses) : Build (Variable × Witnesses) := do
  let (sum, ws) ← sumTerms MulTerm.calculate e.mulTerms (toFrontendVariable e.constant) ws
  sumTerms LinearCombination.calculate e.linearCombinations sum ws

/-! ## Opcodes -/

/-- The state of a circuit while its opcodes are defined: its witnesses, and the table of each memory
block, the latest in front. -/
structure Scope where
  witnesses : Witnesses
  memory : List (Nat × Nat)

def Expression.define (e : Expression) (s : Scope) : Build Scope := do
  let (sum, ws) ← e.calculate s.witnesses
  assertIsEqual sum (.constant 0)
  pure { s with witnesses := ws }

def FunctionInput.toVariable (f : FunctionInput) (ws : Witnesses) : Build Variable :=
  match f.witness with
  | some w =>
    match ws w with
    | some v => pure v
    | none => crash (.witness w)
  | none =>
    match f.constantInput with
    | some c => pure (toFrontendVariable c)
    | none => crash .neither

def Range.define (a : Range) (ws : Witnesses) : Build Unit := do
  let input ← a.input.toVariable ws
  constrain (.rangeCheck input a.nBits)

def twoTo64 : Variable := .constant ((2 ^ 64 : Nat) : Scalar)

/-- `splitToU64Limbs`: the limbs of a hint, `v = lo + hi * 2 ^ 64`. Both are checked to have 64 bits
where they are used. -/
def splitToU64Limbs (v : Variable) (nBits : Nat) : Build (Variable × Variable) := do
  let lo ← innerVariable
  let hi ← innerVariable
  if nBits < 128 then constrain (.rangeCheck hi (nBits - 64)) else pure ()
  assertIsEqual v (.add lo (.mul hi twoTo64))
  pure (lo, hi)

def defineBitwise (op : BitOp) (a : Bitwise) (ws : Witnesses) : Build Unit := do
  let lhs ← a.lhs.toVariable ws
  let rhs ← a.rhs.toVariable ws
  match ws a.output with
  | none => crash (.witness a.output)
  | some out =>
    if a.nBits ≤ 64 then
      constrain (.rangeCheck lhs a.nBits)
      constrain (.rangeCheck rhs a.nBits)
      constrain (.bitwise op lhs rhs out)
    else
      let (lhsLo, lhsHi) ← splitToU64Limbs lhs a.nBits
      let (rhsLo, rhsHi) ← splitToU64Limbs rhs a.nBits
      let (outLo, outHi) ← splitToU64Limbs out a.nBits
      constrain (.bitwise op lhsLo rhsLo outLo)
      constrain (.bitwise op lhsHi rhsHi outHi)

/-- The argument of a gadget for a field of its payload. -/
def Payload.toArg (ws : Witnesses) : Payload → Build (Arg Variable)
  | .input x => do
    let v ← x.toVariable ws
    pure (.one v)
  | .inputs xs => do
    let vs ← xs.mapM fun x => x.toVariable ws
    pure (.many vs)
  | .witness w => do
    let v ← deref (ws w)
    pure (.one v)
  | .witnesses xs => do
    let vs ← xs.mapM fun w => deref (ws w)
    pure (.many vs)
  | .number n => pure (.number n)

def BlackBoxFunction.define (ws : Witnesses) : BlackBoxFunction → Build Unit
  | .and a => defineBitwise .and a ws
  | .xor a => defineBitwise .xor a ws
  | .range a => a.define ws
  | .other f values => do
    let args ← values.mapM (Payload.toArg ws)
    constrain (.gadget f.name args)

/-- The entries of a fresh table, one for each witness. -/
def insertAll (table : Nat) (ws : Witnesses) : List Witness → Build Unit
  | [] => pure ()
  | w :: rest => do
    let v ← deref (ws w)
    let _ ← insert table v
    insertAll table ws rest

def MemoryInit.define (m : MemoryInit) (s : Scope) : Build Scope := do
  let table ← newTable
  insertAll table s.witnesses m.init
  pure { s with memory := (m.blockID, table) :: s.memory }

/-- The table after a write: an entry is replaced where the index is its place. -/
def copyEntries (table fresh : Nat) (index value : Variable) : List Nat → Build Unit
  | [] => pure ()
  | i :: rest => do
    let old ← lookup table (.constant (i : Scalar))
    let _ ← insert fresh (.select (.isZero (.sub index (.constant (i : Scalar)))) value old)
    copyEntries table fresh index value rest

def MemoryOp.define (o : MemoryOp) (s : Scope) : Build Scope :=
  match s.memory.lookup o.blockID with
  | none => crash .panic
  | some table => do
    let index ← deref (s.witnesses o.index)
    let value ← deref (s.witnesses o.value)
    if o.isWrite then
      let fresh ← newTable
      -- an entry is appended to the old table to learn its length
      let tableLen ← insert table (.constant 0)
      copyEntries table fresh index value (List.range tableLen)
      pure { s with memory := (o.blockID, fresh) :: s.memory }
    else
      let entry ← lookup table index
      assertIsEqual entry value
      pure s

/-- `Define` of an opcode. The predicates of calls are not looked at, and a Brillig call constrains
nothing. -/
def Opcode.define (s : Scope) : Opcode → Build Scope
  | .assertZero e => e.define s
  | .blackBoxFuncCall function => do
    function.define s.witnesses
    pure s
  | .memoryOp m => m.define s
  | .memoryInit m => m.define s
  | .brilligCall _ => pure s
  | .call _ => pure s

/-! ## Circuits -/

def Opcode.asCall : Opcode → Option Call
  | .call c => some c
  | _ => none

/-- The calls of a circuit, in opcode order. -/
def Circuit.calls (c : Circuit) : List Call := c.opcodes.filterMap Opcode.asCall

def Program.resolver (p : Program) (id : Nat) : Except CompileError Circuit :=
  match p.functions[id]? with
  | none => .error (.outOfRange id)
  | some c => .ok c

/-- The input and output variables of a defined circuit, and the next free slot. -/
structure Defined where
  inputs : List (Option Variable)
  outputs : List (Option Variable)
  index : Nat

/-- The loop of `defineSubcircuits`, where `sub` defines a circuit. -/
def defineSubcircuits (p : Program) (sub : Circuit → Nat → Build Defined) :
    List Call → Nat → Build (List (Call × Defined) × Nat)
  | [], index => pure ([], index)
  | callOp :: rest, index => do
    let subCircuit ← StateT.lift (p.resolver callOp.id)
    let connection ← sub subCircuit index
    if callOp.inputs.length < connection.inputs.length then crash (.inputs callOp.id)
    else if callOp.outputs.length < connection.outputs.length then crash (.outputs callOp.id)
    else
      let (connections, index) ← defineSubcircuits p sub rest connection.index
      pure ((callOp, connection) :: connections, index)

def Circuit.collectCurrentWitnesses (c : Circuit) (witnesses : Witnesses) (index : Nat) :
    Build (Witnesses × Nat) :=
  let n := (c.currentWitnessIndex + 1) % 2 ^ 32
  let globalSlot := fun i => (i + index) % 2 ^ 32
  match (List.range n).find? fun i => (witnesses (globalSlot i)).isNone with
  | some i => crash (.slot i (globalSlot i))
  | none => pure (fun i => if i < n then witnesses (globalSlot i) else none, (index + n) % 2 ^ 32)

/-- The opcodes one after another. -/
def constrainOpcodes : List Opcode → Scope → Build Scope
  | [], s => pure s
  | op :: rest, s => do
    let s ← op.define s
    constrainOpcodes rest s

def Circuit.constrainCircuit (c : Circuit) (ws : Witnesses) : Build Witnesses := do
  let s ← constrainOpcodes c.opcodes { witnesses := ws, memory := [] }
  pure s.witnesses

/-- Witnesses of the caller against variables of the callee. -/
def connect (ws : Witnesses) : List Witness → List (Option Variable) → Build Unit
  | [], _ => pure ()
  | _ :: _, [] => crash .panic
  | w :: rest, v :: vs => do
    let outer ← deref (ws w)
    let inner ← deref v
    assertIsEqual outer inner
    connect ws rest vs

def constrainCircuitCalls (ws : Witnesses) : List (Call × Defined) → Build Unit
  | [] => pure ()
  | (callOp, connection) :: rest => do
    connect ws callOp.inputs connection.inputs
    connect ws callOp.outputs connection.outputs
    constrainCircuitCalls ws rest

/-- The merged trees. -/
def WitnessSet.union (a b : WitnessSet) : WitnessSet := b.1.foldl WitnessSet.insert a

def collectWitnesses (ws : Witnesses) (merged : WitnessSet) : List (Option Variable) :=
  merged.1.map ws

/-- `Circuit.Define`, in a call stack that has room for so many more calls. -/
def Circuit.define (p : Program) (witnesses : Witnesses) : Nat → Circuit → Nat → Build Defined
  | 0, _, _ => crash .depth
  | room + 1, c, index => do
    let (connections, index) ← defineSubcircuits p (Circuit.define p witnesses room) c.calls index
    let (ws, index) ← c.collectCurrentWitnesses witnesses index
    let ws ← c.constrainCircuit ws
    constrainCircuitCalls ws connections
    pure {
      inputs := collectWitnesses ws (c.privateParameters.union c.publicParameters)
      outputs := collectWitnesses ws c.returnValues
      index := index }

/-! ## Programs -/

/-- The loop of `countSubcircuitSlots`, where `sub` is the start of a circuit's own slots. -/
def countCalls (p : Program) (sub : Circuit → Nat → Except CompileError Nat) :
    List Call → Nat → Except CompileError Nat
  | [], index => .ok index
  | callOp :: rest, index => do
    let subCircuit ← p.resolver callOp.id
    let subOwnStart ← sub subCircuit index
    countCalls p sub rest ((subOwnStart + subCircuit.currentWitnessIndex + 1) % 2 ^ 32)

def Circuit.countSubcircuitSlots (p : Program) : Nat → Circuit → Nat → Except CompileError Nat
  | 0, _, _ => .error .depth
  | room + 1, c, index => countCalls p (Circuit.countSubcircuitSlots p room) c.calls index

/-- Calls nested deeper than there are functions repeat one of them and never end. -/
def Program.room (p : Program) : Nat := p.functions.length + 1

def Program.main (p : Program) : Except CompileError Circuit :=
  match p.functions with
  | [] => .error .panic
  | c :: _ => .ok c

/-- `WitnessLayout`: the number of slots, and the first one of the main circuit. -/
def Program.witnessLayout (p : Program) : Except CompileError (Nat × Nat) := do
  let main ← p.main
  let mainStart ← main.countSubcircuitSlots p p.room 0
  pure ((mainStart + main.currentWitnessIndex + 1) % 2 ^ 32, mainStart)

/-- `Program.Define` -/
def Program.define (p : Program) (witnesses : Witnesses) : Build Unit := do
  let main ← StateT.lift p.main
  let _ ← main.define p witnesses p.room 0
  pure ()

end Nortia.Sunspot
