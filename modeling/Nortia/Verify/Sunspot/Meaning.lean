import Nortia.Sunspot.Witness
import Nortia.Verify.Sunspot.Decode

/-!
# What a program means

An execution is a tree of frames, one for each call; a frame has a value for each witness of its
circuit. `Frame.Accepted` says what the opcodes ask of these values, with `slack` for the entries a
read may see behind the end of a memory block: none in the meaning of the program.
-/

namespace Nortia.Sunspot

/-! ## Opcodes -/

/-- The values of a circuit's witnesses. -/
abbrev Valuation := Witness → Scalar

def MulTerm.value (w : Valuation) (mt : MulTerm) : Scalar :=
  w mt.witnessLeft * w mt.witnessRight * (mt.term : Scalar)

def LinearCombination.value (w : Valuation) (lc : LinearCombination) : Scalar :=
  w lc.witness * (lc.term : Scalar)

def Expression.value (w : Valuation) (e : Expression) : Scalar :=
  e.constant + (e.mulTerms.map (MulTerm.value w)).sum +
    (e.linearCombinations.map (LinearCombination.value w)).sum

def FunctionInput.value (w : Valuation) (f : FunctionInput) : Scalar :=
  match f.witness with
  | some j => w j
  | none => ((f.constantInput.getD 0 : Nat) : Scalar)

/-- The operands have `nBits` bits, and the output is the operation on them. -/
def Bitwise.Holds (op : BitOp) (w : Valuation) (a : Bitwise) : Prop :=
  (a.lhs.value w).val < 2 ^ a.nBits ∧ (a.rhs.value w).val < 2 ^ a.nBits ∧
    (w a.output).val = op.apply (a.lhs.value w).val (a.rhs.value w).val

def Payload.value (w : Valuation) : Payload → Arg Scalar
  | .input x => .one (x.value w)
  | .inputs xs => .many (xs.map fun x => x.value w)
  | .witness j => .one (w j)
  | .witnesses js => .many (js.map w)
  | .number n => .number n

def BlackBoxFunction.Holds (R : Gadgets) (w : Valuation) : BlackBoxFunction → Prop
  | .and a => a.Holds .and w
  | .xor a => a.Holds .xor w
  | .range a => (a.input.value w).val < 2 ^ a.nBits
  | .other f values => R f.name (values.map (Payload.value w))

/-- A memory block after a write, which changes nothing where the index is behind the end. -/
def writeAt (index value : Scalar) (entries : List Scalar) : List Scalar :=
  entries.mapIdx fun i x => if index = (i : Nat) then value else x

/-- The memory blocks, the latest in front. -/
abbrev Memory := List (Nat × List Scalar)

/-- What may be read of a block behind its entries, by what is still to come. -/
abbrev Slack := Nat → List Opcode → List Scalar

/-- The opcodes accept the values. -/
def OpcodesAccept (R : Gadgets) (slack : Slack) (w : Valuation) : List Opcode → Memory → Prop
  | [], _ => True
  | .assertZero e :: rest, mem => e.value w = 0 ∧ OpcodesAccept R slack w rest mem
  | .blackBoxFuncCall f :: rest, mem => f.Holds R w ∧ OpcodesAccept R slack w rest mem
  | .memoryInit m :: rest, mem => OpcodesAccept R slack w rest ((m.blockID, m.init.map w) :: mem)
  | .memoryOp m :: rest, mem => ∃ entries, mem.lookup m.blockID = some entries ∧
      if m.isWrite then
        OpcodesAccept R slack w rest
          ((m.blockID, writeAt (w m.index) (w m.value) entries) :: mem)
      else
        (∃ k, (entries ++ slack m.blockID rest)[k]? = some (w m.value) ∧ w m.index = (k : Nat)) ∧
          OpcodesAccept R slack w rest mem
  | .brilligCall _ :: rest, mem => OpcodesAccept R slack w rest mem
  | .call _ :: rest, mem => OpcodesAccept R slack w rest mem

/-- A read sees the entries of its block, as the program means it. -/
def noSlack : Slack := fun _ _ => []

/-- The block is written before it is initialised again. -/
def writtenLater (block : Nat) : List Opcode → Bool
  | [] => false
  | .memoryOp m :: rest => (m.blockID = block && m.isWrite) || writtenLater block rest
  | .memoryInit m :: rest => if m.blockID = block then false else writtenLater block rest
  | _ :: rest => writtenLater block rest

/-- A write appends a zero to the table it replaces, which earlier reads of that table can see. -/
def dummySlack : Slack := fun block rest => if writtenLater block rest then [0] else []

/-! ## Frames -/

/-- A call: the stack item of its own circuit, and the calls it makes in opcode order. -/
inductive Frame where
  | node (item : StackItem) (calls : List Frame)

namespace Frame

def item : Frame → StackItem
  | node item _ => item

def calls : Frame → List Frame
  | node _ calls => calls

mutual

/-- The witness stack of an execution: the items of the calls, then the caller's. -/
def postorder : Frame → List StackItem
  | node item calls => postorderAll calls ++ [item]

def postorderAll : List Frame → List StackItem
  | [] => []
  | f :: fs => postorder f ++ postorderAll fs

end

end Frame

variable (p : Program)

/-- The circuit of a stack item. -/
def StackItem.circuit (item : StackItem) : Circuit := (p.functions[item.circuitIndex]?).getD {}

/-- The values of a stack item's own slots. -/
def StackItem.values (item : StackItem) : List Scalar :=
  (List.range ((item.circuit p).currentWitnessIndex + 1)).map item.value

namespace Frame

mutual

/-- The values of the slots of a frame, its calls' first. -/
def slots : Frame → List Scalar
  | node item calls => slotsAll calls ++ item.values p

def slotsAll : List Frame → List Scalar
  | [] => []
  | f :: fs => slots f ++ slotsAll fs

end

/-- The values a circuit is called with, and those it returns. -/
def inputs (f : Frame) : List Scalar :=
  let c := f.item.circuit p
  (c.privateParameters.union c.publicParameters).1.map f.item.value

def outputs (f : Frame) : List Scalar := (f.item.circuit p).returnValues.1.map f.item.value

mutual

/-- The frame is one of the function `id`, with a frame for each of its calls. -/
def Fits : Nat → Frame → Prop
  | id, node item calls => item.circuitIndex = id ∧ id < p.functions.length ∧
      FitsAll (item.circuit p).calls calls

def FitsAll : List Call → List Frame → Prop
  | [], [] => True
  | c :: cs, f :: fs => Fits c.id f ∧ FitsAll cs fs
  | _, _ => False

end

variable (R : Gadgets) (slack : Slack)

mutual

/-- The opcodes of every frame accept its values, and a call's values are those of its frame. -/
def Accepted : Frame → Prop
  | node item calls =>
    OpcodesAccept R slack item.value (item.circuit p).opcodes [] ∧
      AcceptedAll item.value (item.circuit p).calls calls

def AcceptedAll (w : Valuation) : List Call → List Frame → Prop
  | c :: cs, f :: fs => (c.inputs.map w = f.inputs p ∧ c.outputs.map w = f.outputs p) ∧
      Accepted f ∧ AcceptedAll w cs fs
  | _, _ => True

end

/-- **The program accepts the execution.** -/
abbrev Holds (f : Frame) : Prop := f.Accepted p R noSlack

end Frame

end Nortia.Sunspot
