import Nortia.Sunspot.Compile

/-!
# Parameters, the constraint system and the witness vector

`Compile` allocates the public parameters first and a private variable for every other slot.
`getWitness` lists the values of a witness stack in the same order.
-/

namespace Nortia.Sunspot

/-! ## Parameters -/

inductive ParameterVisibility where
  | pub
  | priv
  | databus
deriving DecidableEq, Repr

inductive ScalarKind where
  | field
  | boolean
  | integer
  | float
  | string
deriving DecidableEq, Repr

mutual

inductive ParameterType where
  | scalar (kind : ScalarKind)
  | array (length : Int) (type : ParameterType)
  | tuple (fields : TypeFields)
  | struct (fields : TypeFields)

/-- The fields of a struct; those of a tuple have no names. -/
inductive TypeFields where
  | none
  | field (name : String) (type : ParameterType) (rest : TypeFields)

end

structure Parameter where
  name : String
  type : ParameterType
  visibility : ParameterVisibility

structure ParamInfo where
  visibility : ParameterVisibility
  name : String
deriving DecidableEq, Repr

mutual

/-- `flattenParam`: a parameter as its scalars. -/
def flattenParam (vis : ParameterVisibility) (name : String) : ParameterType → List ParamInfo
  | .scalar _ => [⟨vis, name⟩]
  | .array length type =>
    (List.range length.toNat).flatMap fun i => flattenParam vis s!"{name}[{i}]" type
  | .tuple fields => flattenTuple vis name 0 fields
  | .struct fields => flattenStruct vis name fields

def flattenTuple (vis : ParameterVisibility) (name : String) (index : Nat) :
    TypeFields → List ParamInfo
  | .none => []
  | .field _ type rest =>
    flattenParam vis s!"{name}_{index}" type ++ flattenTuple vis name (index + 1) rest

def flattenStruct (vis : ParameterVisibility) (name : String) : TypeFields → List ParamInfo
  | .none => []
  | .field fieldName type rest =>
    flattenParam vis s!"{name}.{fieldName}" type ++ flattenStruct vis name rest

end

/-- `ACIRABI.Params` -/
def params (parameters : List Parameter) : List ParamInfo :=
  parameters.flatMap fun param => flattenParam param.visibility param.name param.type

/-! ## The constraint system -/

/-- The public parameters get their variables, from the `index`-th on. -/
def allocatePublic (mainStart : Nat) : Nat → List ParamInfo → Witnesses → Build Witnesses
  | _, [], ws => pure ws
  | index, param :: rest, ws => do
    if param.visibility = .pub then
      let v ← publicVariable
      allocatePublic mainStart (index + 1) rest
        (Function.update ws ((index + mainStart) % 2 ^ 32) (some v))
    else allocatePublic mainStart (index + 1) rest ws

/-- A private variable for each slot that has none. -/
def allocateSecret : List Nat → Witnesses → Build Witnesses
  | [], ws => pure ws
  | i :: rest, ws =>
    match ws i with
    | some _ => allocateSecret rest ws
    | none => do
      let v ← secretVariable
      allocateSecret rest (Function.update ws i (some v))

/-- The part of `ACIR` that is compiled. -/
structure ACIR where
  abi : List Parameter
  program : Program

/-- The calls `Compile` makes. -/
def build (params : List ParamInfo) (p : Program) : Build Unit := do
  let (totalSlots, mainStart) ← StateT.lift p.witnessLayout
  let ws ← allocatePublic mainStart 0 params fun _ => none
  let ws ← allocateSecret (List.range totalSlots) ws
  p.define ws

def ACIR.compile {System : Type} (F : Frontend System) (acir : ACIR) :
    Except CompileError System := do
  let (_, calls) ← (build (params acir.abi) acir.program).run {}
  match F.compile calls with
  | .ok system => .ok system
  | .error message => .error (.frontend message)

/-! ## The witness vector -/

inductive WitnessError where
  /-- `failed to fill witness: {message}` -/
  | fill (message : String)
  /-- A panic: an index out of range. -/
  | panic
  /-- A `uint32` is always at most `2 ^ 32 - 1`: the loop over the slots does not end. -/
  | endless
deriving DecidableEq, Repr

/-- The value at a slot of a stack item, zero where the file has none. -/
def StackItem.value (item : StackItem) (j : Witness) : Scalar :=
  match item.witnessMap.lookup j with
  | some value => value
  | none => 0

/-- The public values, from the `index`-th parameter on; one that is missing is left out. -/
def publicValues (outer : StackItem) : Nat → List ParamInfo → List Scalar
  | _, [] => []
  | index, param :: rest =>
    if param.visibility = .pub then
      match outer.witnessMap.lookup index with
      | some value => (value : Scalar) :: publicValues outer (index + 1) rest
      | none => publicValues outer (index + 1) rest
    else publicValues outer (index + 1) rest

/-- A slot of the outermost circuit that holds a public parameter. -/
def skipKey (params : List ParamInfo) (j : Witness) : Bool :=
  params[j]?.any fun param => param.visibility = .pub

/-- The slots that the loop over `0..=CurrentWitnessIndex` goes through. -/
def Circuit.ownSlots (c : Circuit) : Except WitnessError (List Witness) :=
  if c.currentWitnessIndex + 1 < 2 ^ 32 then .ok (List.range (c.currentWitnessIndex + 1))
  else .error .endless

/-- The values behind the public ones, item by item. -/
def privateValues (p : Program) (params : List ParamInfo) :
    List StackItem → Except WitnessError (List Scalar)
  | [] => .ok []
  | item :: rest =>
    match p.functions[item.circuitIndex]? with
    | none => .error .panic
    | some c => do
      let slots ← c.ownSlots
      -- the last item is the outermost circuit
      let slots := if rest.isEmpty then slots.filter fun j => !skipKey params j else slots
      let values ← privateValues p params rest
      pure (slots.map item.value ++ values)

def countSlots (p : Program) : List StackItem → Except WitnessError Nat
  | [] => .ok 0
  | item :: rest =>
    match p.functions[item.circuitIndex]? with
    | none => .error .panic
    | some c => do
      let n ← countSlots p rest
      pure (c.currentWitnessIndex + 1 + n)

def ACIR.getWitness (fill : Fill) (acir : ACIR) (witnessStack : List StackItem) :
    Except WitnessError WitnessVector := do
  let params := params acir.abi
  let countPublic := (params.filter fun param => param.visibility = .pub).length
  let slots ← countSlots acir.program witnessStack
  let pubs ← match witnessStack.getLast? with
    | none => if countPublic = 0 then .ok [] else .error .panic
    | some outer => .ok (publicValues outer 0 params)
  let values ← privateValues acir.program params witnessStack
  match fill countPublic (slots - countPublic) (pubs ++ values) with
  | .ok witness => .ok witness
  | .error message => .error (.fill message)

end Nortia.Sunspot
