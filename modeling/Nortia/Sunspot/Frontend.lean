import Nortia.Circuit.Field

/-!
# The frontend

gnark is a parameter, a `Frontend`: it takes the calls that a compilation makes of it, and answers with
a constraint system or fails. `Calls` records them; a variable that a call returned is known by the
calls that led to it. What gnark's documentation says of each call, with lookup tables checked against
all rows they have in the end, is a hypothesis on the frontend (`Frontend.Documented`).
-/

namespace Nortia.Sunspot

/-- `fr.Element` -/
abbrev Scalar := Nortia.Field

/-- A value the solver assigns: an input of the circuit, a wire of a hint or a lookup, or the wire a
caller names by its number. -/
inductive Wire where
  | pub (i : Nat)
  | secret (i : Nat)
  | inner (i : Nat)
  | numbered (id : Nat)
deriving DecidableEq, Repr

/-- `frontend.Variable`, by the calls that returned it. -/
inductive Variable where
  | constant (c : Scalar)
  | wire (w : Wire)
  | add (a b : Variable)
  | sub (a b : Variable)
  | mul (a b : Variable)
  | isZero (a : Variable)
  | select (b x y : Variable)
deriving DecidableEq, Repr

inductive BitOp where
  | and
  | xor
deriving DecidableEq, Repr

/-- An argument of a gadget. -/
inductive Arg (α : Type) where
  | one (x : α)
  | many (xs : List α)
  | number (n : Nat)
deriving DecidableEq, Repr

/-- The calls that ask something of the values of variables. -/
inductive Constraint where
  | assertIsEqual (a b : Variable)
  /-- `result` is the entry at `index` of the table. -/
  | lookup (table : Nat) (index result : Variable)
  /-- `rangecheck.Check` -/
  | rangeCheck (v : Variable) (bits : Nat)
  /-- `AssertEq(ValueOf(out), op(ValueOf(lhs), ValueOf(rhs)))` of 64-bit values. -/
  | bitwise (op : BitOp) (lhs rhs out : Variable)
  | gadget (name : String) (args : List (Arg Variable))
deriving DecidableEq, Repr

/-- The calls made so far: how many variables of each sort they returned, the wires they named by
number, the rows they inserted into each table, and what they asked of the values. -/
structure Calls where
  pubs : Nat := 0
  secrets : Nat := 0
  inners : Nat := 0
  named : List Nat := []
  tables : List (List Variable) := []
  constraints : List Constraint := []
deriving DecidableEq, Repr

inductive CompileError where
  /-- `unable to get circuit, index {id} out of range` -/
  | outOfRange (id : Nat)
  /-- `witness {w} not found in witnesses map` -/
  | witness (w : Nat)
  /-- `function input has neither constant nor witness set` -/
  | neither
  /-- `circuit: missing witness for slot {slot} (global {global})` -/
  | slot (slot global : Nat)
  /-- `input count mismatch: subcircuit {id} requires more inputs than are given` -/
  | inputs (id : Nat)
  /-- `output count mismatch: subcircuit {id} provides more outputs than expected` -/
  | outputs (id : Nat)
  /-- A panic: a `nil` variable or table, or an index out of range. -/
  | panic
  /-- A panic: the stack is exhausted. -/
  | depth
  /-- The frontend refuses a call, or the calls together. -/
  | frontend (message : String)
deriving DecidableEq, Repr

/-- What makes calls. -/
abbrev Build := StateT Calls (Except CompileError)

def crash {α : Type} (e : CompileError) : Build α := fun _ => .error e

def publicVariable : Build Variable := fun b =>
  .ok (.wire (.pub b.pubs), { b with pubs := b.pubs + 1 })

def secretVariable : Build Variable := fun b =>
  .ok (.wire (.secret b.secrets), { b with secrets := b.secrets + 1 })

/-- A fresh wire, the result of a hint or a lookup. -/
def innerVariable : Build Variable := fun b =>
  .ok (.wire (.inner b.inners), { b with inners := b.inners + 1 })

/-- `InternalVariable` -/
def internalVariable (id : Nat) : Build Variable := fun b =>
  .ok (.wire (.numbered id), { b with named := b.named ++ [id] })

def constrain (c : Constraint) : Build Unit := fun b =>
  .ok ((), { b with constraints := b.constraints ++ [c] })

/-! ## Lookup tables -/

/-- `logderivlookup.New` -/
def newTable : Build Nat := fun b =>
  .ok (b.tables.length, { b with tables := b.tables ++ [[]] })

/-- `Insert`: the index of the new entry. -/
def insert (table : Nat) (v : Variable) : Build Nat := fun b =>
  match b.tables[table]? with
  | none => .error .panic
  | some entries => .ok (entries.length, { b with tables := b.tables.set table (entries ++ [v]) })

/-- `Lookup` of one index. -/
def lookup (table : Nat) (index : Variable) : Build Variable := do
  let result ← innerVariable
  constrain (.lookup table index result)
  pure result

/-! ## What the calls ask -/

/-- The value of a variable, where the wires have these. -/
def Variable.eval (σ : Wire → Scalar) : Variable → Scalar
  | .constant c => c
  | .wire w => σ w
  | .add a b => a.eval σ + b.eval σ
  | .sub a b => a.eval σ - b.eval σ
  | .mul a b => a.eval σ * b.eval σ
  | .isZero a => if a.eval σ = 0 then 1 else 0
  | .select b x y => y.eval σ + b.eval σ * (x.eval σ - y.eval σ)

def BitOp.apply : BitOp → Nat → Nat → Nat
  | .and => (· &&& ·)
  | .xor => (· ^^^ ·)

def Arg.map {α β : Type} (f : α → β) : Arg α → Arg β
  | .one x => .one (f x)
  | .many xs => .many (xs.map f)
  | .number n => .number n

/-- What the other gadgets ask of the values of their arguments. -/
abbrev Gadgets := String → List (Arg Scalar) → Prop

/-- A constraint holds, where the tables have these rows. -/
def Constraint.Holds (R : Gadgets) (tables : List (List Variable)) (σ : Wire → Scalar) :
    Constraint → Prop
  | .assertIsEqual a b => a.eval σ = b.eval σ
  | .lookup table index result => ∃ entries k entry, tables[table]? = some entries ∧
      entries[k]? = some entry ∧ index.eval σ = (k : Nat) ∧ result.eval σ = entry.eval σ
  | .rangeCheck v bits => (v.eval σ).val < 2 ^ bits
  | .bitwise op lhs rhs out => (lhs.eval σ).val < 2 ^ 64 ∧ (rhs.eval σ).val < 2 ^ 64 ∧
      (out.eval σ).val < 2 ^ 64 ∧ (out.eval σ).val = op.apply (lhs.eval σ).val (rhs.eval σ).val
  | .gadget name args => R name (args.map (Arg.map (·.eval σ)))

/-- The outer wires from `σ`, those of hints from `inner`. -/
def withInner (σ : Wire → Scalar) (inner : Nat → Scalar) : Wire → Scalar
  | .inner i => inner i
  | w => σ w

/-- gnark's `witness.Witness`. -/
structure WitnessVector where
  pubs : List Scalar
  secrets : List Scalar
deriving DecidableEq

/-- The values of a witness vector's variables. -/
def WitnessVector.assignment (v : WitnessVector) : Wire → Scalar
  | .pub i => (v.pubs[i]?).getD 0
  | .secret i => (v.secrets[i]?).getD 0
  | _ => 0

/-- The wires of hints and lookups can be assigned so that everything asked holds, with the tables as
they are in the end. -/
def Calls.SolvedBy (R : Gadgets) (calls : Calls) (v : WitnessVector) : Prop :=
  ∃ inner, ∀ c ∈ calls.constraints, c.Holds R calls.tables (withInner v.assignment inner)

/-! ## gnark -/

/-- A frontend with its constraint systems. -/
structure Frontend (System : Type) where
  /-- `frontend.CompileGeneric` of a circuit that makes these calls. -/
  compile : Calls → Except String System
  publicVariables : System → Nat
  secretVariables : System → Nat
  /-- A vector satisfies the system, with some values of its internal variables. -/
  isSolved : System → WitnessVector → Prop

/-- What gnark documents: a constraint system has the variables that were asked for, and it is solved
by the vectors of its length under which everything that was asked can hold. Which wire a number names
is not documented. -/
structure Frontend.Documented {System : Type} (F : Frontend System) (R : Gadgets) : Prop where
  allocated : ∀ calls system, F.compile calls = .ok system →
    F.publicVariables system = calls.pubs ∧ F.secretVariables system = calls.secrets
  solved : ∀ calls system v, F.compile calls = .ok system → calls.named = [] →
    v.pubs.length = calls.pubs → v.secrets.length = calls.secrets →
      (F.isSolved system v ↔ calls.SolvedBy R v)

/-- `witness.New` and `Fill`: how many public and secret values there are to be, and the values. -/
abbrev Fill := Int → Int → List Scalar → Except String WitnessVector

/-- What gnark documents: the values are as many as announced, the public ones first. -/
def Fill.Documented (fill : Fill) : Prop :=
  ∀ (nbPublic nbSecret : Nat) (values : List Scalar) (v : WitnessVector),
    fill nbPublic nbSecret values = .ok v ↔ values.length = nbPublic + nbSecret ∧
      v = ⟨values.take nbPublic, values.drop nbPublic⟩

end Nortia.Sunspot
