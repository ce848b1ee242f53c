/-!
# JSON values

What `JSON.parse` yields, up to the text it was read from. An object is the list of its fields, and
a field that a writer leaves undefined is left out of it.
-/

namespace Lib

inductive Json
  | null
  | bool (value : Bool)
  | number (value : Rat)
  | string (value : String)
  | array (items : List Json)
  | object (fields : List (String × Json))

namespace Json

/-- A field of an object; anything else has none. -/
def field (value : Json) (name : String) : Option Json :=
  match value with
  | .object fields => fields.lookup name
  | _ => none

/-- `typeof value === "string"`. -/
def asString : Json → Option String
  | .string value => some value
  | _ => none

/-- `typeof value === "boolean"`. -/
def asBool : Json → Option Bool
  | .bool value => some value
  | _ => none

/-- `Array.isArray`. -/
def asArray : Json → Option (List Json)
  | .array items => some items
  | _ => none

/-- `typeof value === "object"`, and not null. -/
def isObject : Json → Bool
  | .object _ => true
  | .array _ => true
  | _ => false

def stringField (value : Json) (name : String) : Option String := (value.field name).bind asString

/-- A field that is written only when it is defined. -/
def optional (name : String) : Option Json → List (String × Json)
  | some value => [(name, value)]
  | none => []

/-! ## Reading what was written -/

variable {name other : String} {value : Option Json} {rest : List (String × Json)}

@[simp] theorem lookup_optional_self :
    (optional name value ++ rest).lookup name = value.or (rest.lookup name) := by
  cases value with
  | none => rfl
  | some value => simp [optional]

theorem lookup_optional_ne (h : other ≠ name) :
    (optional name value ++ rest).lookup other = rest.lookup other := by
  cases value with
  | none => rfl
  | some value =>
    have hne : (other == name) = false := beq_false_of_ne h
    simp [optional, List.lookup_cons, hne]

@[simp] theorem lookup_last_optional_self : (optional name value).lookup name = value := by
  cases value <;> simp [optional]

theorem lookup_last_optional_ne (h : other ≠ name) : (optional name value).lookup other = none := by
  have happend := @lookup_optional_ne name other value [] h
  rwa [List.append_nil] at happend

end Json

end Lib
