/-! # JSON documents

Documents as trees. Whole numbers keep sixty-four bits on either side of zero; every other number is
a double. The fields of an object are listed in ascending order of their names, each name once.
-/

namespace Formulary

namespace Json

/-- A number of a document. -/
inductive Number where
  /-- A whole number that is not negative. -/
  | natural (n : UInt64)
  /-- A whole number below zero. -/
  | negative (i : Int64)
  | double (x : Float)
deriving DecidableEq

/-- The number of a signed integer. -/
def Number.ofInt64 (i : Int64) : Number :=
  if i < 0 then .negative i else .natural i.toUInt64

end Json

/-- A JSON document. -/
inductive Json where
  | null
  | bool (b : Bool)
  | number (n : Json.Number)
  | string (s : String)
  | array (items : List Json)
  | object (fields : List (String × Json))
deriving Inhabited

namespace Json

/-- The value of a field, if there is one of that name. -/
def field? (fields : List (String × Json)) (name : String) : Option Json :=
  (fields.find? fun field => field.1 == name).map Prod.snd

/-- Adds a field in its place, or replaces the value of the field of that name. -/
def insertField (name : String) (value : Json) : List (String × Json) → List (String × Json)
  | [] => [(name, value)]
  | (other, old) :: rest =>
    if name < other then (name, value) :: (other, old) :: rest
    else if name == other then (name, value) :: rest
    else (other, old) :: insertField name value rest

/-- The field of an object; other documents have none. -/
def get? : Json → String → Option Json
  | object fields, name => field? fields name
  | _, _ => none

mutual

/-- Every object in the document lists its fields in ascending order, each name once. -/
def WellFormed : Json → Prop
  | null => True
  | bool _ => True
  | number _ => True
  | string _ => True
  | array items => AllWellFormed items
  | object fields => (fields.map Prod.fst).Pairwise (· < ·) ∧ FieldsWellFormed fields

def AllWellFormed : List Json → Prop
  | [] => True
  | item :: rest => WellFormed item ∧ AllWellFormed rest

def FieldsWellFormed : List (String × Json) → Prop
  | [] => True
  | (_, item) :: rest => WellFormed item ∧ FieldsWellFormed rest

end

end Json

end Formulary
