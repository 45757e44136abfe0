import Formulary.Json

/-! # Values

What constants, lookups and operators produce. An operation without a rule for its operands answers
`unknown` instead of failing. Objects are handles: the language passes them on and compares them by
identity, and only their host looks inside.
-/

namespace Formulary

/-- A reference to something that a host owns. -/
inductive Handle where
  /-- A container of a JSON document. Every look-up hands out a handle with a serial of its own. -/
  | node (serial : Nat) (document : Json)
  /-- An object that its host knows by a kind and a name. -/
  | external (kind name : String)
deriving Inhabited

namespace Handle

/-- The kind of object, as shown in texts. -/
def kind : Handle → String
  | node _ _ => "JsonNode"
  | external kind _ => kind

/-- Whether two handles are the same object. -/
def same : Handle → Handle → Bool
  | node i _, node j _ => i == j
  | external k a, external l b => k == l && a == b
  | _, _ => false

end Handle

/-- Operand and result of every operation. -/
inductive Value where
  /-- The result of an operation without a rule, or of a look-up that found nothing. -/
  | unknown
  /-- Explicit absence. -/
  | null
  | bool (b : Bool)
  | int (i : Int64)
  | float (x : Float)
  | string (s : String)
  | object (handle : Handle)
deriving Inhabited

/-- Two numbers brought to a common type. -/
inductive NumericPair where
  | ints (left right : Int64)
  | floats (left right : Float)

/-- The double nearest to an integer. -/
def promote (i : Int64) : Float :=
  if i < 0 then -(UInt64.ofNat i.toInt.natAbs).toFloat else (UInt64.ofNat i.toInt.natAbs).toFloat

namespace Value

/-- The name of the variant. -/
def typeName : Value → String
  | unknown => "Unknown"
  | null => "Null"
  | bool _ => "Bool"
  | int _ => "Int"
  | float _ => "Float"
  | string _ => "String"
  | object _ => "Object"

/-- What counts as true: `unknown`, `null`, `false`, zero and the empty string do not. -/
def truthy : Value → Bool
  | unknown => false
  | null => false
  | bool b => b
  | int i => i != 0
  | float x => x != 0
  | string s => !s.isEmpty
  | object _ => true

def isUnknown : Value → Bool
  | unknown => true
  | _ => false

def isNull : Value → Bool
  | null => true
  | _ => false

def isInt : Value → Bool
  | int _ => true
  | _ => false

def isNumeric : Value → Bool
  | int _ => true
  | float _ => true
  | _ => false

/-- The number as a double. -/
def toFloat? : Value → Option Float
  | int i => some (promote i)
  | float x => some x
  | _ => none

/-- Both numbers as integers if they are, and as doubles otherwise. -/
def numericPair? : Value → Value → Option NumericPair
  | int i, int j => some (.ints i j)
  | int i, float y => some (.floats (promote i) y)
  | float x, int j => some (.floats x (promote j))
  | float x, float y => some (.floats x y)
  | _, _ => none

/-- Equality of the same variant: doubles by value, so that a NaN differs from itself, and objects
by identity. -/
def same : Value → Value → Bool
  | unknown, unknown => true
  | null, null => true
  | bool a, bool b => a == b
  | int i, int j => i == j
  | float x, float y => x == y
  | string s, string t => s == t
  | object a, object b => a.same b
  | _, _ => false

/-- Equality in formulas: that of the same variant, but numbers are compared as numbers. -/
def looseEq (v w : Value) : Bool :=
  match numericPair? v w with
  | some (.ints i j) => i == j
  | some (.floats x y) => x == y
  | none => v.same w

/-- The order of two doubles; a NaN has none. -/
def compareFloats? (x y : Float) : Option Ordering :=
  if x < y then some .lt
  else if x == y then some .eq
  else if y < x then some .gt
  else none

/-- The order of two numbers or of two strings, the latter by code points. -/
def compare? (v w : Value) : Option Ordering :=
  match numericPair? v w with
  | some (.ints i j) => some (compare i.toInt j.toInt)
  | some (.floats x y) => compareFloats? x y
  | none =>
    match v, w with
    | string s, string t => some (compare s t)
    | _, _ => none

end Value

end Formulary
