import Formulary.Operator
import Formulary.Value.Text

/-! # Arithmetic

Integers wrap around at sixty-four bits; as soon as one operand is a double both are. Division and
power always give doubles. `+` also joins texts.
-/

namespace Formulary

namespace Value

/-- An operation on two numbers of the same type; anything else gives `unknown`. -/
def arithmetic (ints : Int64 → Int64 → Value) (floats : Float → Float → Value) (v w : Value) :
    Value :=
  match numericPair? v w with
  | some (.ints i j) => ints i j
  | some (.floats x y) => floats x y
  | none => unknown

/-- Joins texts if either side is one, and adds numbers otherwise. -/
def add (v w : Value) : Value :=
  match v, w with
  | string s, w => string (s ++ w.plainText)
  | v, string t => string (v.plainText ++ t)
  | v, w => arithmetic (fun i j => int (i + j)) (fun x y => float (x + y)) v w

def subtract : Value → Value → Value :=
  arithmetic (fun i j => int (i - j)) (fun x y => float (x - y))

/-- Changes the sign of a number; the least integer stays as it is. -/
def negate : Value → Value
  | int i => int (-i)
  | float x => float (-x)
  | _ => unknown

def multiply : Value → Value → Value :=
  arithmetic (fun i j => int (i * j)) (fun x y => float (x * y))

def divide : Value → Value → Value :=
  arithmetic (fun i j => float (promote i / promote j)) (fun x y => float (x / y))

/-- The remainder of a division that is rounded towards zero, unless the divisor is zero or the
quotient leaves the sixty-four bits. -/
def checkedRemainder (i j : Int64) : Value :=
  if j = 0 ∨ (i = Int64.minValue ∧ j = -1) then unknown else int (i % j)

def modulo : Value → Value → Value :=
  arithmetic checkedRemainder (fun x y => float (floatRemainder x y))

def power : Value → Value → Value :=
  arithmetic (fun i j => float ((promote i).pow (promote j))) (fun x y => float (x.pow y))

end Value

namespace Operator

def addition : Operator where
  symbol := "+"
  name := "Addition"
  priority := 6
  binary := true
  evaluateBinary := Value.add

def subtraction : Operator where
  symbol := "-"
  name := "Subtraction"
  priority := 6
  unary := true
  binary := true
  evaluateUnary := Value.negate
  evaluateBinary := Value.subtract

def multiplication : Operator where
  symbol := "*"
  name := "Multiplication"
  priority := 5
  binary := true
  evaluateBinary := Value.multiply

def division : Operator where
  symbol := "/"
  name := "Division"
  priority := 5
  binary := true
  evaluateBinary := Value.divide

def modulo : Operator where
  symbol := "%"
  name := "Modulo"
  priority := 5
  binary := true
  evaluateBinary := Value.modulo

def power : Operator where
  symbol := "^"
  name := "Power"
  priority := 2
  associativity := .right
  binary := true
  evaluateBinary := Value.power

end Operator

end Formulary
