import Formulary.Operator

/-! # Comparison and logic

Equality always answers; an order only between two numbers or two strings. `&&` and `||` answer one
of their operands.
-/

namespace Formulary

namespace Value

/-- Whether the order of two values is one of those accepted. -/
def ordered (accepts : Ordering → Bool) (v w : Value) : Value :=
  match v.compare? w with
  | some ordering => bool (accepts ordering)
  | none => unknown

end Value

namespace Operator

def equality : Operator where
  symbol := "=="
  name := "Equality"
  priority := 9
  associativity := .nonAssociative
  binary := true
  evaluateBinary v w := .bool (v.looseEq w)

def inequality : Operator where
  symbol := "!="
  name := "Inequality"
  priority := 9
  associativity := .nonAssociative
  binary := true
  evaluateBinary v w := .bool (!v.looseEq w)

/-- An operator that asks for an order. -/
def ordering (symbol name : String) (accepts : Ordering → Bool) : Operator where
  symbol := symbol
  name := name
  priority := 8
  associativity := .nonAssociative
  binary := true
  evaluateBinary := Value.ordered accepts

def less : Operator := ordering "<" "Less Than" Ordering.isLT

def lessOrEqual : Operator := ordering "<=" "Less Than Or Equal" Ordering.isLE

def greater : Operator := ordering ">" "Greater Than" Ordering.isGT

def greaterOrEqual : Operator := ordering ">=" "Greater Than Or Equal" Ordering.isGE

def negation : Operator where
  symbol := "!"
  name := "Logical Not"
  priority := prefixPriority
  unary := true
  evaluateUnary v := .bool (!v.truthy)

def disjunction : Operator where
  symbol := "||"
  name := "Logical Or"
  priority := 14
  associativity := .nonAssociative
  form := .or
  binary := true
  evaluateBinary v w := if v.truthy then v else w

def conjunction : Operator where
  symbol := "&&"
  name := "Logical And"
  priority := 13
  associativity := .nonAssociative
  form := .and
  binary := true
  evaluateBinary v w := if v.truthy then w else v

end Operator

end Formulary
