/-! # Why a text is not a formula

Positions are byte offsets into the text. Of all failures met while reading, the one furthest into
the text is reported.
-/

namespace Formulary

/-- Why a text was rejected. -/
inductive ParseError where
  /-- Nothing but blanks. -/
  | emptyExpression
  | expectedOperand (position : Nat)
  /-- A quote without a partner; the position is that of the quote. -/
  | unterminatedString (position : Nat)
  /-- A name after `#` that is not in the table; the position is that of the `#`. -/
  | unknownPrecompiled (name : String) (position : Nat)
  | expected (character : Char) (position : Nat)
  /-- A member operator without a name after it. -/
  | expectedMember (position : Nat)
  /-- An operator after another of the same priority that cannot be chained. -/
  | nonAssociative (operator : String) (position : Nat)
  /-- Text left over after a whole formula, cut short. -/
  | unexpectedInput (found : String) (position : Nat)
deriving DecidableEq, Repr

namespace ParseError

/-- Where the text went wrong. -/
def position? : ParseError → Option Nat
  | emptyExpression => none
  | expectedOperand p => some p
  | unterminatedString p => some p
  | unknownPrecompiled _ p => some p
  | expected _ p => some p
  | expectedMember p => some p
  | nonAssociative _ p => some p
  | unexpectedInput _ p => some p

/-- The wording. -/
def message : ParseError → String
  | emptyExpression => "Empty expression"
  | expectedOperand p => "Expected operand at position " ++ toString p
  | unterminatedString p => "Unterminated string literal starting at position " ++ toString p
  | unknownPrecompiled name p =>
    "Unknown precompiled expression '#" ++ name ++ "' at position " ++ toString p
  | expected c p => "Expected '" ++ c.toString ++ "' at position " ++ toString p
  | expectedMember p => "Expected member name after '.' at position " ++ toString p
  | nonAssociative operator p =>
    "Operator '" ++ operator ++ "' cannot be chained at position " ++ toString p ++
      "; add parentheses"
  | unexpectedInput found p => "Unexpected '" ++ found ++ "' at position " ++ toString p

end ParseError

end Formulary
