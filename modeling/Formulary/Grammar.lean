import Formulary.FunctionTable
import Formulary.Function.Mathematics
import Formulary.OperatorTable
import Formulary.Reading

/-! # Reading formulas

Precedence climbing driven by an operator table. An operand is followed by calls, indexings and
member accesses, which bind tightest, and by infix operators up to a priority limit. An alternative
that fails puts the cursor back; its failures stay on record, and the first of those furthest into
the text is reported.

Readers call each other in a circle. The circle is cut by a bound on the depth of nested
expressions: each nested expression starts further into the text, so the length of the text is bound
enough unless there is a prefix operator without a symbol.
-/

namespace Formulary

/-- What a text is read with. -/
structure Grammar where
  operators : OperatorTable
  functions : FunctionTable

namespace Grammar

open Reading

/-- The limit of an expression that stands by itself. -/
def topLimit : Int32 := Int32.maxValue

/-- How many characters of the remaining text an error shows. -/
def snippetLength : Nat := 16

/-- The built-in operators and functions. -/
def standard : Grammar := ⟨.standard, .standard⟩

/-- The constants that look like names. -/
def keyword? : String → Option Value
  | "true" => some (.bool true)
  | "false" => some (.bool false)
  | "null" => some .null
  | "unknown" => some .unknown
  | _ => none

/-- What a name stands for by itself. -/
def wordFormula (name : String) : Formula :=
  match keyword? name with
  | some value => .constant value
  | none => .identifier name

section Productions

variable (g : Grammar) (expression : Int32 → Reading Formula)

/-- `#name` -/
def precompiled : Reading Formula := do
  let start ← cursor
  if !(← eat '#') then reject
  match ← attempt (token Cursor.identifier?) with
  | none => giveUp start
  | some name =>
    match g.functions.precompiled? name with
    | some found => accept (.precompiled found)
    | none =>
      note (.unknownPrecompiled name start.position)
      giveUp start

/-- `(expression)` -/
def parenthesis : Reading Formula := do
  let start ← cursor
  match g.operators.structural .parenthesis with
  | none => reject
  | some operator =>
    if !(← eat '(') then reject
    let inner ← attempt (expression topLimit)
    skipBlanks
    let closed ← if inner.isSome then eat ')' else accept false
    match inner, closed with
    | some inner, true => accept (.node operator [inner])
    | _, _ =>
      note (.expected ')' (← cursor).position)
      giveUp start

/-- A constant, a name, `#name` or a parenthesis, told apart by the first character. -/
def operandBody : Reading Formula := do
  let start ← cursor
  match start.peek? with
  | some '#' => g.precompiled
  | some '(' => g.parenthesis expression
  | some '\'' | some '"' =>
    match ← attempt (token Cursor.quotedString?) with
    | some text => accept (.constant (.string text))
    | none =>
      note (.unterminatedString start.position)
      reject
  | _ =>
    match ← attempt (token Cursor.number?) with
    | some value => accept (.constant value)
    | none => do
      let name ← token Cursor.identifier?
      accept (wordFormula name)

/-- An operand with blanks before it. -/
def operand : Reading Formula := do
  let start ← cursor
  skipBlanks
  let position := (← cursor).position
  match ← attempt (g.operandBody expression) with
  | some operand => accept operand
  | none =>
    note (.expectedOperand position)
    giveUp start

/-- An operand, or a prefix operator with one. -/
def prefixed : Reading Formula := do
  match ← attempt (g.operand expression) with
  | some operand => accept operand
  | none =>
    let start ← cursor
    skipBlanks
    let here ← cursor
    match g.operators.matchPrefix? here.rest with
    | none => giveUp start
    | some operator =>
      moveTo (here.advance operator.width)
      match ← attempt (expression prefixPriority) with
      | some operand => accept (.node operator [operand])
      | none => giveUp start

/-- Expressions separated by commas up to a closing character; at most as many as the first
argument. -/
def argumentsFrom (close : Char) : Nat → Reading (List Formula)
  | 0 => exhaust
  | fuel + 1 => do
    let argument ← expression topLimit
    skipBlanks
    if ← eat ',' then
      let rest ← argumentsFrom close fuel
      accept (argument :: rest)
    else if ← eat close then accept [argument]
    else
      note (.expected close (← cursor).position)
      reject

/-- Expressions separated by commas up to a closing character, after the opening one. -/
def arguments (close : Char) (allowEmpty : Bool) : Reading (List Formula) := do
  skipBlanks
  let empty ← if allowEmpty then eat close else accept false
  if empty then accept []
  else argumentsFrom expression close ((← cursor).rest.length + 1)

/-- The operands and the native function of a call, for a target that can be called. -/
def callShape (callee : Formula) :
    Option (Form × (List Formula → List Formula) × Option (Native Formula)) :=
  match callee with
  | .identifier name => some (.functionCall, (callee :: ·), g.functions.function? name)
  | .apply operator _ operands =>
    if operator.form = .dot then some (.methodCall, (operands ++ ·), none) else none
  | _ => none

/-- The arguments of a call; rejects a target that cannot be called. -/
def call (callee : Formula) : Reading Formula := do
  match g.callShape callee with
  | none => reject
  | some (form, operands, native) =>
    match g.operators.structural form with
    | none => reject
    | some operator =>
      let _ ← eat '('
      let arguments ← arguments expression ')' true
      accept (.apply operator native (operands arguments))

/-- The indices of an indexing. -/
def indexing (target : Formula) : Reading Formula := do
  match g.operators.structural .indexer with
  | none => reject
  | some operator =>
    let _ ← eat '['
    let indices ← arguments expression ']' false
    accept (.node operator (target :: indices))

/-- What may follow an operand: calls, indexings, member accesses and infix operators up to the
limit. `chained` is the priority of the last infix operator at this level; the first argument bounds
how much may follow. Stops before whatever does not fit. -/
def chain (limit : Int32) : Nat → Formula → Option Int32 → Reading Formula
  | 0, _, _ => exhaust
  | fuel + 1, left, chained => do
    let checkpoint ← cursor
    let stop : Reading Formula := do
      moveTo checkpoint
      accept left
    skipBlanks
    let here ← cursor
    if here.peek? = some '(' then
      match ← attempt (g.call expression left) with
      | some call => chain limit fuel call chained
      | none => stop
    else if here.peek? = some '[' then
      match ← attempt (g.indexing expression left) with
      | some indexing => chain limit fuel indexing chained
      | none => stop
    else
      match g.operators.matchInfix? here.rest with
      | none => stop
      | some operator =>
        if operator.form = .dot then
          moveTo (here.advance operator.width)
          skipBlanks
          match ← attempt (token Cursor.identifier?) with
          | some member => chain limit fuel (.node operator [left, .identifier member]) chained
          | none =>
            note (.expectedMember (← cursor).position)
            stop
        else if limit < operator.priority then stop
        else if operator.associativity = .nonAssociative ∧ chained = some operator.priority then
          note (.nonAssociative operator.symbol here.position)
          stop
        else
          moveTo (here.advance operator.width)
          match ← attempt (expression operator.rightLimit) with
          | none => stop
          | some right =>
            chain limit fuel (.node operator [left, right]) (some operator.priority)

/-- An operand and what follows it. -/
def expressionBody (limit : Int32) : Reading Formula := do
  let left ← g.prefixed expression
  g.chain expression limit ((← cursor).rest.length + 1) left none

end Productions

/-- An expression whose infix operators outside parentheses have at most the given priority, with at
most so many expressions inside one another. -/
def expression (g : Grammar) : Nat → Int32 → Reading Formula
  | 0, _ => exhaust
  | depth + 1, limit => g.expressionBody (expression g depth) limit

/-- A whole text: how reading it ends, and the state it ends in. -/
def run (g : Grammar) (text : String) : Reply Formula × ReadState :=
  let start : ReadState := ⟨(Cursor.start text).skipBlanks, []⟩
  let (reply, s) := g.expression (text.toList.length + 1) topLimit start
  (reply, { s with cursor := s.cursor.skipBlanks })

/-- The failures of a reading that ended before the end of the text or did not accept. -/
def finalFailures (s : ReadState) : List ParseError :=
  if s.cursor.atEnd then s.failures
  else
    let found := String.ofList (s.cursor.rest.take snippetLength)
    .unexpectedInput found s.cursor.position :: s.failures

/-- The formula that a text holds, or why it holds none. -/
def read (g : Grammar) (text : String) : Except ParseError Formula :=
  if (Cursor.start text).skipBlanks.atEnd then .error .emptyExpression
  else
    match g.run text with
    | (.accepted formula, s) =>
      if s.cursor.atEnd then .ok formula
      else .error ((furthest? (finalFailures s)).getD (.expectedOperand 0))
    | (_, s) => .error ((furthest? (finalFailures s)).getD (.expectedOperand 0))

end Grammar

end Formulary
