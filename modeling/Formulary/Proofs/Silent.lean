import Formulary.Grammar
import Formulary.Proofs.Tokens

/-! # Reading without a record

Positions and failures on record decide which failure is reported, never what is read. Here the
readers see only the characters that are left: a silent reader answers with a result and the
characters after it. Every reader mirrors its silent one, which `Stumbles` shows together with where
failures are noted.
-/

namespace Formulary

namespace Reply

variable {α β : Type}

/-- Goes on with a result, or with something else after a rejection. -/
def resume (reply : Reply α) (accept : α → Reply β) (reject : Reply β) : Reply β :=
  match reply with
  | accepted a => accept a
  | rejected => reject
  | exhausted => exhausted

/-- Goes on with a result. -/
def bind (reply : Reply α) (next : α → Reply β) : Reply β := reply.resume next rejected

theorem resume_eq_accepted {reply : Reply α} {accept : α → Reply β} {reject : Reply β} {b : β} :
    reply.resume accept reject = accepted b ↔
      (∃ a, reply = accepted a ∧ accept a = accepted b) ∨
        reply = rejected ∧ reject = accepted b := by
  cases reply <;> simp [resume]

theorem bind_eq_accepted {reply : Reply α} {next : α → Reply β} {b : β} :
    reply.bind next = accepted b ↔ ∃ a, reply = accepted a ∧ next a = accepted b := by
  simp [bind, resume_eq_accepted]

@[simp]
theorem bind_accepted (a : α) (next : α → Reply β) : (accepted a).bind next = next a := rfl

@[simp]
theorem resume_rejected (accept : α → Reply β) (reject : Reply β) :
    (rejected : Reply α).resume accept reject = reject := rfl

theorem resume_bind {γ : Type} (reply : Reply α) (next : α → Reply β) (accept : β → Reply γ)
    (reject : Reply γ) :
    (reply.bind next).resume accept reject =
      reply.resume (fun a => (next a).resume accept reject) reject := by
  cases reply <;> rfl

theorem resume_self (reply : Reply α) : reply.resume accepted rejected = reply := by
  cases reply <;> rfl

end Reply

/-- A reader of an `α` that sees only the characters left. -/
abbrev Silent (α : Type) : Type := List Char → Reply (α × List Char)

namespace Silent

variable {α : Type}

/-- A token, or rejection. -/
def token (read? : Cursor → Option (α × Cursor)) : Silent α := fun cs =>
  match read? ⟨0, cs, 0⟩ with
  | some (a, next) => .accepted (a, next.rest)
  | none => .rejected

section Productions

variable (g : Grammar) (expression : Int32 → Silent Formula)

/-- `#name` -/
def precompiled : Silent Formula := fun cs =>
  if cs.head? = some '#' then
    (token Cursor.identifier? cs.tail).bind fun (name, rest) =>
      match g.functions.precompiled? name with
      | some found => .accepted (.precompiled found, rest)
      | none => .rejected
  else .rejected

/-- `(expression)` -/
def parenthesis : Silent Formula := fun cs =>
  match g.operators.structural .parenthesis with
  | none => .rejected
  | some operator =>
    if cs.head? = some '(' then
      (expression Grammar.topLimit cs.tail).bind fun (inner, rest) =>
        if (skipped rest).head? = some ')' then
          .accepted (.node operator [inner], (skipped rest).tail)
        else .rejected
    else .rejected

/-- A constant, a name, `#name` or a parenthesis, told apart by the first character. -/
def operandBody : Silent Formula := fun cs =>
  match cs.head? with
  | some '#' => precompiled g cs
  | some '(' => parenthesis g expression cs
  | some '\'' | some '"' =>
    (token Cursor.quotedString? cs).bind fun (text, rest) =>
      .accepted (.constant (.string text), rest)
  | _ =>
    (token Cursor.number? cs).resume (fun (value, rest) => .accepted (.constant value, rest))
      ((token Cursor.identifier? cs).bind fun (name, rest) =>
        .accepted (Grammar.wordFormula name, rest))

/-- An operand with blanks before it, or a prefix operator with one. -/
def prefixed : Silent Formula := fun cs =>
  (operandBody g expression (skipped cs)).resume .accepted <|
    match g.operators.matchPrefix? (skipped cs) with
    | none => .rejected
    | some operator =>
      (expression prefixPriority ((skipped cs).drop operator.symbol.length)).bind
        fun (operand, rest) => .accepted (.node operator [operand], rest)

/-- Expressions separated by commas up to a closing character; at most as many as the first
argument. -/
def argumentsFrom (close : Char) : Nat → Silent (List Formula)
  | 0, _ => .exhausted
  | fuel + 1, cs =>
    (expression Grammar.topLimit cs).bind fun (argument, rest) =>
      if (skipped rest).head? = some ',' then
        (argumentsFrom close fuel (skipped rest).tail).bind fun (arguments, rest) =>
          .accepted (argument :: arguments, rest)
      else if (skipped rest).head? = some close then .accepted ([argument], (skipped rest).tail)
      else .rejected

/-- Expressions separated by commas up to a closing character, after the opening one. -/
def arguments (close : Char) (allowEmpty : Bool) : Silent (List Formula) := fun cs =>
  if allowEmpty ∧ (skipped cs).head? = some close then .accepted ([], (skipped cs).tail)
  else argumentsFrom expression close ((skipped cs).length + 1) (skipped cs)

/-- The arguments of a call; rejects a target that cannot be called. -/
def call (callee : Formula) : Silent Formula := fun cs =>
  match g.callShape callee with
  | none => .rejected
  | some (form, operands, native) =>
    match g.operators.structural form with
    | none => .rejected
    | some operator =>
      (arguments expression ')' true cs).bind fun (arguments, rest) =>
        .accepted (.apply operator native (operands arguments), rest)

/-- The indices of an indexing. -/
def indexing (target : Formula) : Silent Formula := fun cs =>
  match g.operators.structural .indexer with
  | none => .rejected
  | some operator =>
    (arguments expression ']' false cs).bind fun (indices, rest) =>
      .accepted (.node operator (target :: indices), rest)

/-- The next thing that follows an operand, with the priority of the last infix operator after it;
rejects whatever does not fit. -/
def follow (limit : Int32) (left : Formula) (chained : Option Int32) :
    Silent (Formula × Option Int32) := fun cs =>
  let here := skipped cs
  if here.head? = some '(' then
    (call g expression left here.tail).bind fun (f, rest) => .accepted ((f, chained), rest)
  else if here.head? = some '[' then
    (indexing g expression left here.tail).bind fun (f, rest) => .accepted ((f, chained), rest)
  else
    match g.operators.matchInfix? here with
    | none => .rejected
    | some operator =>
      let after := here.drop operator.symbol.length
      if operator.form = .dot then
        (token Cursor.identifier? (skipped after)).bind fun (member, rest) =>
          .accepted ((.node operator [left, .identifier member], chained), rest)
      else if limit < operator.priority then .rejected
      else if operator.associativity = .nonAssociative ∧ chained = some operator.priority then
        .rejected
      else
        (expression operator.rightLimit after).bind fun (right, rest) =>
          .accepted ((.node operator [left, right], some operator.priority), rest)

/-- Everything that follows an operand. -/
def chain (limit : Int32) : Nat → Formula → Option Int32 → Silent Formula
  | 0, _, _, _ => .exhausted
  | fuel + 1, left, chained, cs =>
    (follow g expression limit left chained cs).resume
      (fun ((f, chained), rest) => chain limit fuel f chained rest) (.accepted (left, cs))

/-- An operand and what follows it. -/
def expressionBody (limit : Int32) : Silent Formula := fun cs =>
  (prefixed g expression cs).bind fun (left, rest) =>
    chain g expression limit (rest.length + 1) left none rest

end Productions

/-- An expression, with at most so many expressions inside one another. -/
def expression (g : Grammar) : Nat → Int32 → Silent Formula
  | 0, _, _ => .exhausted
  | depth + 1, limit, cs => expressionBody g (expression g depth) limit cs

end Silent

/-- Whether a reply and the state after it show what a silent reader answers. -/
inductive Mirrors {α : Type} : Reply α × ReadState → Reply (α × List Char) → Prop where
  | accepted (a : α) (p : Nat) (rest : List Char) (failures : List ParseError) :
      Mirrors (.accepted a, ⟨⟨p, rest, 0⟩, failures⟩) (.accepted (a, rest))
  | rejected (s : ReadState) : Mirrors (.rejected, s) .rejected
  | exhausted (s : ReadState) : Mirrors (.exhausted, s) .exhausted

namespace Reading

variable {α β : Type}

/-- Outside of characters the reader does what the silent one does. -/
def Follows (reader : Reading α) (silent : Silent α) : Prop :=
  ∀ p cs failures, Mirrors (reader ⟨⟨p, cs, 0⟩, failures⟩) (silent cs)

theorem bind_eq (reader : Reading α) (next : α → Reading β) (s : ReadState) :
    (reader >>= next) s = reader.andThen next s := rfl

theorem cursor_bind (next : Cursor → Reading β) (s : ReadState) :
    (cursor >>= next) s = next s.cursor s := rfl

theorem moveTo_bind (c : Cursor) (next : Unit → Reading β) (s : ReadState) :
    (moveTo c >>= next) s = next () { s with cursor := c } := rfl

theorem skipBlanks_bind (next : Unit → Reading β) (p : Nat) (cs : List Char)
    (failures : List ParseError) :
    (skipBlanks >>= next) ⟨⟨p, cs, 0⟩, failures⟩ =
      next () ⟨⟨p + byteLength (cs.takeWhile isBlank), skipped cs, 0⟩, failures⟩ := by
  rw [← Cursor.skipBlanks_eq]
  rfl

theorem eat_bind (x : Char) (next : Bool → Reading β) (p : Nat) (cs : List Char)
    (failures : List ParseError) :
    (eat x >>= next) ⟨⟨p, cs, 0⟩, failures⟩ =
      if cs.head? = some x then next true ⟨⟨p + byteLength [x], cs.tail, 0⟩, failures⟩
      else next false ⟨⟨p, cs, 0⟩, failures⟩ := by
  rw [bind_eq, andThen, eat, cursor_bind, Cursor.eat?_eq]
  by_cases hx : cs.head? = some x
  · rw [if_pos hx, if_pos hx]
    rfl
  · rw [if_neg hx, if_neg hx]
    rfl

end Reading

namespace OperatorTable

variable {table : OperatorTable} {cs : List Char} {op : Operator}

theorem matchInfix?_starts (h : table.matchInfix? cs = some op) : op.starts cs := by
  have hfound := List.find?_some (p := fun op : Operator => op.starts cs) h
  exact hfound

theorem matchPrefix?_starts (h : table.matchPrefix? cs = some op) : op.starts cs := by
  have hfound := List.find?_some (p := fun op : Operator => op.starts cs) h
  exact hfound

end OperatorTable

end Formulary
