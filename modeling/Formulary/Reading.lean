import Formulary.Cursor
import Formulary.ParseError

/-! # Readers

A reader moves a cursor, takes note of failures on the way and accepts with a result or rejects. A
rejected alternative does not move the cursor back by itself: whoever tries it does.
-/

namespace Formulary

/-- Where reading stands, with all failures so far, the latest first. -/
structure ReadState where
  cursor : Cursor
  failures : List ParseError

/-- How a reader ends. -/
inductive Reply (α : Type) where
  | accepted (result : α)
  | rejected
  /-- The bound on nested readers was met. -/
  | exhausted
deriving DecidableEq, Repr

/-- A reader of an `α`. -/
def Reading (α : Type) : Type := ReadState → Reply α × ReadState

namespace Reading

variable {α β : Type}

def accept (a : α) : Reading α := fun s => (.accepted a, s)

def reject : Reading α := fun s => (.rejected, s)

def exhaust : Reading α := fun s => (.exhausted, s)

/-- One reader after another; the second is not tried if the first does not accept. -/
def andThen (first : Reading α) (second : α → Reading β) : Reading β := fun s =>
  match first s with
  | (.accepted a, s) => second a s
  | (.rejected, s) => (.rejected, s)
  | (.exhausted, s) => (.exhausted, s)

instance : Monad Reading where
  pure := accept
  bind := andThen

/-- Turns rejection into a result. -/
def attempt (reader : Reading α) : Reading (Option α) := fun s =>
  match reader s with
  | (.accepted a, s) => (.accepted (some a), s)
  | (.rejected, s) => (.accepted none, s)
  | (.exhausted, s) => (.exhausted, s)

/-- Where the cursor stands. -/
def cursor : Reading Cursor := fun s => (.accepted s.cursor, s)

/-- Puts the cursor somewhere. -/
def moveTo (c : Cursor) : Reading Unit := fun s => (.accepted (), { s with cursor := c })

/-- Takes note of a failure. -/
def note (error : ParseError) : Reading Unit := fun s =>
  (.accepted (), { s with failures := error :: s.failures })

/-- Moves past blanks. -/
def skipBlanks : Reading Unit := do moveTo (← cursor).skipBlanks

/-- A token, or rejection. -/
def token (read? : Cursor → Option (α × Cursor)) : Reading α := do
  match read? (← cursor) with
  | some (a, next) =>
    moveTo next
    accept a
  | none => reject

/-- Whether a character stands under the cursor, which is moved past it if so. -/
def eat (x : Char) : Reading Bool := do
  match (← cursor).eat? x with
  | some next =>
    moveTo next
    accept true
  | none => accept false

/-- Puts the cursor back and rejects. -/
def giveUp (start : Cursor) : Reading α := do
  moveTo start
  reject

end Reading

/-- The first of the failures that are furthest into the text, given the latest first. -/
def furthest? : List ParseError → Option ParseError
  | [] => none
  | latest :: earlier =>
    match furthest? earlier with
    | none => some latest
    | some best =>
      match best.position?, latest.position? with
      | _, none => some best
      | none, some _ => some latest
      | some p, some q => if p < q then some latest else some best

end Formulary
