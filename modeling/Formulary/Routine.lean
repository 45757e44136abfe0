import Formulary.Request
import Formulary.EvalError
import Formulary.ParseError

/-! # Foreign code

What a host or a native function does when it is called, as a tree of steps. A routine may answer,
fail, break off, ask the host, evaluate formulas of type `φ` and take note of a text that is no
formula. Failures have type `ε`.

A formula that a routine evaluates is new each time, and the host that called the routine answers
for it. Code that keeps an expression and evaluates it again, that looks at results kept in it, or
that brings a host of its own is left out.
-/

namespace Formulary

/-- Code outside the language that answers an `α`. -/
inductive Routine (φ ε α : Type) where
  | done (answer : α)
  | fail (error : ε)
  /-- Breaks off, with a message if there is one. -/
  | panic (message : Option String)
  /-- Asks the host and goes on with its answer or the wording of its failure. -/
  | ask (request : Request) (next : Except String Value → Routine φ ε α)
  /-- Evaluates a formula on the same host, inside a boundary of its own. -/
  | evaluate (formula : φ) (compiled asValue : Bool)
      (next : Except EvalError Value → Routine φ ε α)
  /-- Takes a serial for a handle that no other handle has. -/
  | fresh (next : Nat → Routine φ ε α)
  /-- Takes note of a text that could not be read. -/
  | misread (text : String) (error : ParseError) (next : Routine φ ε α)

namespace Routine

variable {φ ε α β : Type}

/-- Goes on with the answer of a routine. -/
def bind : Routine φ ε α → (α → Routine φ ε β) → Routine φ ε β
  | done answer, k => k answer
  | fail error, _ => fail error
  | panic message, _ => panic message
  | ask request next, k => ask request fun answer => (next answer).bind k
  | evaluate formula compiled asValue next, k =>
    evaluate formula compiled asValue fun result => (next result).bind k
  | fresh next, k => fresh fun serial => (next serial).bind k
  | misread text error next, k => misread text error (next.bind k)

instance : Monad (Routine φ ε) where
  pure := done
  bind := bind

@[simp] theorem pure_eq (a : α) : (pure a : Routine φ ε α) = done a := rfl

@[simp] theorem bind_done (a : α) (k : α → Routine φ ε β) : (done a).bind k = k a := rfl

@[simp] theorem bind_fail (e : ε) (k : α → Routine φ ε β) : (fail e).bind k = fail e := rfl

end Routine

/-- A named function outside the language; it is told whether a plain value is wanted. -/
structure Native (φ : Type) where
  name : String
  body : List Value → Bool → Routine φ EvalError Value

/-- A named expression outside the language, reached as `#name`. -/
structure Precompiled (φ : Type) where
  name : String
  body : Bool → Routine φ EvalError Value

namespace Native

variable {φ : Type}

/-- A function of its arguments alone. -/
def pure (name : String) (f : List Value → Value) : Native φ :=
  ⟨name, fun args _ => .done (f args)⟩

def diagnostic (f : Native φ) : String := "NativeFunction(" ++ f.name ++ ")"

end Native

namespace Precompiled

variable {φ : Type}

/-- A fixed value. -/
def constant (name : String) (value : Value) : Precompiled φ := ⟨name, fun _ => .done value⟩

def diagnostic (precompiled : Precompiled φ) : String :=
  "Precompiled(#" ++ precompiled.name ++ ")"

end Precompiled

end Formulary
