import Formulary.Tree

/-! # What an evaluation does

Evaluating a formula is a tree of steps: questions to the host, runs of native code, operators
applied to values, results put into cells and lines written to the log. Both ways of evaluating a
formula, walking it and running the code it was lowered to, give such a program; what the steps mean
is said once, in `Formulary.Machine`.
-/

namespace Formulary

/-- The steps that lead to an `α` or to a failure. -/
inductive Program (α : Type) where
  | done (result : α)
  | fail (error : EvalError)
  /-- Asks the host; its failure is that of the program. -/
  | ask (request : Request) (next : Value → Program α)
  /-- Runs native code; its failure is that of the program. -/
  | invoke (routine : Routine Formula EvalError Value) (next : Value → Program α)
  /-- Applies an operator to one or two values. -/
  | operate (operator : Operator) (operands : List Value) (next : Value → Program α)
  /-- Keeps the result of a node. -/
  | record (cell : Cell) (result : Value) (next : Program α)
  /-- Logs a value under a text. -/
  | log (text : String) (value : Value) (next : Program α)
  /-- Logs a value, the host and the last results of a tree. -/
  | dump (tree : Tree) (value : Value) (next : Program α)

/-- The result of an operator for a list of values. -/
def Operator.result (op : Operator) : List Value → Value
  | [operand] => op.evaluateUnary operand
  | [left, right] => op.evaluateBinary left right
  | _ => .unknown

namespace Program

variable {α β γ : Type}

/-- Goes on with the result of a program. -/
def bind : Program α → (α → Program β) → Program β
  | done result, k => k result
  | fail error, _ => fail error
  | ask request next, k => ask request fun v => (next v).bind k
  | invoke routine next, k => invoke routine fun v => (next v).bind k
  | operate operator operands next, k => operate operator operands fun v => (next v).bind k
  | record cell result next, k => record cell result (next.bind k)
  | log text value next, k => log text value (next.bind k)
  | dump tree value next, k => dump tree value (next.bind k)

instance : Monad Program where
  pure := done
  bind := bind

/-! ## Laws -/

theorem pure_bind (a : α) (k : α → Program β) : (pure a : Program α) >>= k = k a := rfl

theorem bind_done (p : Program α) : p.bind done = p := by
  induction p with
  | done => rfl
  | fail => rfl
  | ask _ _ ih => simp only [bind, ih]
  | invoke _ _ ih => simp only [bind, ih]
  | operate _ _ _ ih => simp only [bind, ih]
  | record _ _ _ ih => simp only [bind, ih]
  | log _ _ _ ih => simp only [bind, ih]
  | dump _ _ _ ih => simp only [bind, ih]

theorem bind_assoc (p : Program α) (k : α → Program β) (l : β → Program γ) :
    (p.bind k).bind l = p.bind fun a => (k a).bind l := by
  induction p with
  | done => rfl
  | fail => rfl
  | ask _ _ ih => simp only [bind, ih]
  | invoke _ _ ih => simp only [bind, ih]
  | operate _ _ _ ih => simp only [bind, ih]
  | record _ _ _ ih => simp only [bind, ih]
  | log _ _ _ ih => simp only [bind, ih]
  | dump _ _ _ ih => simp only [bind, ih]

/-! ## Steps -/

/-- A failure of the tree. -/
def malformed (fault : Malformation) : Program α := fail (.malformed fault)

/-- Applies an operator to values. -/
def operator (op : Operator) (operands : List Value) : Program Value := operate op operands done

/-- Keeps the result of a program in a cell. -/
def recorded (cell : Cell) (p : Program Value) : Program Value :=
  p.bind fun result => record cell result (done result)

/-- Asks the host, and then for the plain value of the answer if one is wanted. -/
def request (request : Request) (asValue : Bool) : Program Value :=
  ask request fun answer => if asValue then ask (.resolve answer) done else done answer

/-- The member of a value; what is no object has none. -/
def member (target : Value) (name : String) (asValue : Bool) : Program Value :=
  match target with
  | .object handle => request (.member handle name) asValue
  | _ => done .unknown

/-- A function call: native code if the call was bound to it, and the host otherwise. -/
def function (native : Option (Native Formula)) (name : String) (args : List Value)
    (asValue : Bool) : Program Value :=
  match native with
  | some native => invoke (native.body args asValue) done
  | none => request (.function name args) asValue

/-- A method call; what is no object has no methods. -/
def method (target : Value) (name : String) (args : List Value) (asValue : Bool) : Program Value :=
  match target with
  | .object handle => request (.method handle name args) asValue
  | _ => done .unknown

/-- An element of a value; what is no object has none. -/
def index (target : Value) (indices : List Value) (asValue : Bool) : Program Value :=
  match target with
  | .object handle => request (.index handle indices) asValue
  | _ => done .unknown

end Program

end Formulary
