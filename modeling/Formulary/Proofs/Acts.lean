import Formulary.Proofs.Faults

/-! # What a node does

Evaluating a node evaluates its operands from left to right and then does one thing with
their values. Which operand only carries a name, what is wanted of the others, which value
settles the result before all operands are evaluated and what is done in the end are
decided by the form of the node. So the ten forms are told apart once, here, and not
wherever something is said about evaluations.
-/

namespace Formulary

namespace Form

/-- Whether a plain value is wanted of the operand at a position, given whether one is
wanted of the node. -/
def wants (form : Form) (asValue : Bool) (i : Nat) : Bool :=
  match form with
  | .parenthesis | .log | .dump => asValue
  | .dot | .methodCall | .indexer => i != 0
  | .generic | .or | .and | .functionCall => true

/-- Whether the operands after one with this value are left alone. -/
def settles (form : Form) (value : Value) : Bool :=
  match form with
  | .or => value.truthy
  | .and => !value.truthy
  | _ => false

end Form

namespace Form

/-- Whether the operands from a position on are arguments or indices. -/
def TakesArguments (form : Form) (i : Nat) : Prop :=
  match form with
  | .functionCall | .indexer => 1 ≤ i
  | .methodCall => 2 ≤ i
  | _ => False

variable {form : Form} {i : Nat}

theorem TakesArguments.succ (h : form.TakesArguments i) : form.TakesArguments (i + 1) := by
  cases form with
  | functionCall | methodCall | indexer => exact Nat.le_succ_of_le h
  | generic | or | and | dot | parenthesis | dump | log => exact h

/-- Of arguments and indices plain values are wanted, and of all of them. -/
theorem TakesArguments.wants (h : form.TakesArguments i) (asValue : Bool) :
    form.wants asValue i = true ∧ form.namePosition? ≠ some i ∧
      ∀ value, form.settles value = false := by
  cases form with
  | functionCall =>
      have hpos : 1 ≤ i := h
      exact ⟨rfl, fun hname => by cases hname; omega, fun _ => rfl⟩
  | methodCall =>
      have hpos : 2 ≤ i := h
      exact ⟨bne_iff_ne.mpr (by omega), fun hname => by cases hname; omega, fun _ => rfl⟩
  | indexer =>
      have hpos : 1 ≤ i := h
      exact ⟨bne_iff_ne.mpr (by omega), (Option.some_ne_none i).symm, fun _ => rfl⟩
  | generic | or | and | dot | parenthesis | dump | log => exact False.elim h

end Form

/-- What a node does with the values of its operands. -/
inductive Act where
  /-- Answers without asking anyone. -/
  | answer (value : Value)
  /-- Looks something up on the host. -/
  | lookup (request : Request)
  | native (function : Native Formula) (args : List Value)
  | precompiled (expression : Precompiled Formula)
  | operate (operator : Operator) (operands : List Value)
  | log (text : String) (value : Value)
  | dump (tree : Tree) (value : Value)

namespace Act

/-- The steps of an act. -/
def program (asValue : Bool) : Act → Program Value
  | answer value => .done value
  | lookup request => .request request asValue
  | native function args => .invoke (function.body args asValue) .done
  | precompiled expression => .invoke (expression.body asValue) .done
  | operate operator operands => .operator operator operands
  | log text value => .log text value (.done value)
  | dump tree value => .dump tree value (.done value)

/-- Looks something up on a target with what follows it; what is no object has nothing. -/
def onTarget (request : Handle → List Value → Request) : List Value → Act
  | .object target :: args => lookup (request target args)
  | _ => answer .unknown

/-- What the host is asked for. -/
def request? : Act → Option Request
  | lookup request => some request
  | _ => none

/-- What is asked of a target is asked of an object. -/
theorem onTarget_eq_lookup {question : Handle → List Value → Request} {values : List Value}
    {request : Request} (h : onTarget question values = .lookup request) :
    ∃ target args, values = .object target :: args ∧ request = question target args := by
  unfold onTarget at h
  split at h
  · cases h
    exact ⟨_, _, rfl, rfl⟩
  · cases h

end Act

/-- What an operator node does with the values of those operands that were evaluated. -/
def Operator.act (op : Operator) (native : Option (Native Formula)) (layout : Layout)
    (operands : List Formula) (values : List Value) : Act :=
  let name (i : Nat) := (Formula.nameAt? operands i).getD ""
  match op.form with
  | .generic => .operate op values
  | .or | .and | .parenthesis => .answer (values.getLastD .unknown)
  | .dot => .onTarget (fun target _ => .member target (name 1)) values
  | .functionCall =>
    match native with
    | some native => .native native values
    | none => .lookup (.function (name 0) values)
  | .methodCall => .onTarget (fun target args => .method target (name 1) args) values
  | .indexer => .onTarget .index values
  | .log => .log (operands.headD default).text (values.headD .unknown)
  | .dump => .dump ⟨operands.headD default, layout.below 0⟩ (values.headD .unknown)

/-- The nodes that ask the host are calls that are not bound to a native function and, if
their target is an object, member accesses, method calls and indexing. -/
theorem Operator.act_eq_lookup {op : Operator} {native : Option (Native Formula)} {layout : Layout}
    {operands : List Formula} {values : List Value} {request : Request}
    (h : op.act native layout operands values = .lookup request) :
    let name (i : Nat) := (Formula.nameAt? operands i).getD ""
    op.form = .functionCall ∧ native = none ∧ request = .function (name 0) values ∨
      ∃ target args, values = .object target :: args ∧
        (op.form = .dot ∧ request = .member target (name 1) ∨
          op.form = .methodCall ∧ request = .method target (name 1) args ∨
          op.form = .indexer ∧ request = .index target args) := by
  unfold Operator.act at h
  cases hform : op.form with
  | functionCall =>
      simp only [hform] at h
      cases native with
      | some native => cases h
      | none =>
          cases h
          exact Or.inl ⟨rfl, rfl, rfl⟩
  | dot =>
      simp only [hform] at h
      obtain ⟨target, args, hvalues, hrequest⟩ := Act.onTarget_eq_lookup h
      exact Or.inr ⟨target, args, hvalues, Or.inl ⟨rfl, hrequest⟩⟩
  | methodCall =>
      simp only [hform] at h
      obtain ⟨target, args, hvalues, hrequest⟩ := Act.onTarget_eq_lookup h
      exact Or.inr ⟨target, args, hvalues, Or.inr (Or.inl ⟨rfl, hrequest⟩)⟩
  | indexer =>
      simp only [hform] at h
      obtain ⟨target, args, hvalues, hrequest⟩ := Act.onTarget_eq_lookup h
      exact Or.inr ⟨target, args, hvalues, Or.inr (Or.inr ⟨rfl, hrequest⟩)⟩
  | generic | or | and | parenthesis | log | dump =>
      simp only [hform] at h
      cases h

namespace Formula

open Program (recorded malformed)

/-- The values of the operands of a node, the first of which stands at position `i`, up to
one that settles the result. -/
def evaluateOperands (layout : Layout) (form : Form) (asValue : Bool) (i : Nat) :
    List Formula → Program (List Value)
  | [] => .done []
  | operand :: rest =>
    if form.namePosition? = some i then evaluateOperands layout form asValue (i + 1) rest
    else
      (operand.evaluate (layout.below i) (form.wants asValue i)).bind fun value =>
        if form.settles value then .done [value]
        else
          (evaluateOperands layout form asValue (i + 1) rest).bind fun values =>
            .done (value :: values)

section Operands

variable {layout : Layout} {form : Form} {asValue : Bool} {i : Nat}

theorem evaluateOperands_name (hname : form.namePosition? = some i) (operand : Formula)
    (rest : List Formula) : evaluateOperands layout form asValue i (operand :: rest) =
      evaluateOperands layout form asValue (i + 1) rest := by
  rw [evaluateOperands, if_pos hname]

theorem evaluateOperands_value (hname : form.namePosition? ≠ some i)
    (hsettles : ∀ value, form.settles value = false) (operand : Formula) (rest : List Formula) :
    evaluateOperands layout form asValue i (operand :: rest) =
      (operand.evaluate (layout.below i) (form.wants asValue i)).bind fun value =>
        (evaluateOperands layout form asValue (i + 1) rest).bind fun values =>
          .done (value :: values) := by
  rw [evaluateOperands, if_neg hname]
  simp only [hsettles, Bool.false_eq_true, if_false]

/-- Nothing comes after the last operand, so it does not matter whether its value settles
the result. -/
theorem evaluateOperands_singleton (hname : form.namePosition? ≠ some i) (operand : Formula) :
    evaluateOperands layout form asValue i [operand] =
      (operand.evaluate (layout.below i) (form.wants asValue i)).bind fun value =>
        .done [value] := by
  rw [evaluateOperands, if_neg hname]
  refine congrArg (Program.bind _) (funext fun value => ?_)
  cases form.settles value <;> rfl

/-- The value of the operand on the right is the result if it is evaluated at all. -/
theorem bind_answer_last (right : Program Value) (left : Value) :
    ((right.bind fun value => .done [value]).bind fun values => .done (left :: values)).bind
      (fun values => Act.program asValue (.answer (values.getLastD .unknown))) = right := by
  rw [Program.bind_assoc, Program.bind_assoc]
  exact Program.bind_done right

theorem evaluateOperands_arguments (operands : List Formula) (harguments : form.TakesArguments i) :
    evaluateOperands layout form asValue i operands = evaluateAll layout i operands := by
  induction operands generalizing i with
  | nil => rw [evaluateOperands, evaluateAll]
  | cons operand rest ih =>
      obtain ⟨hwanted, hname, hsettles⟩ := harguments.wants asValue
      rw [evaluateOperands_value hname hsettles, evaluateAll, hwanted, ih harguments.succ]
      rfl

end Operands

/-- Evaluating an operator node: unless its operands are not those of its form, they are
evaluated and their values acted upon. -/
theorem evaluate_apply (layout : Layout) (asValue : Bool) (op : Operator)
    (native : Option (Native Formula)) (operands : List Formula) :
    evaluate layout asValue (apply op native operands) = recorded layout.root
      (match op.fault? operands with
      | some fault => malformed fault
      | none => (evaluateOperands layout op.form asValue 0 operands).bind fun values =>
          (op.act native layout operands values).program asValue) := by
  conv_lhs => unfold evaluate
  refine congrArg (recorded layout.root) ?_
  -- The form tells whether the operands are those it asks for, and then both sides take
  -- the same steps.
  cases hform : op.form with
  | generic =>
      rcases operands with _ | ⟨left, _ | ⟨right, _ | ⟨third, rest⟩⟩⟩
      · simp only [Operator.fault?, hform]
      · simp only [Operator.fault?, hform, Operator.act]
        rw [evaluateOperands_singleton (by decide), Program.bind_assoc]
        rfl
      · simp only [Operator.fault?, hform, Operator.act]
        rw [evaluateOperands_value (by decide) fun _ => rfl,
          evaluateOperands_singleton (by decide)]
        simp only [Program.bind_assoc]
        rfl
      · simp only [Operator.fault?, hform]
  | or =>
      rcases operands with _ | ⟨left, _ | ⟨right, _ | ⟨third, rest⟩⟩⟩
      · simp only [Operator.fault?, hform]
      · simp only [Operator.fault?, hform]
      · simp only [Operator.fault?, hform, Operator.act]
        rw [evaluateOperands, if_neg (by decide), evaluateOperands_singleton (by decide),
          Program.bind_assoc]
        refine congrArg (Program.bind _) (funext fun value => ?_)
        by_cases htruthy : value.truthy = true
        · simp only [Form.settles, htruthy, if_true]
          rfl
        · simp only [Form.settles, htruthy, Bool.false_eq_true, if_false]
          exact (bind_answer_last _ value).symm
      · simp only [Operator.fault?, hform]
  | and =>
      rcases operands with _ | ⟨left, _ | ⟨right, _ | ⟨third, rest⟩⟩⟩
      · simp only [Operator.fault?, hform]
      · simp only [Operator.fault?, hform]
      · simp only [Operator.fault?, hform, Operator.act]
        rw [evaluateOperands, if_neg (by decide), evaluateOperands_singleton (by decide),
          Program.bind_assoc]
        refine congrArg (Program.bind _) (funext fun value => ?_)
        by_cases htruthy : value.truthy = true
        · simp only [Form.settles, htruthy, if_true, Bool.not_true, Bool.false_eq_true, if_false]
          exact (bind_answer_last _ value).symm
        · simp only [Form.settles, htruthy, Bool.not_false, if_true, Bool.false_eq_true, if_false]
          rfl
      · simp only [Operator.fault?, hform]
  | parenthesis =>
      rcases operands with _ | ⟨inner, _ | ⟨second, rest⟩⟩
      · simp only [Operator.fault?, hform]
      · simp only [Operator.fault?, hform, Operator.act]
        rw [evaluateOperands_singleton (by decide), Program.bind_assoc]
        exact (Program.bind_done _).symm
      · simp only [Operator.fault?, hform]
  | log | dump =>
      rcases operands with _ | ⟨operand, _ | ⟨second, rest⟩⟩
      · simp only [Operator.fault?, hform]
      · simp only [Operator.fault?, hform, Operator.act]
        rw [evaluateOperands_singleton (by decide), Program.bind_assoc]
        rfl
      · simp only [Operator.fault?, hform]
  | dot =>
      rcases operands with _ | ⟨target, _ | ⟨name, _ | ⟨third, rest⟩⟩⟩
      · simp only [Operator.fault?, hform]
      · simp only [Operator.fault?, hform]
      · cases hname : name.identifier? with
        | none => simp [Operator.fault?, hform, hname]
        | some member =>
            have hnamed : nameAt? [target, name] 1 = some member := hname
            simp only [Operator.fault?, hform, hname, Option.isSome_some, if_true, Operator.act,
              hnamed]
            rw [evaluateOperands_value (by decide) fun _ => rfl, evaluateOperands_name rfl,
              Program.bind_assoc]
            refine congrArg (Program.bind _) (funext fun value => ?_)
            cases value <;> rfl
      · simp only [Operator.fault?, hform]
  | functionCall =>
      rcases operands with _ | ⟨name, arguments⟩
      · simp only [Operator.fault?, hform]
      · cases hname : name.identifier? with
        | none => simp [Operator.fault?, hform, hname]
        | some function =>
            have hnamed : nameAt? (name :: arguments) 0 = some function := hname
            simp only [Operator.fault?, hform, hname, Option.isSome_some, if_true, Operator.act,
              hnamed]
            rw [evaluateOperands_name rfl, evaluateOperands_arguments _ le_rfl]
            refine congrArg (Program.bind _) (funext fun values => ?_)
            cases native <;> rfl
  | methodCall =>
      rcases operands with _ | ⟨target, _ | ⟨name, arguments⟩⟩
      · simp only [Operator.fault?, hform]
      · simp only [Operator.fault?, hform]
      · cases hname : name.identifier? with
        | none => simp [Operator.fault?, hform, hname]
        | some method =>
            have hnamed : nameAt? (target :: name :: arguments) 1 = some method := hname
            simp only [Operator.fault?, hform, hname, Option.isSome_some, if_true, Operator.act,
              hnamed]
            rw [evaluateOperands_value (by decide) fun _ => rfl, evaluateOperands_name rfl,
              evaluateOperands_arguments _ le_rfl]
            simp only [Program.bind_assoc]
            refine congrArg (Program.bind _) (funext fun value => ?_)
            refine congrArg (Program.bind _) (funext fun values => ?_)
            cases value <;> rfl
  | indexer =>
      rcases operands with _ | ⟨target, _ | ⟨first, rest⟩⟩
      · simp only [Operator.fault?, hform]
      · simp only [Operator.fault?, hform]
      · simp only [Operator.fault?, hform, Operator.act]
        rw [evaluateOperands_value (by decide) fun _ => rfl,
          evaluateOperands_arguments _ le_rfl, evaluateAll]
        simp only [Program.bind_assoc]
        refine congrArg (Program.bind _) (funext fun target => ?_)
        refine Eq.trans ?_ (Program.gather_bind _ _ _).symm
        refine congrArg (Program.bind _) (funext fun index => ?_)
        refine congrArg (Program.bind _) (funext fun indices => ?_)
        cases target <;> rfl

end Formula

end Formulary
