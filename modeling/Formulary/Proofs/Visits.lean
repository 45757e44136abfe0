import Formulary.Proofs.Acts
import Formulary.Proofs.Callbacks

/-! # What the nodes do in a run

An account of a run tells which nodes acted, in their order, what each of them did and what
came of it. The account of a formula is worked out from its nodes; it ends as the run of
its program does, in the same world, and the callbacks of the run are those of its visits.
-/

namespace Formulary

/-- What one node did in a run. -/
structure Visit where
  /-- The operand positions that lead to the node from the root. -/
  path : List Nat
  /-- Whether a plain value was wanted of the node. -/
  asValue : Bool
  act : Act
  callbacks : List Callback
  outcome : Outcome EvalError Value

/-- How a run ended, and what the nodes did before that, the earliest first. -/
structure Account (α : Type) where
  visits : List Visit
  outcome : Outcome EvalError α
  world : World

namespace Account

variable {α β : Type}

/-- Goes on with the answer of a run. -/
def andThen (account : Account α) (next : α → World → Account β) : Account β :=
  match account.outcome with
  | .answered answer =>
    let later := next answer account.world
    ⟨account.visits ++ later.visits, later.outcome, later.world⟩
  | .failed error => ⟨account.visits, .failed error, account.world⟩
  | .panicked message => ⟨account.visits, .panicked message, account.world⟩

theorem andThen_answered {account : Account α} {next : α → World → Account β} {answer : β}
    (h : (account.andThen next).outcome = .answered answer) :
    ∃ first, account.outcome = .answered first ∧
      (next first account.world).outcome = .answered answer := by
  unfold andThen at h
  split at h
  next first houtcome => exact ⟨first, houtcome, h⟩
  next => cases h
  next => cases h

theorem mem_andThen {account : Account α} {next : α → World → Account β} {visit : Visit}
    (h : visit ∈ (account.andThen next).visits) :
    visit ∈ account.visits ∨ ∃ answer, account.outcome = .answered answer ∧
      visit ∈ (next answer account.world).visits := by
  unfold andThen at h
  split at h
  next answer houtcome =>
    exact (List.mem_append.mp h).imp_right fun hlater => ⟨answer, houtcome, hlater⟩
  next => exact Or.inl h
  next => exact Or.inl h

end Account

namespace Program

variable {α β : Type}

theorem run_bind (m : Machine) (p : Program α) (k : α → Program β) (w : World) :
    (p.bind k).run m w =
      match p.run m w with
      | (.answered a, w) => (k a).run m w
      | (.failed error, w) => (.failed error, w)
      | (.panicked message, w) => (.panicked message, w) := by
  induction p generalizing w with
  | done result => rfl
  | fail error => rfl
  | ask request next ih =>
      rw [bind, run, run]
      cases m.ask request w with
      | mk outcome after =>
          cases outcome with
          | answered answer => exact ih answer after
          | failed message => rfl
          | panicked message => rfl
  | invoke routine next ih =>
      rw [bind, run, run]
      cases routine.run m w with
      | mk outcome after =>
          cases outcome with
          | answered answer => exact ih answer after
          | failed error => rfl
          | panicked message => rfl
  | operate operator operands next ih => exact ih _ w
  | record cell result next ih => exact ih _
  | log text value next ih => exact ih _
  | dump tree value next ih =>
      rw [bind, run, run]
      cases m.describe w with
      | mk outcome after =>
          cases outcome with
          | answered host => exact ih _
          | failed error => cases error
          | panicked message => rfl

theorem callbacks_bind (m : Machine) (p : Program α) (k : α → Program β) (w : World) :
    (p.bind k).callbacks m w = p.callbacks m w ++
      match p.run m w with
      | (.answered a, w) => (k a).callbacks m w
      | (.failed _, _) => []
      | (.panicked _, _) => [] := by
  induction p generalizing w with
  | done result => rfl
  | fail error => rfl
  | ask request next ih =>
      rw [bind, callbacks, callbacks, run, List.cons_append]
      cases m.ask request w with
      | mk outcome after =>
          cases outcome with
          | answered answer => exact congrArg (List.cons _) (ih answer after)
          | failed message => rfl
          | panicked message => rfl
  | invoke routine next ih =>
      rw [bind, callbacks, callbacks, run, List.cons_append]
      cases routine.run m w with
      | mk outcome after =>
          cases outcome with
          | answered answer => exact congrArg (List.cons _) (ih answer after)
          | failed error => rfl
          | panicked message => rfl
  | operate operator operands next ih => exact ih _ w
  | record cell result next ih => exact ih _
  | log text value next ih => exact ih _
  | dump tree value next ih =>
      rw [bind, callbacks, callbacks, run, List.cons_append]
      cases m.describe w with
      | mk outcome after =>
          cases outcome with
          | answered host => exact congrArg (List.cons _) (ih _)
          | failed error => cases error
          | panicked message => rfl

/-- The operators that a run applies, each with its operands, the earliest first. -/
def operations (m : Machine) : Program α → World → List (Operator × List Value)
  | done _, _ => []
  | fail _, _ => []
  | ask request next, w =>
    match m.ask request w with
    | (.answered answer, w) => (next answer).operations m w
    | (.failed _, _) => []
    | (.panicked _, _) => []
  | invoke routine next, w =>
    match routine.run m w with
    | (.answered answer, w) => (next answer).operations m w
    | (.failed _, _) => []
    | (.panicked _, _) => []
  | operate operator operands next, w =>
    (operator, operands) :: (next (operator.result operands)).operations m w
  | record cell result next, w => next.operations m (w.keep cell result)
  | log text value next, w => next.operations m (w.write (.logged text value))
  | dump tree value next, w =>
    match m.describe w with
    | (.answered host, w) =>
      next.operations m (w.write (.dump tree.formula.text value host (tree.traceLines "  " w)))
    | (.failed _, _) => []
    | (.panicked _, _) => []

theorem operations_bind (m : Machine) (p : Program α) (k : α → Program β) (w : World) :
    (p.bind k).operations m w = p.operations m w ++
      match p.run m w with
      | (.answered a, w) => (k a).operations m w
      | (.failed _, _) => []
      | (.panicked _, _) => [] := by
  induction p generalizing w with
  | done result => rfl
  | fail error => rfl
  | ask request next ih =>
      rw [bind, operations, operations, run]
      cases m.ask request w with
      | mk outcome after =>
          cases outcome with
          | answered answer => exact ih answer after
          | failed message => rfl
          | panicked message => rfl
  | invoke routine next ih =>
      rw [bind, operations, operations, run]
      cases routine.run m w with
      | mk outcome after =>
          cases outcome with
          | answered answer => exact ih answer after
          | failed error => rfl
          | panicked message => rfl
  | operate operator operands next ih => exact congrArg (List.cons _) (ih _ w)
  | record cell result next ih => exact ih _
  | log text value next ih => exact ih _
  | dump tree value next ih =>
      rw [bind, operations, operations, run]
      cases m.describe w with
      | mk outcome after =>
          cases outcome with
          | answered host => exact ih _
          | failed error => cases error
          | panicked message => rfl

theorem operations_recorded (m : Machine) (cell : Cell) (p : Program Value) (w : World) :
    (recorded cell p).operations m w = p.operations m w := by
  rw [recorded, operations_bind]
  cases p.run m w with
  | mk outcome after => cases outcome <;> exact List.append_nil _

theorem run_recorded (m : Machine) (cell : Cell) (p : Program Value) (w : World) :
    (recorded cell p).run m w =
      match p.run m w with
      | (.answered value, w) => (.answered value, w.keep cell value)
      | ending => ending := by
  rw [recorded, run_bind]
  cases p.run m w with
  | mk outcome after => cases outcome <;> rfl

end Program

/-- The visit of a node that keeps its result in a cell. -/
def Act.account (m : Machine) (path : List Nat) (cell : Cell) (asValue : Bool) (act : Act)
    (w : World) : Account Value :=
  let steps := Program.recorded cell (act.program asValue)
  let ending := steps.run m w
  ⟨[⟨path, asValue, act, steps.callbacks m w, ending.1⟩], ending.1, ending.2⟩

theorem Act.account_outcome (m : Machine) (path : List Nat) (cell : Cell) (asValue : Bool)
    (act : Act) (w : World) :
    (act.account m path cell asValue w).outcome = ((act.program asValue).run m w).1 := by
  simp only [account, Program.run_recorded]
  split
  next heq => rw [heq]
  next => rfl

/-- The outcome of a question to the host as the program that asked takes it. -/
def Outcome.received : Outcome String Value → Outcome EvalError Value
  | answered value => .answered value
  | failed message => .failed (.host message)
  | panicked message => .panicked message

namespace Act

/-- What an act asks of code outside the language, and what comes of it. -/
inductive Does (asValue : Bool) : Act → List Callback → Outcome EvalError Value → Prop where
  | answer (value : Value) : Does asValue (.answer value) [] (.answered value)
  /-- A lookup that answers no value is not followed by anything. -/
  | missed (request : Request) (outcome : Outcome String Value)
      (hmissed : ∀ value, outcome ≠ .answered value) :
      Does asValue (.lookup request) [.request request outcome] outcome.received
  /-- The answer itself is wanted. -/
  | found (request : Request) (value : Value) (hmode : asValue = false) :
      Does asValue (.lookup request) [.request request (.answered value)] (.answered value)
  /-- The plain value of the answer is wanted. -/
  | resolved (request : Request) (value : Value) (outcome : Outcome String Value)
      (hmode : asValue = true) :
      Does asValue (.lookup request)
        [.request request (.answered value), .request (.resolve value) outcome] outcome.received
  | native (function : Native Formula) (args : List Value) (outcome : Outcome EvalError Value) :
      Does asValue (.native function args) [.routine (function.body args asValue) outcome] outcome
  | precompiled (expression : Precompiled Formula) (outcome : Outcome EvalError Value) :
      Does asValue (.precompiled expression) [.routine (expression.body asValue) outcome] outcome
  | operate (operator : Operator) (operands : List Value) :
      Does asValue (.operate operator operands) [] (.answered (operator.result operands))
  | log (text : String) (value : Value) : Does asValue (.log text value) [] (.answered value)
  | dump (tree : Tree) (value : Value) (host : String) :
      Does asValue (.dump tree value) [.description (.answered host)] (.answered value)
  | undescribed (tree : Tree) (value : Value) (message : Option String) :
      Does asValue (.dump tree value) [.description (.panicked message)] (.panicked message)

/-- What an act asks is what it looks up, or about the plain value of what it has found. -/
theorem Does.asks {asValue : Bool} {act : Act} {callbacks : List Callback}
    {outcome : Outcome EvalError Value} (h : act.Does asValue callbacks outcome) {request : Request}
    {answer : Outcome String Value} (hmem : .request request answer ∈ callbacks) :
    act = .lookup request ∨ ∃ value, request = .resolve value := by
  cases h with
  | missed | found =>
      cases List.mem_singleton.mp hmem
      exact Or.inl rfl
  | resolved asked value =>
      rcases List.mem_cons.mp hmem with hfirst | hlater
      · cases hfirst
        exact Or.inl rfl
      · cases List.mem_singleton.mp hlater
        exact Or.inr ⟨value, rfl⟩
  | answer | operate | log => cases hmem
  | native | precompiled | dump | undescribed => cases List.mem_singleton.mp hmem

variable {m : Machine} {path : List Nat} {cell : Cell} {asValue : Bool}

theorem account_does (act : Act) (w : World) {visit : Visit}
    (hvisit : visit ∈ (act.account m path cell asValue w).visits) :
    visit.path = path ∧ visit.asValue = asValue ∧ visit.act = act ∧
      visit.outcome = (act.account m path cell asValue w).outcome ∧
      act.Does asValue visit.callbacks visit.outcome := by
  obtain rfl := List.mem_singleton.mp hvisit
  refine ⟨rfl, rfl, rfl, rfl, ?_⟩
  cases act with
  | answer value => exact .answer value
  | operate operator operands => exact .operate operator operands
  | log text value => exact .log text value
  | lookup request =>
      simp only [program, Program.recorded, Program.request, Program.bind, Program.callbacks,
        Program.run]
      cases m.ask request w with
      | mk outcome after =>
          cases outcome with
          | failed message => exact .missed request (.failed message) (by simp)
          | panicked message => exact .missed request (.panicked message) (by simp)
          | answered value =>
              cases asValue with
              | false => exact .found request value rfl
              | true =>
                  simp only [if_true, Program.bind, Program.callbacks, Program.run]
                  cases m.ask (.resolve value) after with
                  | mk outcome last => cases outcome <;> exact .resolved request value _ rfl
  | native function args =>
      simp only [program, Program.recorded, Program.bind, Program.callbacks, Program.run]
      cases (function.body args asValue).run m w with
      | mk outcome after => cases outcome <;> exact .native function args _
  | precompiled expression =>
      simp only [program, Program.recorded, Program.bind, Program.callbacks, Program.run]
      cases (expression.body asValue).run m w with
      | mk outcome after => cases outcome <;> exact .precompiled expression _
  | dump tree value =>
      simp only [program, Program.recorded, Program.bind, Program.callbacks, Program.run]
      cases m.describe w with
      | mk outcome after =>
          cases outcome with
          | answered host => exact .dump tree value host
          | failed error => cases error
          | panicked message => exact .undescribed tree value message

end Act

namespace Formula

mutual

/-- The account of evaluating the node at a path. -/
def account (m : Machine) (layout : Layout) (path : List Nat) (asValue : Bool) :
    Formula → World → Account Value
  | constant value, w => (Act.answer value).account m path layout.root asValue w
  | identifier name, w => (Act.lookup (.lookup name)).account m path layout.root asValue w
  | precompiled expression, w =>
    (Act.precompiled expression).account m path layout.root asValue w
  | apply op native operands, w =>
    match op.fault? operands with
    | some fault => ⟨[], .failed (.malformed fault), w⟩
    | none =>
      (accountOperands m layout path op.form asValue 0 operands w).andThen fun values w =>
        (op.act native layout operands values).account m path layout.root asValue w

/-- The account of evaluating operands, the first of which stands at position `i`. -/
def accountOperands (m : Machine) (layout : Layout) (path : List Nat) (form : Form)
    (asValue : Bool) (i : Nat) : List Formula → World → Account (List Value)
  | [], w => ⟨[], .answered [], w⟩
  | operand :: rest, w =>
    if form.namePosition? = some i then accountOperands m layout path form asValue (i + 1) rest w
    else
      (account m (layout.below i) (path ++ [i]) (form.wants asValue i) operand w).andThen
        fun value w =>
          if form.settles value then ⟨[], .answered [value], w⟩
          else
            (accountOperands m layout path form asValue (i + 1) rest w).andThen fun values w =>
              ⟨[], .answered (value :: values), w⟩

end

end Formula

/-- The operator that an act applies, with its operands. -/
def Act.operation? : Act → Option (Operator × List Value)
  | operate operator operands => some (operator, operands)
  | _ => none

/-- The run of a program ends as the account says, and what it asks of code outside the
language and which operators it applies is told by the visits. -/
structure Account.Tells {α : Type} (account : Account α) (m : Machine) (p : Program α)
    (w : World) : Prop where
  run_eq : p.run m w = (account.outcome, account.world)
  callbacks_eq : p.callbacks m w = account.visits.flatMap Visit.callbacks
  operations_eq : p.operations m w = account.visits.filterMap fun visit => visit.act.operation?

namespace Account.Tells

variable {α β : Type} {account : Account α} {m : Machine} {p : Program α} {w : World}

theorem bind (h : account.Tells m p w) {next : α → World → Account β} {k : α → Program β}
    (hnext : ∀ a w, (next a w).Tells m (k a) w) :
    (account.andThen next).Tells m (p.bind k) w := by
  have hrun := Program.run_bind m p k w
  have hcallbacks := Program.callbacks_bind m p k w
  have hoperations := Program.operations_bind m p k w
  rw [h.run_eq] at hrun hcallbacks hoperations
  rw [h.callbacks_eq] at hcallbacks
  rw [h.operations_eq] at hoperations
  unfold andThen
  cases houtcome : account.outcome with
  | answered answer =>
      rw [houtcome] at hrun hcallbacks hoperations
      obtain ⟨hlater, hcalled, happlied⟩ := hnext answer account.world
      refine ⟨hrun.trans hlater, ?_, ?_⟩
      · rw [hcallbacks, List.flatMap_append]
        simp only [hcalled]
      · rw [hoperations, List.filterMap_append]
        simp only [happlied]
  | failed error =>
      rw [houtcome] at hrun hcallbacks hoperations
      exact ⟨hrun, hcallbacks.trans (List.append_nil _), hoperations.trans (List.append_nil _)⟩
  | panicked message =>
      rw [houtcome] at hrun hcallbacks hoperations
      exact ⟨hrun, hcallbacks.trans (List.append_nil _), hoperations.trans (List.append_nil _)⟩

/-- A single visit. -/
theorem act (m : Machine) (path : List Nat) (cell : Cell) (asValue : Bool) (act : Act)
    (w : World) : (act.account m path cell asValue w).Tells m
      (.recorded cell (act.program asValue)) w where
  run_eq := rfl
  callbacks_eq := (List.append_nil _).symm
  operations_eq := by
    rw [Program.operations_recorded]
    -- Only operators are applied, and a lookup is followed by at most one more question.
    cases act with
    | answer | operate | log => rfl
    | lookup request =>
        simp only [Act.program, Program.request, Program.operations]
        split
        · cases asValue with
          | false => rfl
          | true =>
              simp only [if_true, Program.operations]
              split <;> rfl
        · rfl
        · rfl
    | native | precompiled | dump =>
        simp only [Act.program, Program.operations]
        split <;> rfl

end Account.Tells

namespace Formula

theorem accountOperands_tells {m : Machine} {layout : Layout} {path : List Nat} {form : Form}
    {asValue : Bool} (operands : List Formula) (i : Nat)
    (hoperands : ∀ operand ∈ operands, ∀ layout path asValue w,
      (operand.account m layout path asValue w).Tells m (operand.evaluate layout asValue) w)
    (w : World) : (accountOperands m layout path form asValue i operands w).Tells m
      (evaluateOperands layout form asValue i operands) w := by
  induction operands generalizing i w with
  | nil =>
      rw [accountOperands, evaluateOperands]
      exact ⟨rfl, rfl, rfl⟩
  | cons operand rest ih =>
      obtain ⟨hoperand, hrest⟩ := List.forall_mem_cons.mp hoperands
      rw [accountOperands, evaluateOperands]
      split
      · exact ih (i + 1) hrest w
      · refine (hoperand _ _ _ w).bind fun value w => ?_
        split
        · exact ⟨rfl, rfl, rfl⟩
        · exact (ih (i + 1) hrest w).bind fun values w => ⟨rfl, rfl, rfl⟩

/-- The first operand whose value is taken: it is answered before the others are visited. -/
theorem accountOperands_head {m : Machine} {layout : Layout} {path : List Nat} {form : Form}
    {asValue : Bool} {operand : Formula} {rest : List Formula} {i : Nat} {w : World}
    {values : List Value} (hname : form.namePosition? ≠ some i)
    (hsettles : ∀ value, form.settles value = false)
    (h : (accountOperands m layout path form asValue i (operand :: rest) w).outcome =
      .answered values) :
    ∃ value others later, values = value :: others ∧
      (account m (layout.below i) (path ++ [i]) (form.wants asValue i) operand w).outcome =
        .answered value ∧
      (accountOperands m layout path form asValue (i + 1) rest later).outcome =
        .answered others := by
  rw [accountOperands, if_neg hname] at h
  obtain ⟨value, hvalue, hrest⟩ := Account.andThen_answered h
  simp only [hsettles, Bool.false_eq_true, if_false] at hrest
  obtain ⟨others, hothers, hall⟩ := Account.andThen_answered hrest
  cases hall
  exact ⟨value, others, _, rfl, hvalue, hothers⟩

/-- The visits below a node are those of its operands, but for one that only carries a name. -/
theorem mem_accountOperands {m : Machine} {layout : Layout} {path : List Nat} {form : Form}
    {asValue : Bool} {operands : List Formula} {i : Nat} {w : World} {visit : Visit}
    (h : visit ∈ (accountOperands m layout path form asValue i operands w).visits) :
    ∃ j operand, operands[j]? = some operand ∧ form.namePosition? ≠ some (i + j) ∧
      ∃ layout path asValue w, visit ∈ (account m layout path asValue operand w).visits := by
  induction operands generalizing i w with
  | nil =>
      rw [accountOperands] at h
      cases h
  | cons operand rest ih =>
      have hlater {w : World}
          (h : visit ∈ (accountOperands m layout path form asValue (i + 1) rest w).visits) :
          ∃ j found, (operand :: rest)[j]? = some found ∧ form.namePosition? ≠ some (i + j) ∧
            ∃ layout path asValue w, visit ∈ (account m layout path asValue found w).visits := by
        obtain ⟨j, found, hfound, hname, hmem⟩ := ih h
        exact ⟨j + 1, found, hfound, by rwa [Nat.add_comm j 1, ← Nat.add_assoc], hmem⟩
      rw [accountOperands] at h
      split at h
      · exact hlater h
      next hname =>
        rcases Account.mem_andThen h with hfirst | ⟨value, -, hrest⟩
        · exact ⟨0, operand, rfl, hname, _, _, _, _, hfirst⟩
        · split at hrest
          · cases hrest
          · rcases Account.mem_andThen hrest with hrest | ⟨values, -, hnone⟩
            · exact hlater hrest
            · cases hnone

/-- The account of a formula tells the run of its program. -/
theorem account_tells (m : Machine) (formula : Formula) (layout : Layout) (path : List Nat)
    (asValue : Bool) (w : World) : (formula.account m layout path asValue w).Tells m
      (formula.evaluate layout asValue) w := by
  induction formula using induct generalizing layout path asValue w with
  | constant value =>
      rw [account, evaluate]
      exact .act m path layout.root asValue (.answer value) w
  | identifier name =>
      rw [account, evaluate]
      exact .act m path layout.root asValue (.lookup (.lookup name)) w
  | precompiled expression =>
      rw [account, evaluate]
      exact .act m path layout.root asValue (.precompiled expression) w
  | apply op native operands ih =>
      rw [account, evaluate_apply]
      cases op.fault? operands with
      | some fault => exact ⟨rfl, rfl, rfl⟩
      | none =>
          simp only [Program.recorded, Program.bind_assoc]
          refine (accountOperands_tells operands 0 ih w).bind fun values w => ?_
          exact .act m path layout.root asValue (op.act native layout operands values) w

end Formula

namespace Tree

/-- The operators that an evaluation applies. -/
def operations (m : Machine) (tree : Tree) (asValue : Bool) (w : World) :
    List (Operator × List Value) :=
  (tree.program w.slots asValue).operations m w.entered

/-- What the nodes of a tree do when it is evaluated. -/
def visits (m : Machine) (tree : Tree) (asValue : Bool) (w : World) : List Visit :=
  (tree.formula.account m tree.layout [] asValue w.entered).visits

variable {nodes : Set Tree} {tree : Tree}

/-- Lowered or walked, a tree is evaluated as its account tells. -/
theorem account_tells (htree : tree ∈ nodes) {w : World} (hsound : w.slots.Sound nodes)
    (m : Machine) (asValue : Bool) :
    (tree.formula.account m tree.layout [] asValue w.entered).Tells m
      (tree.program w.slots asValue) w.entered := by
  rw [program_eq_evaluate htree hsound asValue]
  exact tree.formula.account_tells m tree.layout [] asValue w.entered

end Tree

end Formulary
