import Formulary.Proofs.Faults
import Formulary.Proofs.Session

/-! # What a run asks of code outside the language

The callbacks of a run are the questions to the host, the runs of native and precompiled
code and the descriptions of the host that its program asks for, each with how it ended.
What such code asks and evaluates on its own account is not among them. A program without
a failing step of its own ends with an error exactly if a callback hands one to it, and
that is the error it ends with; the program of a formula that was read is of this kind.
-/

namespace Formulary

/-- Code outside the language that a program waited for, and how it ended. -/
inductive Callback where
  | request (request : Request) (outcome : Outcome String Value)
  | routine (routine : Routine Formula EvalError Value) (outcome : Outcome EvalError Value)
  | description (outcome : Outcome Empty String)

namespace Callback

/-- The error of code that broke off. -/
def panicError (message : Option String) : EvalError := .panic (message.getD panicWithoutText)

/-- The error that a callback hands to its program. -/
def error? : Callback → Option EvalError
  | request _ (.answered _) => none
  | request _ (.failed message) => some (.host message)
  | request _ (.panicked message) => some (panicError message)
  | routine _ (.answered _) => none
  | routine _ (.failed error) => some error
  | routine _ (.panicked message) => some (panicError message)
  | description (.answered _) => none
  | description (.failed error) => nomatch error
  | description (.panicked message) => some (panicError message)

/-- That a tree is malformed only a native or precompiled routine can report. -/
theorem eq_routine_of_malformed {callback : Callback} {fault : Malformation}
    (h : callback.error? = some (.malformed fault)) :
    ∃ routine, callback = .routine routine (.failed (.malformed fault)) := by
  cases callback with
  | request request outcome => cases outcome <;> cases h
  | description outcome =>
      cases outcome with
      | failed error => cases error
      | answered | panicked => cases h
  | routine routine outcome =>
      cases outcome with
      | failed error =>
          obtain rfl : error = .malformed fault := Option.some.inj h
          exact ⟨routine, rfl⟩
      | answered | panicked => cases h

end Callback

namespace Program

variable {α β : Type}

/-- The callbacks of a run, the earliest first. -/
def callbacks (m : Machine) : Program α → World → List Callback
  | done _, _ => []
  | fail _, _ => []
  | ask request next, w =>
    .request request (m.ask request w).1 ::
      match m.ask request w with
      | (.answered answer, w) => (next answer).callbacks m w
      | (.failed _, _) => []
      | (.panicked _, _) => []
  | invoke routine next, w =>
    .routine routine (routine.run m w).1 ::
      match routine.run m w with
      | (.answered answer, w) => (next answer).callbacks m w
      | (.failed _, _) => []
      | (.panicked _, _) => []
  | operate operator operands next, w => (next (operator.result operands)).callbacks m w
  | record cell result next, w => next.callbacks m (w.keep cell result)
  | log text value next, w => next.callbacks m (w.write (.logged text value))
  | dump tree value next, w =>
    .description (m.describe w).1 ::
      match m.describe w with
      | (.answered host, w) =>
        next.callbacks m (w.write (.dump tree.formula.text value host (tree.traceLines "  " w)))
      | (.failed _, _) => []
      | (.panicked _, _) => []

/-- No step is a failure of the program itself. -/
inductive Faultless : Program α → Prop where
  | done (result) : Faultless (.done result)
  | ask (request) {next : Value → Program α} (h : ∀ v, Faultless (next v)) :
      Faultless (.ask request next)
  | invoke (routine) {next : Value → Program α} (h : ∀ v, Faultless (next v)) :
      Faultless (.invoke routine next)
  | operate (operator operands) {next : Value → Program α} (h : ∀ v, Faultless (next v)) :
      Faultless (.operate operator operands next)
  | record (cell result) {next : Program α} (h : Faultless next) :
      Faultless (.record cell result next)
  | log (text value) {next : Program α} (h : Faultless next) : Faultless (.log text value next)
  | dump (tree value) {next : Program α} (h : Faultless next) : Faultless (.dump tree value next)

namespace Faultless

theorem bind {p : Program α} (hp : p.Faultless) {k : α → Program β} (hk : ∀ a, (k a).Faultless) :
    (p.bind k).Faultless := by
  induction hp with
  | done result => exact hk result
  | ask request _ ih => exact .ask request ih
  | invoke routine _ ih => exact .invoke routine ih
  | operate operator operands _ ih => exact .operate operator operands ih
  | record cell result _ ih => exact .record cell result ih
  | log text value _ ih => exact .log text value ih
  | dump tree value _ ih => exact .dump tree value ih

theorem recorded {p : Program Value} (cell : Cell) (hp : p.Faultless) :
    (Program.recorded cell p).Faultless :=
  hp.bind fun result => .record cell result (.done result)

theorem request (request : Request) (asValue : Bool) :
    (Program.request request asValue).Faultless := by
  refine .ask request fun answer => ?_
  cases asValue with
  | false => exact .done answer
  | true => exact .ask _ fun _ => .done _

theorem operator (op : Operator) (operands : List Value) :
    (Program.operator op operands).Faultless :=
  .operate op operands fun _ => .done _

theorem member (target : Value) (name : String) (asValue : Bool) :
    (Program.member target name asValue).Faultless := by
  cases target <;> first | exact request _ _ | exact .done _

theorem function (native : Option (Native Formula)) (name : String) (args : List Value)
    (asValue : Bool) : (Program.function native name args asValue).Faultless := by
  cases native with
  | none => exact request _ _
  | some native => exact .invoke _ fun _ => .done _

theorem method (target : Value) (name : String) (args : List Value) (asValue : Bool) :
    (Program.method target name args asValue).Faultless := by
  cases target <;> first | exact request _ _ | exact .done _

theorem index (target : Value) (indices : List Value) (asValue : Bool) :
    (Program.index target indices asValue).Faultless := by
  cases target <;> first | exact request _ _ | exact .done _

/-- The run ends at the first callback that hands over an error, with that error. -/
theorem trapped_run_eq_error_iff {p : Program α} (hp : p.Faultless) (m : Machine) (w : World)
    {error : EvalError} : (p.run m w).1.trapped = .error error ↔
      ∃ callback ∈ p.callbacks m w, callback.error? = some error := by
  induction hp generalizing w with
  | done result => simp [run, callbacks, Outcome.trapped]
  | ask request _ ih =>
      rw [run, callbacks]
      cases hask : m.ask request w with
      | mk outcome after =>
          cases outcome with
          | answered answer => simp [Callback.error?, ih]
          | failed message => simp [Callback.error?, Outcome.trapped]
          | panicked message => simp [Callback.error?, Outcome.trapped, Callback.panicError]
  | invoke routine _ ih =>
      rw [run, callbacks]
      cases hrun : routine.run m w with
      | mk outcome after =>
          cases outcome with
          | answered answer => simp [Callback.error?, ih]
          | failed error => simp [Callback.error?, Outcome.trapped]
          | panicked message => simp [Callback.error?, Outcome.trapped, Callback.panicError]
  | operate operator operands _ ih =>
      rw [run, callbacks]
      exact ih _ _
  | record cell result _ ih =>
      rw [run, callbacks]
      exact ih _
  | log text value _ ih =>
      rw [run, callbacks]
      exact ih _
  | dump tree value _ ih =>
      rw [run, callbacks]
      cases hdescribe : m.describe w with
      | mk outcome after =>
          cases outcome with
          | answered host => simp [Callback.error?, ih]
          | failed error => cases error
          | panicked message => simp [Callback.error?, Outcome.trapped, Callback.panicError]

end Faultless

end Program

namespace Formula

open Program (Faultless)

variable {functions : FunctionTable}

theorem evaluateAll_faultless {layout : Layout} (operands : List Formula) (i : Nat)
    (hoperands : ∀ operand ∈ operands, ∀ layout, (operand.evaluate layout true).Faultless) :
    (evaluateAll layout i operands).Faultless := by
  induction operands generalizing i with
  | nil =>
      rw [evaluateAll]
      exact .done []
  | cons operand rest ih =>
      obtain ⟨hoperand, hrest⟩ := List.forall_mem_cons.mp hoperands
      rw [evaluateAll]
      exact (hoperand _).bind fun value => (ih (i + 1) hrest).bind fun values => .done _

/-- Walking what is well shaped never fails by itself. -/
theorem WellShaped.evaluate_faultless {formula : Formula} (h : formula.WellShaped functions)
    (layout : Layout) (asValue : Bool) : (formula.evaluate layout asValue).Faultless := by
  induction formula using induct generalizing layout asValue with
  | constant value =>
      rw [evaluate]
      exact (Faultless.done value).recorded _
  | identifier name =>
      rw [evaluate]
      exact (Faultless.request _ _).recorded _
  | precompiled expression =>
      rw [evaluate]
      exact (Faultless.invoke _ fun _ => .done _).recorded _
  | apply operator native operands ih =>
      have hwalk : ∀ operand ∈ operands, ∀ layout asValue,
          (operand.evaluate layout asValue).Faultless :=
        fun operand hoperand => ih operand hoperand (h.operand hoperand)
      obtain ⟨hadmits, -⟩ := h.root
      unfold evaluate
      refine Faultless.recorded _ ?_
      generalize operator.form = form at hadmits
      cases hadmits with
      | unary operand =>
          exact (hwalk operand (by simp) _ _).bind fun _ => .operator _ _
      | binary left right =>
          exact (hwalk left (by simp) _ _).bind fun _ =>
            (hwalk right (by simp) _ _).bind fun _ => .operator _ _
      | disjunction left right =>
          refine (hwalk left (by simp) _ _).bind fun value => ?_
          split
          · exact .done value
          · exact hwalk right (by simp) _ _
      | conjunction left right =>
          refine (hwalk left (by simp) _ _).bind fun value => ?_
          split
          · exact hwalk right (by simp) _ _
          · exact .done value
      | member target name => exact (hwalk target (by simp) _ _).bind fun _ => .member _ _ _
      | grouping inner => exact hwalk inner (by simp) _ _
      | functionCall name arguments =>
          refine (evaluateAll_faultless arguments 1 fun argument hargument layout => ?_).bind
            fun _ => .function _ _ _ _
          exact hwalk argument (List.mem_cons_of_mem _ hargument) layout true
      | methodCall target name arguments =>
          refine (hwalk target (by simp) _ _).bind fun _ =>
            (evaluateAll_faultless arguments 2 fun argument hargument layout => ?_).bind
              fun _ => .method _ _ _ _
          exact hwalk argument (by simp [hargument]) layout true
      | indexing target first rest =>
          refine (hwalk target (by simp) _ _).bind fun _ => (hwalk first (by simp) _ _).bind
            fun _ => (evaluateAll_faultless rest 2 fun index hindex layout => ?_).bind
              fun _ => .index _ _ _
          exact hwalk index (by simp [hindex]) layout true
      | dump operand =>
          exact (hwalk operand (by simp) _ _).bind fun value => .dump _ _ (.done value)
      | log operand => exact (hwalk operand (by simp) _ _).bind fun value => .log _ _ (.done value)

end Formula

namespace Tree

/-- The callbacks of an evaluation. -/
def callbacks (m : Machine) (tree : Tree) (asValue : Bool) (w : World) : List Callback :=
  (tree.program w.slots asValue).callbacks m w.entered

end Tree

namespace Grammar

variable {g : Grammar}

/-- Every tree that is read has at each node the operands of its form and the native
function of its name. Hence it is lowered unless it is too deep, evaluating it, lowered or
not, fails exactly if a callback fails or breaks off, and that a node is malformed is
never found by the evaluation itself but only reported by a native or precompiled routine. -/
theorem read_fails_only_outside (hstandard : g.operators = .standard) {text : String}
    {formula : Formula} (hread : g.read text = .ok formula) {nodes : Set Tree} {w : World}
    (hw : w.Reachable nodes) :
    (∀ path node, formula.descendant? path = some node → node.IsShaped g.functions) ∧
    (∀ limit, let outcome := ((w.plant formula).1.tryCompile limit (w.plant formula).2).1
      if limit < formula.depth then outcome = .error (.maxDepthExceeded formula.depth limit)
      else ∃ code, outcome = .ok code) ∧
    ∀ tree ∈ nodes, tree.formula = formula → ∀ (host : Host) (levels : Nat) (asValue : Bool),
      let result := (tree.calcChecked (.ofHost host levels) asValue w).1
      let callbacks := tree.callbacks (.ofHost host levels) asValue w
      (∀ error, result = .error error ↔
        ∃ callback ∈ callbacks, callback.error? = some error) ∧
      (∀ fault, result = .error (.malformed fault) →
        ∃ routine, .routine routine (.failed (.malformed fault)) ∈ callbacks) ∧
      ((∃ value, result = .ok value) ↔ ∀ callback ∈ callbacks, callback.error? = none) := by
  have hshaped := wellShaped_of_read hstandard hread
  refine ⟨hshaped, fun limit => ?_, ?_⟩
  · have houtcome := Tree.tryCompile_planted hw.standing.fresh formula limit
    have hrefusal : formula.refusal? limit =
        if limit < formula.depth then some (.maxDepthExceeded formula.depth limit) else none := by
      rw [Formula.refusal?, hshaped.fault?_eq_none, Option.map_none]
    rw [hrefusal] at houtcome
    split
    next hdeep => simpa [hdeep] using houtcome
    next hdeep => simpa [hdeep] using houtcome
  · rintro tree htree rfl host levels asValue
    have hfaultless : (tree.program w.slots asValue).Faultless := by
      rw [Tree.program_eq_evaluate htree hw.standing.sound asValue]
      exact hshaped.evaluate_faultless tree.layout asValue
    have herror : ∀ error, (tree.calcChecked (.ofHost host levels) asValue w).1 = .error error ↔
        ∃ callback ∈ tree.callbacks (.ofHost host levels) asValue w,
          callback.error? = some error := by
      intro error
      rw [Tree.calcChecked_result]
      exact hfaultless.trapped_run_eq_error_iff _ _
    refine ⟨herror, fun fault hfault => ?_, ?_⟩
    · obtain ⟨callback, hcallback, hmalformed⟩ := (herror _).mp hfault
      obtain ⟨routine, rfl⟩ := Callback.eq_routine_of_malformed hmalformed
      exact ⟨routine, hcallback⟩
    · constructor
      · rintro ⟨value, hvalue⟩ callback hcallback
        refine Option.eq_none_iff_forall_ne_some.mpr fun error hfound => ?_
        rw [(herror error).mpr ⟨callback, hcallback, hfound⟩] at hvalue
        cases hvalue
      · intro hnone
        cases hresult : (tree.calcChecked (.ofHost host levels) asValue w).1 with
        | ok value => exact ⟨value, rfl⟩
        | error error =>
            obtain ⟨callback, hcallback, hfound⟩ := (herror error).mp hresult
            rw [hnone callback hcallback] at hfound
            cases hfound

/-- A formula with a native function, of which no look-up fails on an empty host. -/
theorem sum_fails_only_outside : ∃ formula, standard.operators = .standard ∧
    standard.read "max(a, 1) + b.c" = .ok formula ∧
    let planted := World.plant {} formula
    planted.2.Reachable (∅ ∪ planted.1.nodes) ∧ planted.1 ∈ ∅ ∪ planted.1.nodes ∧
      ((∃ value, (planted.1.calcOn .empty true planted.2).1 = .ok value) ↔
        ∀ callback ∈ planted.1.callbacks (.ofHost .empty nestingLevels) true planted.2,
          callback.error? = none) := by
  have hcheck : (standard.read "max(a, 1) + b.c").isOk = true := by decide +kernel
  cases hread : standard.read "max(a, 1) + b.c" with
  | error failure =>
      rw [hread] at hcheck
      cases hcheck
  | ok formula =>
      have hw : (World.plant {} formula).2.Reachable (∅ ∪ (World.plant {} formula).1.nodes) :=
        .plant .start formula
      have hself : (World.plant {} formula).1 ∈ ∅ ∪ (World.plant {} formula).1.nodes :=
        Or.inr (Tree.self_mem_nodes _)
      obtain ⟨-, -, houtside⟩ := read_fails_only_outside rfl hread hw
      obtain ⟨-, -, hok⟩ := houtside _ hself rfl .empty nestingLevels true
      exact ⟨formula, rfl, rfl, hw, hself, hok⟩

end Grammar

end Formulary
