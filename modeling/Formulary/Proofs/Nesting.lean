import Mathlib.Data.List.Basic
import Formulary.Proofs.Callbacks

/-! # Evaluations inside evaluations

Host code may evaluate formulas while a formula is evaluated, and the host code that these
ask may do so again. An activation is one call of the boundary around an evaluation; the
activations nested in it are all those made before it ends, at any depth, in the order in
which they end. Whatever fails in them, the mark of a running evaluation, the counters, the
lines about failures and the last result of the root are what the list of nested
activations says.
-/

namespace Formulary

/-- One call of the boundary: a tree, what is wanted of it, the world it is evaluated in and
how many calls of the host may still be nested in it. -/
structure Activation where
  levels : Nat
  tree : Tree
  asValue : Bool
  world : World

namespace Activation

variable (host : Host) (a : Activation)

/-- What the caller gets, and the world afterwards. -/
def run : Except EvalError Value × World :=
  a.tree.calcChecked (.ofHost host a.levels) a.asValue a.world

/-- The error that the boundary trapped. -/
def error? : Option EvalError :=
  match (a.run host).1 with
  | .ok _ => none
  | .error error => some error

/-- The value, for a caller that takes `unknown` for a failure. -/
def value : Value := (a.run host).1.toOption.getD .unknown

/-- The line about its failure, which says whether it was part of another activation. -/
def line? : Option LogEvent :=
  (a.error? host).map fun error =>
    if a.world.evaluating then .nestedFailed a.tree.formula.text error
    else .failed a.tree.formula.text error

end Activation

/-- The activations made by each service of a machine. -/
structure Machine.Census where
  ask : Request → World → List Activation
  describe : World → List Activation
  evaluate : Formula → Bool → Bool → World → List Activation

/-- The activations made in a run of foreign code. -/
def Routine.activations {ε α : Type} (m : Machine) (census : Machine.Census) :
    Routine Formula ε α → World → List Activation
  | done _, _ => []
  | fail _, _ => []
  | panic _, _ => []
  | ask request next, w =>
    census.ask request w ++
      match m.ask request w with
      | (.answered answer, w) => (next (.ok answer)).activations m census w
      | (.failed message, w) => (next (.error message)).activations m census w
      | (.panicked _, _) => []
  | evaluate formula compiled asValue next, w =>
    census.evaluate formula compiled asValue w ++
      match m.evaluate formula compiled asValue w with
      | (some result, w) => (next result).activations m census w
      | (none, _) => []
  | fresh next, w =>
    (next w.nextSerial).activations m census { w with nextSerial := w.nextSerial + 1 }
  | misread text error next, w => next.activations m census (w.write (.misread text error))

/-- The activations made in a run of a program. -/
def Program.activations {α : Type} (m : Machine) (census : Machine.Census) :
    Program α → World → List Activation
  | done _, _ => []
  | fail _, _ => []
  | ask request next, w =>
    census.ask request w ++
      match m.ask request w with
      | (.answered answer, w) => (next answer).activations m census w
      | (.failed _, _) => []
      | (.panicked _, _) => []
  | invoke routine next, w =>
    routine.activations m census w ++
      match routine.run m w with
      | (.answered answer, w) => (next answer).activations m census w
      | (.failed _, _) => []
      | (.panicked _, _) => []
  | operate operator operands next, w => (next (operator.result operands)).activations m census w
  | record cell result next, w => next.activations m census (w.keep cell result)
  | log text value next, w => next.activations m census (w.write (.logged text value))
  | dump tree value next, w =>
    census.describe w ++
      match m.describe w with
      | (.answered host, w) =>
        next.activations m census
          (w.write (.dump tree.formula.text value host (tree.traceLines "  " w)))
      | (.failed _, _) => []
      | (.panicked _, _) => []

namespace Machine

/-- The activations made by the machine of a host. An activation stands behind those nested
in it. -/
def census (host : Host) : Nat → Census
  | 0 => ⟨fun _ _ => [], fun _ => [], fun _ _ _ _ => []⟩
  | levels + 1 => {
    ask := fun request w =>
      (host.respond w.calls request).activations (ofHost host levels) (census host levels)
        (w.noteCall (.request request))
    describe := fun w =>
      (host.describe w.calls).activations (ofHost host levels) (census host levels)
        (w.noteCall .describe)
    evaluate := fun formula compiled asValue w =>
      let (tree, w) := w.plant formula
      let w := if compiled then (tree.compile defaultDepthLimit w).2 else w
      (tree.program w.slots asValue).activations (ofHost host levels) (census host levels) w.entered
        ++ [⟨levels, tree, asValue, w⟩] }

end Machine

/-- The activations nested in one, at any depth, in the order in which they end. -/
def Activation.nested (host : Host) (a : Activation) : List Activation :=
  (a.tree.program a.world.slots a.asValue).activations (.ofHost host a.levels)
    (Machine.census host a.levels) a.world.entered

namespace LogEvent

/-- Whether the line says that an evaluation which was part of another one failed. -/
def isNestedFailure : LogEvent → Bool
  | nestedFailed _ _ => true
  | _ => false

/-- Whether the line says that an evaluation failed. -/
def isFailure (event : LogEvent) : Bool := event.level == .error || event.isNestedFailure

/-- Lines of a kind of failure are found among the lines about failures. -/
theorem filter_isFailure {kind : LogEvent → Bool}
    (hkind : ∀ line, kind line = true → line.isFailure = true) (lines : List LogEvent) :
    (lines.filter isFailure).filter kind = lines.filter kind := by
  rw [List.filter_filter]
  refine List.filter_congr fun line _ => ?_
  cases hline : kind line with
  | false => rfl
  | true => rw [hkind line hline, Bool.and_self]

end LogEvent

variable {host : Host}

/-- What lies between two worlds of a running evaluation in which the given activations were
made. -/
structure World.Passes (host : Host) (w after : World) (made : List Activation) : Prop where
  evaluating : after.evaluating = w.evaluating
  evaluations : after.evaluations = w.evaluations + made.length
  failures : after.failures = w.failures + (made.filterMap (·.error? host)).length
  log : ∃ lines, after.log = w.log ++ lines ∧
    lines.filter LogEvent.isFailure = made.filterMap (·.line? host)
  nested : ∀ call ∈ made, call.world.evaluating = true

namespace World.Passes

variable {w middle after : World} {first second : List Activation}

/-- Nothing about evaluations was done. -/
theorem of_eq (hevaluating : after.evaluating = w.evaluating)
    (hevaluations : after.evaluations = w.evaluations) (hfailures : after.failures = w.failures)
    (hlog : after.log = w.log) : w.Passes host after [] :=
  ⟨hevaluating, hevaluations, hfailures, ⟨[], by simp [hlog], rfl⟩, by simp⟩

theorem refl (w : World) : w.Passes host w [] := of_eq rfl rfl rfl rfl

theorem write (w : World) {event : LogEvent} (hevent : event.isFailure = false) :
    w.Passes host (w.write event) [] :=
  ⟨rfl, rfl, rfl, ⟨[event], rfl, by simp [hevent]⟩, by simp⟩

theorem trans (hfirst : w.Passes host middle first) (hsecond : middle.Passes host after second) :
    w.Passes host after (first ++ second) where
  evaluating := hsecond.evaluating.trans hfirst.evaluating
  evaluations := by
    rw [hsecond.evaluations, hfirst.evaluations, List.length_append, Nat.add_assoc]
  failures := by
    rw [hsecond.failures, hfirst.failures, List.filterMap_append, List.length_append,
      Nat.add_assoc]
  log := by
    obtain ⟨lines, hlog, hlines⟩ := hfirst.log
    obtain ⟨later, hlog', hlater⟩ := hsecond.log
    refine ⟨lines ++ later, by rw [hlog', hlog, List.append_assoc], ?_⟩
    rw [List.filter_append, hlines, hlater, List.filterMap_append]
  nested := List.forall_mem_append.mpr ⟨hfirst.nested, hsecond.nested⟩

/-- A step without activations, and then others. -/
theorem step (hfirst : w.Passes host middle []) (hsecond : middle.Passes host after second) :
    w.Passes host after second :=
  hfirst.trans hsecond

end World.Passes

/-- Lowering has nothing to do with evaluations. -/
theorem Tree.compile_passes (tree : Tree) (limit : Nat) (w : World) :
    w.Passes host (tree.compile limit w).2 [] := by
  unfold compile tryCompile
  split
  · exact .refl w
  · exact .refl w
  · simp only
    cases hrun : tree.lower limit w.slots with
    | mk outcome slots =>
        have hslots : w.Passes host { w with slots := slots } [] := .of_eq rfl rfl rfl rfl
        cases outcome with
        | ok code => exact hslots
        | error error => exact hslots.step (.write _ rfl)

/-- A census names all activations of a machine that runs inside an evaluation. -/
structure Machine.Counted (host : Host) (m : Machine) (census : Machine.Census) : Prop where
  ask : ∀ request (w : World), w.evaluating = true →
    w.Passes host (m.ask request w).2 (census.ask request w)
  describe : ∀ w : World, w.evaluating = true →
    w.Passes host (m.describe w).2 (census.describe w)
  evaluate : ∀ formula compiled asValue (w : World), w.evaluating = true →
    w.Passes host (m.evaluate formula compiled asValue w).2
      (census.evaluate formula compiled asValue w)

variable {m : Machine} {census : Machine.Census}

theorem Routine.run_passes {ε α : Type} (hm : m.Counted host census)
    (routine : Routine Formula ε α) {w : World} (hw : w.evaluating = true) :
    w.Passes host (routine.run m w).2 (routine.activations m census w) := by
  induction routine generalizing w with
  | done answer => exact .refl w
  | fail error => exact .refl w
  | panic message => exact .refl w
  | ask request next ih =>
      have hask := hm.ask request w hw
      rw [run, activations]
      cases hrun : m.ask request w with
      | mk outcome after =>
          rw [hrun] at hask
          have hafter : after.evaluating = true := hask.evaluating.trans hw
          cases outcome with
          | answered answer => exact hask.trans (ih _ hafter)
          | failed message => exact hask.trans (ih _ hafter)
          | panicked message => exact hask.trans (.refl after)
  | evaluate formula compiled asValue next ih =>
      have hevaluate := hm.evaluate formula compiled asValue w hw
      rw [run, activations]
      cases hrun : m.evaluate formula compiled asValue w with
      | mk result after =>
          rw [hrun] at hevaluate
          cases result with
          | some result => exact hevaluate.trans (ih _ (hevaluate.evaluating.trans hw))
          | none => exact hevaluate.trans (.refl after)
  | fresh next ih =>
      have hfresh : w.Passes host { w with nextSerial := w.nextSerial + 1 } [] :=
        .of_eq rfl rfl rfl rfl
      rw [run, activations]
      exact hfresh.step (ih _ hw)
  | misread text error next ih =>
      rw [run, activations]
      exact (World.Passes.write w rfl).step (ih hw)

theorem Program.run_passes {α : Type} (hm : m.Counted host census) (p : Program α) {w : World}
    (hw : w.evaluating = true) : w.Passes host (p.run m w).2 (p.activations m census w) := by
  induction p generalizing w with
  | done result => exact .refl w
  | fail error => exact .refl w
  | ask request next ih =>
      have hask := hm.ask request w hw
      rw [run, activations]
      cases hrun : m.ask request w with
      | mk outcome after =>
          rw [hrun] at hask
          cases outcome with
          | answered answer => exact hask.trans (ih _ (hask.evaluating.trans hw))
          | failed message => exact hask.trans (.refl after)
          | panicked message => exact hask.trans (.refl after)
  | invoke routine next ih =>
      have hroutine := routine.run_passes hm hw
      rw [run, activations]
      cases hrun : routine.run m w with
      | mk outcome after =>
          rw [hrun] at hroutine
          cases outcome with
          | answered answer => exact hroutine.trans (ih _ (hroutine.evaluating.trans hw))
          | failed error => exact hroutine.trans (.refl after)
          | panicked message => exact hroutine.trans (.refl after)
  | operate operator operands next ih =>
      rw [run, activations]
      exact ih _ hw
  | record cell result next ih =>
      have hkeep : w.Passes host (w.keep cell result) [] := .of_eq rfl rfl rfl rfl
      rw [run, activations]
      exact hkeep.step (ih hw)
  | log text value next ih =>
      rw [run, activations]
      exact (World.Passes.write w rfl).step (ih hw)
  | dump tree value next ih =>
      have hdescribe := hm.describe w hw
      rw [run, activations]
      cases hrun : m.describe w with
      | mk outcome after =>
          rw [hrun] at hdescribe
          have hafter : after.evaluating = true := hdescribe.evaluating.trans hw
          cases outcome with
          | answered description =>
              exact hdescribe.trans ((World.Passes.write after rfl).step (ih hafter))
          | failed error => cases error
          | panicked message => exact hdescribe.trans (.refl after)

namespace Activation

variable (host : Host) (a : Activation)

/-- The world in which the program of an activation ends. -/
def ended : World :=
  ((a.tree.program a.world.slots a.asValue).run (.ofHost host a.levels) a.world.entered).2

/-- The same with the mark as it was before. -/
def left : World := { a.ended host with evaluating := a.world.evaluating }

variable {host a}

theorem run_snd (h : (a.ended host).evaluating = true) : (a.run host).2 =
    (a.error? host).elim (a.left host) fun error =>
      a.tree.noteFailure (!a.world.evaluating) error (a.left host) := by
  have hleft : a.left host = if !a.world.evaluating then { a.ended host with evaluating := false }
      else a.ended host := by
    unfold left
    cases hmark : a.world.evaluating with
    | true => exact congrArg (fun mark => { a.ended host with evaluating := mark }) h.symm
    | false => rfl
  rw [hleft]
  unfold error? run Tree.calcChecked ended World.entered
  simp only
  split <;> simp_all

theorem line?_isFailure {line : LogEvent} (h : a.line? host = some line) :
    line.isFailure = true := by
  obtain ⟨error, -, rfl⟩ := Option.map_eq_some_iff.mp h
  split
  · rfl
  · rfl

/-- The boundary adds itself to what was counted inside it. -/
theorem run_counts
    (hm : (Machine.ofHost host a.levels).Counted host (Machine.census host a.levels)) :
    (a.run host).2.evaluating = a.world.evaluating ∧
    (a.run host).2.evaluations = a.world.evaluations + (a.nested host ++ [a]).length ∧
    (a.run host).2.failures =
      a.world.failures + ((a.nested host ++ [a]).filterMap (·.error? host)).length ∧
    (∃ lines, (a.run host).2.log = a.world.log ++ lines ∧
      lines.filter LogEvent.isFailure = (a.nested host ++ [a]).filterMap (·.line? host)) ∧
    ∀ call ∈ a.nested host, call.world.evaluating = true := by
  have hpasses : a.world.entered.Passes host (a.ended host) (a.nested host) :=
    (a.tree.program a.world.slots a.asValue).run_passes hm rfl
  obtain ⟨hevaluating, hevaluations, hfailures, ⟨lines, hlog, hlines⟩, hnested⟩ := hpasses
  have hcount : (a.ended host).evaluations =
      a.world.evaluations + (a.nested host ++ [a]).length := by
    rw [hevaluations, List.length_append, List.length_singleton]
    simp only [World.entered]
    omega
  have hfailures' : (a.left host).failures =
      a.world.failures + ((a.nested host).filterMap (·.error? host)).length := hfailures
  have hlog' : (a.left host).log = a.world.log ++ lines := hlog
  rw [run_snd hevaluating, List.filterMap_append, List.filterMap_append]
  cases herror : a.error? host with
  | none =>
      have hline : a.line? host = none := by rw [line?, herror, Option.map_none]
      refine ⟨rfl, hcount, ?_, ⟨lines, hlog', ?_⟩, hnested⟩
      · simpa [herror] using hfailures'
      · simpa [hline] using hlines
  | some error =>
      obtain ⟨line, hline⟩ : ∃ line, a.line? host = some line := by simp [line?, herror]
      have hnote : (a.tree.noteFailure (!a.world.evaluating) error (a.left host)).log =
          (a.left host).log ++ [line] := by
        simp only [line?, herror, Option.map_some, Option.some.injEq] at hline
        rw [← hline]
        cases a.world.evaluating <;> rfl
      refine ⟨rfl, hcount, ?_, ⟨lines ++ [line], ?_, ?_⟩, hnested⟩
      · simp [Tree.noteFailure, World.write, World.keep, hfailures', herror, Nat.add_assoc]
      · rw [Option.elim_some, hnote, hlog', List.append_assoc]
      · simp [hlines, hline, line?_isFailure hline]

end Activation

namespace Machine

/-- The census of a host is right at every depth of nesting. -/
theorem ofHost_counted (host : Host) (levels : Nat) :
    (ofHost host levels).Counted host (Machine.census host levels) := by
  induction levels with
  | zero => exact ⟨fun _ w _ => .refl w, fun w _ => .refl w, fun _ _ _ w _ => .refl w⟩
  | succ levels ih =>
      refine ⟨fun request w hw => ?_, fun w hw => ?_, fun formula compiled asValue w hw => ?_⟩
      · have hnoted : w.Passes host (w.noteCall (.request request)) [] := .of_eq rfl rfl rfl rfl
        exact hnoted.step ((host.respond w.calls request).run_passes ih hw)
      · have hnoted : w.Passes host (w.noteCall .describe) [] := .of_eq rfl rfl rfl rfl
        exact hnoted.step ((host.describe w.calls).run_passes ih hw)
      · have hplanted : w.Passes host (w.plant formula).2 [] := .of_eq rfl rfl rfl rfl
        -- Lowered or not, the tree is evaluated in a world with the mark still set.
        let ready : World := if compiled then
          ((w.plant formula).1.compile defaultDepthLimit (w.plant formula).2).2
          else (w.plant formula).2
        have hready : w.Passes host ready [] := by
          cases compiled with
          | false => exact hplanted
          | true => exact hplanted.step (Tree.compile_passes _ _ _)
        let a : Activation := ⟨levels, (w.plant formula).1, asValue, ready⟩
        have hmark : a.world.evaluating = true := hready.evaluating.trans hw
        obtain ⟨hevaluating, hevaluations, hfailures, hlog, hnested⟩ :=
          a.run_counts ih
        have hpasses : ready.Passes host (a.run host).2 (a.nested host ++ [a]) := by
          refine ⟨hevaluating, hevaluations, hfailures, hlog, ?_⟩
          exact List.forall_mem_append.mpr ⟨hnested, List.forall_mem_singleton.mpr hmark⟩
        exact hready.step hpasses

end Machine

/-- What keeps its result in a cell leaves it there. -/
theorem Program.result_of_recorded {m : Machine} {cell : Cell} {p : Program Value} {w after : World}
    {value : Value} (h : (recorded cell p).run m w = (.answered value, after)) :
    after.result cell = value := by
  induction p generalizing w with
  | done result =>
      obtain ⟨rfl, rfl⟩ : result = value ∧ w.keep cell result = after := by
        simpa [recorded, bind, run] using h
      simp
  | fail error => simp [recorded, bind, run] at h
  | ask request next ih =>
      simp only [recorded, bind, run] at h
      cases hask : m.ask request w with
      | mk outcome middle =>
          rw [hask] at h
          cases outcome with
          | answered answer => exact ih answer h
          | failed message => simp at h
          | panicked message => simp at h
  | invoke routine next ih =>
      simp only [recorded, bind, run] at h
      cases hrun : routine.run m w with
      | mk outcome middle =>
          rw [hrun] at h
          cases outcome with
          | answered answer => exact ih answer h
          | failed error => simp at h
          | panicked message => simp at h
  | operate operator operands next ih => exact ih _ h
  | record other result next ih => exact ih h
  | log text value next ih => exact ih h
  | dump tree shown next ih =>
      simp only [recorded, bind, run] at h
      cases hdescribe : m.describe w with
      | mk outcome middle =>
          rw [hdescribe] at h
          cases outcome with
          | answered description => exact ih h
          | failed error => cases error
          | panicked message => simp at h

/-- Whatever a tree does ends with keeping the result in the cell of its root. -/
theorem Tree.exists_recorded (tree : Tree) (slots : Slots) (asValue : Bool) :
    ∃ p, tree.program slots asValue = .recorded tree.cell p := by
  unfold program
  split
  · exact ⟨_, rfl⟩
  · cases hformula : tree.formula with
    | constant value =>
        rw [Formula.evaluate]
        exact ⟨_, rfl⟩
    | identifier name =>
        rw [Formula.evaluate]
        exact ⟨_, rfl⟩
    | precompiled expression =>
        rw [Formula.evaluate]
        exact ⟨_, rfl⟩
    | apply operator native operands =>
        unfold Formula.evaluate
        exact ⟨_, rfl⟩

namespace Activation

variable (host : Host) (a : Activation)

/-- The last result of the root is the value, or `unknown` after a failure. -/
theorem lastResult_run : a.tree.lastResult (a.run host).2 = a.value host := by
  have hmark : (a.ended host).evaluating = true :=
    ((a.tree.program a.world.slots a.asValue).run_passes (Machine.ofHost_counted host a.levels)
      (w := a.world.entered) rfl).evaluating
  have hresult := a.tree.calcChecked_result (.ofHost host a.levels) a.asValue a.world
  rw [run_snd hmark]
  cases hrun : (a.run host).1 with
  | error error =>
      have herror : a.error? host = some error := by simp only [error?, hrun]
      rw [herror, Option.elim_some, value, hrun]
      simp [Tree.noteFailure, Tree.lastResult, Except.toOption]
  | ok value =>
      have herror : a.error? host = none := by simp only [error?, hrun]
      obtain ⟨p, hp⟩ := a.tree.exists_recorded a.world.slots a.asValue
      have hanswered : ((a.tree.program a.world.slots a.asValue).run (.ofHost host a.levels)
          a.world.entered).1 = .answered value := by
        have htrapped := hresult.symm.trans hrun
        cases houtcome : ((a.tree.program a.world.slots a.asValue).run (.ofHost host a.levels)
            a.world.entered).1 with
        | answered answer =>
            rw [houtcome] at htrapped
            rw [Except.ok.inj htrapped]
        | failed error =>
            rw [houtcome] at htrapped
            cases htrapped
        | panicked message =>
            rw [houtcome] at htrapped
            cases htrapped
      have hkept : (a.ended host).result a.tree.cell = value := by
        refine Program.result_of_recorded (p := p) (m := .ofHost host a.levels)
          (w := a.world.entered) ?_
        rw [← hp]
        exact Prod.ext hanswered rfl
      rw [herror, Option.elim_none, Activation.value, hrun]
      exact hkept

/-- Inside another activation a failure is noted as a nested one. -/
theorem line?_of_evaluating (h : a.world.evaluating = true) :
    a.line? host = (a.error? host).map (.nestedFailed a.tree.formula.text) := by
  simp [line?, h]

/-- Activations inside others write no error lines. -/
theorem filter_error_lines {calls : List Activation}
    (h : ∀ call ∈ calls, call.world.evaluating = true) :
    (calls.filterMap (·.line? host)).filter (·.level == .error) = [] := by
  rw [List.filter_filterMap, List.filterMap_eq_nil_iff]
  intro call hcall
  rw [line?_of_evaluating host call (h call hcall)]
  cases call.error? host <;> rfl

/-- The lines of activations inside others are all about nested failures. -/
theorem filter_nested_lines {calls : List Activation}
    (h : ∀ call ∈ calls, call.world.evaluating = true) :
    (calls.filterMap (·.line? host)).filter LogEvent.isNestedFailure =
      calls.filterMap fun call =>
        (call.error? host).map (.nestedFailed call.tree.formula.text) := by
  rw [List.filter_filterMap]
  refine List.filterMap_congr fun call hcall => ?_
  rw [line?_of_evaluating host call (h call hcall)]
  cases call.error? host <;> rfl

end Activation

/-- Around every evaluation, whatever is evaluated inside it and however that ends: the mark of
a running evaluation is as before; the counters have grown by the activation itself and
those nested in it, of which the failed ones count as failures; there is one error line if
it fails and is not part of another activation, and none otherwise; there is one line about
a nested failure for each activation that is part of another one and fails; and the last
result of the root is what the caller gets. -/
theorem Activation.run_accounts (host : Host) (a : Activation) :
    let after := (a.run host).2
    let nested := a.nested host
    after.evaluating = a.world.evaluating ∧
    after.evaluations = a.world.evaluations + 1 + nested.length ∧
    after.failures =
      a.world.failures + (nested ++ [a]).countP (fun call => (call.error? host).isSome) ∧
    (∃ lines, after.log = a.world.log ++ lines ∧
      lines.filter (·.level == .error) =
        (if a.world.evaluating then [] else [a]).filterMap
          (fun call => (call.error? host).map (.failed call.tree.formula.text)) ∧
      lines.filter LogEvent.isNestedFailure =
        (nested ++ if a.world.evaluating then [a] else []).filterMap
          (fun call => (call.error? host).map (.nestedFailed call.tree.formula.text))) ∧
    (∀ call ∈ nested, call.world.evaluating = true) ∧
    a.tree.lastResult after = a.value host := by
  obtain ⟨hevaluating, hevaluations, hfailures, ⟨lines, hlog, hlines⟩, hnested⟩ :=
    run_counts (Machine.ofHost_counted host a.levels)
  have hinside (hmark : a.world.evaluating = true) :
      ∀ call ∈ a.nested host ++ [a], call.world.evaluating = true :=
    List.forall_mem_append.mpr ⟨hnested, List.forall_mem_singleton.mpr hmark⟩
  refine ⟨hevaluating, ?_, ?_, ⟨lines, hlog, ?_, ?_⟩, hnested, a.lastResult_run host⟩
  · rw [hevaluations, List.length_append, List.length_singleton]
    omega
  · rw [hfailures, List.length_filterMap_eq_countP]
  · rw [← LogEvent.filter_isFailure (fun line hline => by simp [LogEvent.isFailure, hline]), hlines]
    cases hmark : a.world.evaluating with
    | true => exact filter_error_lines host (hinside hmark)
    | false =>
        rw [List.filterMap_append, List.filter_append, filter_error_lines host hnested]
        cases herror : a.error? host <;> simp [line?, herror, hmark, LogEvent.level]
  · rw [← LogEvent.filter_isFailure (fun line hline => by simp [LogEvent.isFailure, hline]), hlines]
    cases hmark : a.world.evaluating with
    | true => exact filter_nested_lines host (hinside hmark)
    | false =>
        rw [List.filterMap_append, List.filter_append, filter_nested_lines host hnested]
        cases herror : a.error? host <;> simp [line?, herror, hmark, LogEvent.isNestedFailure]

end Formulary
