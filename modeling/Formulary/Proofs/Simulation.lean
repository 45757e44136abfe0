import Formulary.Machine
import Formulary.Proofs.Lowering

/-! # Evaluations that differ in memory alone

Two programs are similar if they take the same steps and differ only in the cells that
keep results. Run in worlds that hold the same results in matching cells, they end the
same way, ask the host the same questions, write the same lines and leave the same
results behind; whatever host code evaluates in between has memory of its own.
-/

namespace Formulary

/-- Which cells match. From `base` on every cell matches itself. -/
structure Renaming where
  rel : Cell → Cell → Prop
  base : Nat
  eq_iff : ∀ {c c' d d'}, rel c c' → rel d d' → (c = d ↔ c' = d')
  rel_self : ∀ {c}, base ≤ c.tree → rel c c

namespace Renaming

/-- Every cell matches itself and no other. -/
def identity (base : Nat) : Renaming where
  rel := Eq
  base := base
  eq_iff := by
    rintro c _ d _ rfl rfl
    exact Iff.rfl
  rel_self _ := rfl

end Renaming

/-- The nodes of a formula have matching cells in two layouts. -/
def Formula.Matches (formula : Formula) (ρ : Renaming) (layout layout' : Layout) : Prop :=
  ∀ path, (formula.descendant? path).isSome → ρ.rel (layout path) (layout' path)

namespace Formula.Matches

variable {formula : Formula} {ρ : Renaming} {layout layout' : Layout}

theorem root (h : formula.Matches ρ layout layout') : ρ.rel layout.root layout'.root :=
  h [] (by rw [descendant?_nil]; rfl)

theorem below (h : formula.Matches ρ layout layout') {i : Nat} {operand : Formula}
    (hoperand : formula.operands[i]? = some operand) :
    operand.Matches ρ (layout.below i) (layout'.below i) := by
  intro path hpath
  exact h (i :: path) (by rwa [descendant?_cons path hoperand])

/-- A planted tree keeps its cells. -/
theorem ofTree {serial : Nat} (hserial : ρ.base ≤ serial) :
    formula.Matches ρ (Layout.ofTree serial) (Layout.ofTree serial) :=
  fun _ _ => ρ.rel_self hserial

end Formula.Matches

namespace Program

variable {α β : Type} {ρ : Renaming}

/-- The same steps, with results kept in matching cells. -/
inductive Similar (ρ : Renaming) {α : Type} : Program α → Program α → Prop where
  | done (result) : Similar ρ (.done result) (.done result)
  | fail (error) : Similar ρ (.fail error) (.fail error)
  | ask (request) {next next' : Value → Program α} (h : ∀ v, Similar ρ (next v) (next' v)) :
      Similar ρ (.ask request next) (.ask request next')
  | invoke (routine) {next next' : Value → Program α} (h : ∀ v, Similar ρ (next v) (next' v)) :
      Similar ρ (.invoke routine next) (.invoke routine next')
  | operate (operator operands) {next next' : Value → Program α}
      (h : ∀ v, Similar ρ (next v) (next' v)) :
      Similar ρ (.operate operator operands next) (.operate operator operands next')
  | record {cell cell' : Cell} (hcell : ρ.rel cell cell') (result) {next next' : Program α}
      (h : Similar ρ next next') : Similar ρ (.record cell result next) (.record cell' result next')
  | log (text value) {next next' : Program α} (h : Similar ρ next next') :
      Similar ρ (.log text value next) (.log text value next')
  | dump {formula : Formula} {layout layout' : Layout}
      (hmatches : formula.Matches ρ layout layout') (value) {next next' : Program α}
      (h : Similar ρ next next') :
      Similar ρ (.dump ⟨formula, layout⟩ value next) (.dump ⟨formula, layout'⟩ value next')

namespace Similar

theorem bind {p p' : Program α} (hp : Similar ρ p p') {k k' : α → Program β}
    (hk : ∀ a, Similar ρ (k a) (k' a)) : Similar ρ (p.bind k) (p'.bind k') := by
  induction hp with
  | done result => exact hk result
  | fail error => exact .fail error
  | ask request _ ih => exact .ask request ih
  | invoke routine _ ih => exact .invoke routine ih
  | operate operator operands _ ih => exact .operate operator operands ih
  | record hcell result _ ih => exact .record hcell result ih
  | log text value _ ih => exact .log text value ih
  | dump hmatches value _ ih => exact .dump hmatches value ih

theorem recorded {p p' : Program Value} {cell cell' : Cell} (hcell : ρ.rel cell cell')
    (hp : Similar ρ p p') : Similar ρ (Program.recorded cell p) (Program.recorded cell' p') :=
  hp.bind fun result => .record hcell result (.done result)

/-- Programs that touch no memory are similar to themselves. -/
theorem request (request : Request) (asValue : Bool) :
    Similar ρ (Program.request request asValue) (Program.request request asValue) := by
  refine .ask request fun answer => ?_
  cases asValue with
  | false => exact .done answer
  | true => exact .ask _ fun _ => .done _

theorem operator (op : Operator) (operands : List Value) :
    Similar ρ (Program.operator op operands) (Program.operator op operands) :=
  .operate op operands fun _ => .done _

theorem member (target : Value) (name : String) (asValue : Bool) :
    Similar ρ (Program.member target name asValue) (Program.member target name asValue) := by
  cases target <;> first | exact request _ _ | exact .done _

theorem function (native : Option (Native Formula)) (name : String) (args : List Value)
    (asValue : Bool) : Similar ρ (Program.function native name args asValue)
      (Program.function native name args asValue) := by
  cases native with
  | none => exact request _ _
  | some native => exact .invoke _ fun _ => .done _

theorem method (target : Value) (name : String) (args : List Value) (asValue : Bool) :
    Similar ρ (Program.method target name args asValue)
      (Program.method target name args asValue) := by
  cases target <;> first | exact request _ _ | exact .done _

theorem index (target : Value) (indices : List Value) (asValue : Bool) :
    Similar ρ (Program.index target indices asValue) (Program.index target indices asValue) := by
  cases target <;> first | exact request _ _ | exact .done _

end Similar

end Program

namespace Formula

open Program (Similar)

variable {ρ : Renaming}

theorem evaluateAll_similar {layout layout' : Layout} (operands : List Formula) (i : Nat)
    (hoperands : ∀ j (hj : j < operands.length), Similar ρ
      (operands[j].evaluate (layout.below (i + j)) true)
      (operands[j].evaluate (layout'.below (i + j)) true)) :
    Similar ρ (evaluateAll layout i operands) (evaluateAll layout' i operands) := by
  induction operands generalizing i with
  | nil =>
      rw [evaluateAll, evaluateAll]
      exact .done []
  | cons operand rest ih =>
      rw [evaluateAll, evaluateAll]
      refine (hoperands 0 (by simp)).bind fun value => ?_
      refine (ih (i + 1) ?_).bind fun values => .done _
      intro j hj
      have htail := hoperands (j + 1) (by simpa using hj)
      rwa [show i + (j + 1) = i + 1 + j by omega] at htail

/-- Walking a formula takes the same steps wherever its nodes keep their results. -/
theorem evaluate_similar (formula : Formula) {layout layout' : Layout}
    (hmatches : formula.Matches ρ layout layout') (asValue : Bool) :
    Similar ρ (formula.evaluate layout asValue) (formula.evaluate layout' asValue) := by
  induction formula using induct generalizing layout layout' asValue with
  | constant value =>
      rw [evaluate, evaluate]
      exact .recorded hmatches.root (.done value)
  | identifier name =>
      rw [evaluate, evaluate]
      exact .recorded hmatches.root (.request _ _)
  | precompiled expression =>
      rw [evaluate, evaluate]
      exact .recorded hmatches.root (.invoke _ fun _ => .done _)
  | apply operator native operands ih =>
      have hwalk : ∀ {i : Nat} {operand : Formula}, operands[i]? = some operand →
          ∀ asValue, Similar ρ
          (operand.evaluate (layout.below i) asValue)
          (operand.evaluate (layout'.below i) asValue) := fun hoperand asValue =>
        ih _ (List.mem_of_getElem? hoperand) (hmatches.below hoperand) asValue
      have hrest : ∀ i, Similar ρ (evaluateAll layout i (operands.drop i))
          (evaluateAll layout' i (operands.drop i)) := by
        intro i
        refine evaluateAll_similar _ _ fun j hj => hwalk ?_ true
        rw [← List.getElem?_drop]
        exact List.getElem?_eq_getElem hj
      unfold evaluate
      refine .recorded hmatches.root ?_
      -- The form and the operands are the same, so both take the same branch.
      cases hform : operator.form with
      | generic =>
          rcases operands with _ | ⟨left, _ | ⟨right, _ | ⟨third, rest⟩⟩⟩
          · exact .fail _
          · exact (hwalk (i := 0) rfl true).bind fun _ => .operator _ _
          · exact (hwalk (i := 0) rfl true).bind fun _ =>
              (hwalk (i := 1) rfl true).bind fun _ => .operator _ _
          · exact .fail _
      | or =>
          rcases operands with _ | ⟨left, _ | ⟨right, _ | ⟨third, rest⟩⟩⟩
          · exact .fail _
          · exact .fail _
          · refine (hwalk (i := 0) rfl true).bind fun value => ?_
            split
            · exact .done value
            · exact hwalk (i := 1) rfl true
          · exact .fail _
      | and =>
          rcases operands with _ | ⟨left, _ | ⟨right, _ | ⟨third, rest⟩⟩⟩
          · exact .fail _
          · exact .fail _
          · refine (hwalk (i := 0) rfl true).bind fun value => ?_
            split
            · exact hwalk (i := 1) rfl true
            · exact .done value
          · exact .fail _
      | parenthesis =>
          rcases operands with _ | ⟨inner, _ | ⟨second, rest⟩⟩
          · exact .fail _
          · exact hwalk (i := 0) rfl asValue
          · exact .fail _
      | dot =>
          rcases operands with _ | ⟨target, _ | ⟨name, _ | ⟨third, rest⟩⟩⟩
          · exact .fail _
          · exact .fail _
          · cases hname : name.identifier? with
            | none =>
                simp only [hname]
                exact .fail _
            | some member =>
                simp only [hname]
                exact (hwalk (i := 0) rfl false).bind fun _ => .member _ _ _
          · exact .fail _
      | functionCall =>
          rcases operands with _ | ⟨name, arguments⟩
          · exact .fail _
          · cases hname : name.identifier? with
            | none =>
                simp only [hname]
                exact .fail _
            | some function =>
                simp only [hname]
                exact (hrest 1).bind fun _ => .function _ _ _ _
      | methodCall =>
          rcases operands with _ | ⟨target, _ | ⟨name, arguments⟩⟩
          · exact .fail _
          · exact .fail _
          · cases hname : name.identifier? with
            | none =>
                simp only [hname]
                exact .fail _
            | some method =>
                simp only [hname]
                exact (hwalk (i := 0) rfl false).bind fun _ =>
                  (hrest 2).bind fun _ => .method _ _ _ _
      | indexer =>
          rcases operands with _ | ⟨target, _ | ⟨first, rest⟩⟩
          · exact .fail _
          · exact .fail _
          · exact (hwalk (i := 0) rfl false).bind fun _ =>
              (hwalk (i := 1) rfl true).bind fun _ =>
                (hrest 2).bind fun _ => .index _ _ _
      | log =>
          rcases operands with _ | ⟨operand, _ | ⟨second, rest⟩⟩
          · exact .fail _
          · exact (hwalk (i := 0) rfl asValue).bind fun value => .log _ _ (.done value)
          · exact .fail _
      | dump =>
          rcases operands with _ | ⟨operand, _ | ⟨second, rest⟩⟩
          · exact .fail _
          · exact (hwalk (i := 0) rfl asValue).bind fun value =>
              .dump (hmatches.below (i := 0) rfl) _ (.done value)
          · exact .fail _

end Formula

/-- Cells of trees that are still to be planted have no slots. -/
def World.Fresh (w : World) : Prop := ∀ cell : Cell, w.nextTree ≤ cell.tree → w.slots[cell]? = none

theorem World.Fresh.congr {w v : World} (h : w.Fresh) (hslots : v.slots = w.slots)
    (hnext : v.nextTree = w.nextTree) : v.Fresh := by
  intro cell hcell
  rw [hnext] at hcell
  rw [hslots]
  exact h cell hcell

/-- Two worlds that differ only in results, and hold the same ones in matching cells.
The slots of trees planted before are those given. -/
structure World.Mirrors (ρ : Renaming) (slots : Slots) (w w' : World) : Prop where
  same : w' = { w with results := w'.results }
  result_eq : ∀ {cell cell'}, ρ.rel cell cell' → w.result cell = w'.result cell'
  base_le : ρ.base ≤ w.nextTree
  fresh : w.Fresh
  slots_eq : ∀ cell : Cell, cell.tree < ρ.base → w.slots[cell]? = slots[cell]?

namespace World

@[simp] theorem result_keep (w : World) (cell other : Cell) (value : Value) :
    (w.keep cell value).result other = if cell = other then value else w.result other := by
  simp only [keep, result, Std.HashMap.getD_insert, beq_iff_eq]

namespace Mirrors

variable {ρ : Renaming} {slots : Slots} {w w' : World}

/-- A change that does not touch results and slots, and depends on neither. -/
theorem map (h : w.Mirrors ρ slots w') (change : World → World)
    (hresults : ∀ v : World, (change v).results = v.results)
    (hslots : ∀ v : World, (change v).slots = v.slots)
    (htree : ∀ v : World, (change v).nextTree = v.nextTree)
    (hchange : ∀ (v : World) results, change { v with results := results } =
      { change v with results := results }) :
    (change w).Mirrors ρ slots (change w') where
  same := by
    rw [hresults w']
    exact (congrArg change h.same).trans (hchange w _)
  result_eq := by
    intro cell cell' hcell
    have hresult := h.result_eq hcell
    simp only [result] at hresult ⊢
    rw [hresults, hresults, hresult]
  base_le := by rw [htree]; exact h.base_le
  fresh := h.fresh.congr (hslots w) (htree w)
  slots_eq := by
    intro cell hcell
    rw [hslots]
    exact h.slots_eq cell hcell

theorem write (h : w.Mirrors ρ slots w') (event : LogEvent) :
    (w.write event).Mirrors ρ slots (w'.write event) :=
  h.map (·.write event) (fun _ => rfl) (fun _ => rfl) (fun _ => rfl) (fun _ _ => rfl)

theorem noteCall (h : w.Mirrors ρ slots w') (call : Call) :
    (w.noteCall call).Mirrors ρ slots (w'.noteCall call) :=
  h.map (·.noteCall call) (fun _ => rfl) (fun _ => rfl) (fun _ => rfl) (fun _ _ => rfl)

theorem keep (h : w.Mirrors ρ slots w') {cell cell' : Cell} (hcell : ρ.rel cell cell')
    (value : Value) : (w.keep cell value).Mirrors ρ slots (w'.keep cell' value) where
  same := by
    rw [h.same]
    rfl
  result_eq := by
    intro other other' hother
    have hiff : cell = other ↔ cell' = other' := ρ.eq_iff hcell hother
    simp only [result_keep, hiff, h.result_eq hother]
  base_le := h.base_le
  fresh := h.fresh
  slots_eq := h.slots_eq

theorem calls_eq (h : w.Mirrors ρ slots w') : w'.calls = w.calls := by rw [h.same]

theorem log_eq (h : w.Mirrors ρ slots w') : w'.log = w.log := by rw [h.same]

theorem nextTree_eq (h : w.Mirrors ρ slots w') : w'.nextTree = w.nextTree := by rw [h.same]

theorem slots_same (h : w.Mirrors ρ slots w') : w'.slots = w.slots := by rw [h.same]

end Mirrors

end World

namespace Formula

variable {ρ : Renaming}

theorem traceOfEach_congr (indent : String) (depth : Nat) {last last' : List Nat → Value}
    (operands : List Formula) (i : Nat)
    (hoperands : ∀ j (hj : j < operands.length), operands[j].traceLines indent depth
        (fun path => last ((i + j) :: path)) =
      operands[j].traceLines indent depth (fun path => last' ((i + j) :: path))) :
    traceOfEach indent depth last i operands = traceOfEach indent depth last' i operands := by
  induction operands generalizing i with
  | nil => rw [traceOfEach, traceOfEach]
  | cons operand rest ih =>
      rw [traceOfEach, traceOfEach, ih (i + 1)]
      · rw [show operand.traceLines indent depth (fun path => last (i :: path)) =
          operand.traceLines indent depth (fun path => last' (i :: path)) from
            hoperands 0 (by simp)]
      · intro j hj
        have htail := hoperands (j + 1) (by simpa using hj)
        rwa [show i + (j + 1) = i + 1 + j by omega] at htail

/-- The trace shows nothing but the last results of the nodes. -/
theorem traceLines_congr (indent : String) (formula : Formula) (depth : Nat)
    {last last' : List Nat → Value}
    (hlast : ∀ path, (formula.descendant? path).isSome → last path = last' path) :
    formula.traceLines indent depth last = formula.traceLines indent depth last' := by
  have hroot : last [] = last' [] := hlast [] (by rw [descendant?_nil]; rfl)
  induction formula using induct generalizing depth last last' with
  | constant value => rw [traceLines, traceLines, hroot]
  | identifier name => rw [traceLines, traceLines, hroot]
  | precompiled expression => rw [traceLines, traceLines, hroot]
  | apply operator native operands ih =>
      rw [traceLines, traceLines, hroot, traceOfEach_congr]
      intro j hj
      have hbelow : ∀ path, (operands[j].descendant? path).isSome →
          last ((0 + j) :: path) = last' ((0 + j) :: path) := by
        intro path hpath
        refine hlast _ ?_
        have hoperand : (apply operator native operands).operands[j]? = some operands[j] :=
          List.getElem?_eq_getElem hj
        rw [Nat.zero_add, descendant?_cons path hoperand]
        exact hpath
      exact ih _ (List.getElem_mem hj) (depth + 1) hbelow (hbelow [] (by simp))

end Formula

/-- The same result in worlds that are related. -/
def Ends {α : Type} (R : World → World → Prop) (ending ending' : α × World) : Prop :=
  ending.1 = ending'.1 ∧ R ending.2 ending'.2

/-- A relation between worlds that a machine does not see and no step of a program breaks. -/
structure Machine.Upholds (m : Machine) (ρ : Renaming) (R : World → World → Prop) : Prop where
  ask : ∀ {w w'}, R w w' → ∀ request, Ends R (m.ask request w) (m.ask request w')
  describe : ∀ {w w'}, R w w' → Ends R (m.describe w) (m.describe w')
  evaluate : ∀ {w w'}, R w w' → ∀ formula compiled asValue,
    Ends R (m.evaluate formula compiled asValue w) (m.evaluate formula compiled asValue w')
  nextSerial_eq : ∀ {w w'}, R w w' → w'.nextSerial = w.nextSerial
  takeSerial : ∀ {w w'}, R w w' →
    R { w with nextSerial := w.nextSerial + 1 } { w' with nextSerial := w'.nextSerial + 1 }
  write : ∀ {w w'}, R w w' → ∀ event, R (w.write event) (w'.write event)
  keep : ∀ {w w'}, R w w' → ∀ {cell cell'}, ρ.rel cell cell' → ∀ value,
    R (w.keep cell value) (w'.keep cell' value)
  dump : ∀ {w w'}, R w w' → ∀ {formula : Formula} {layout layout' : Layout},
    formula.Matches ρ layout layout' → ∀ text value host,
    R (w.write (.dump text value host (Tree.traceLines ⟨formula, layout⟩ "  " w)))
      (w'.write (.dump text value host (Tree.traceLines ⟨formula, layout'⟩ "  " w')))

section Runs

variable {ρ : Renaming} {R : World → World → Prop} {m : Machine} {w w' : World}

/-- Routines take no part in a relation that their machine upholds. -/
theorem Routine.run_ends {ε α : Type} (hm : m.Upholds ρ R) (routine : Routine Formula ε α)
    (h : R w w') : Ends R (routine.run m w) (routine.run m w') := by
  induction routine generalizing w w' with
  | done answer => exact ⟨rfl, h⟩
  | fail error => exact ⟨rfl, h⟩
  | panic message => exact ⟨rfl, h⟩
  | ask request next ih =>
      obtain ⟨houtcome, hafter⟩ := hm.ask h request
      rw [run, run]
      cases hask : m.ask request w with
      | mk outcome after =>
          cases hask' : m.ask request w' with
          | mk outcome' after' =>
              rw [hask, hask'] at houtcome hafter
              obtain rfl : outcome = outcome' := houtcome
              cases outcome with
              | answered answer => exact ih _ hafter
              | failed message => exact ih _ hafter
              | panicked message => exact ⟨rfl, hafter⟩
  | evaluate formula compiled asValue next ih =>
      obtain ⟨houtcome, hafter⟩ := hm.evaluate h formula compiled asValue
      rw [run, run]
      cases hrun : m.evaluate formula compiled asValue w with
      | mk result after =>
          cases hrun' : m.evaluate formula compiled asValue w' with
          | mk result' after' =>
              rw [hrun, hrun'] at houtcome hafter
              obtain rfl : result = result' := houtcome
              cases result with
              | some result => exact ih _ hafter
              | none => exact ⟨rfl, hafter⟩
  | fresh next ih =>
      rw [run, run]
      have hnext := ih w.nextSerial (hm.takeSerial h)
      rwa [hm.nextSerial_eq h] at hnext ⊢
  | misread text error next ih =>
      rw [run, run]
      exact ih (hm.write h _)

section Steps

variable {α : Type} {next next' : Value → Program α}
  (hnext : ∀ v, ∀ {w w' : World}, R w w' → Ends R ((next v).run m w) ((next' v).run m w'))

include hnext

/-- A question to the host, and what follows its answer. -/
theorem Program.ask_ends (hm : m.Upholds ρ R) (request : Request) (h : R w w') :
    Ends R ((ask request next).run m w) ((ask request next').run m w') := by
  obtain ⟨houtcome, hafter⟩ := hm.ask h request
  rw [run, run]
  cases hask : m.ask request w with
  | mk outcome after =>
      cases hask' : m.ask request w' with
      | mk outcome' after' =>
          rw [hask, hask'] at houtcome hafter
          obtain rfl : outcome = outcome' := houtcome
          cases outcome with
          | answered answer => exact hnext _ hafter
          | failed message => exact ⟨rfl, hafter⟩
          | panicked message => exact ⟨rfl, hafter⟩

/-- Native code, and what follows its answer. -/
theorem Program.invoke_ends (hm : m.Upholds ρ R) (routine : Routine Formula EvalError Value)
    (h : R w w') : Ends R ((invoke routine next).run m w) ((invoke routine next').run m w') := by
  obtain ⟨houtcome, hafter⟩ := routine.run_ends hm h
  rw [run, run]
  cases hrun : routine.run m w with
  | mk outcome after =>
      cases hrun' : routine.run m w' with
      | mk outcome' after' =>
          rw [hrun, hrun'] at houtcome hafter
          obtain rfl : outcome = outcome' := houtcome
          cases outcome with
          | answered answer => exact hnext _ hafter
          | failed error => exact ⟨rfl, hafter⟩
          | panicked message => exact ⟨rfl, hafter⟩

end Steps

/-- Similar programs do the same in worlds whose relation their machine upholds. -/
theorem Program.run_ends {α : Type} (hm : m.Upholds ρ R) {p p' : Program α}
    (hp : p.Similar ρ p') (h : R w w') : Ends R (p.run m w) (p'.run m w') := by
  induction hp generalizing w w' with
  | done result => exact ⟨rfl, h⟩
  | fail error => exact ⟨rfl, h⟩
  | ask request _ ih => exact ask_ends ih hm request h
  | invoke routine _ ih => exact invoke_ends ih hm routine h
  | operate operator operands _ ih =>
      rw [run, run]
      exact ih _ h
  | record hcell result _ ih =>
      rw [run, run]
      exact ih (hm.keep h hcell result)
  | log text value _ ih =>
      rw [run, run]
      exact ih (hm.write h _)
  | dump hmatches value _ ih =>
      obtain ⟨houtcome, hafter⟩ := hm.describe h
      rw [run, run]
      cases hask : m.describe w with
      | mk outcome after =>
          cases hask' : m.describe w' with
          | mk outcome' after' =>
              rw [hask, hask'] at houtcome hafter
              obtain rfl : outcome = outcome' := houtcome
              cases outcome with
              | answered host => exact ih (hm.dump hafter hmatches _ value host)
              | failed error => cases error
              | panicked message => exact ⟨rfl, hafter⟩

end Runs

/-- The same result in worlds that still mirror each other. -/
def Agree {α : Type} (ρ : Renaming) (slots : Slots) (ending ending' : α × World) : Prop :=
  ending.1 = ending'.1 ∧ ending.2.Mirrors ρ slots ending'.2

/-- The machine does not see the difference between mirroring worlds. -/
structure Machine.Respects (m : Machine) (ρ : Renaming) (slots : Slots) : Prop where
  ask : ∀ {w w'}, w.Mirrors ρ slots w' → ∀ request,
    Agree ρ slots (m.ask request w) (m.ask request w')
  describe : ∀ {w w'}, w.Mirrors ρ slots w' → Agree ρ slots (m.describe w) (m.describe w')
  evaluate : ∀ {w w'}, w.Mirrors ρ slots w' → ∀ formula compiled asValue,
    Agree ρ slots (m.evaluate formula compiled asValue w) (m.evaluate formula compiled asValue w')

variable {ρ : Renaming} {slots : Slots} {m : Machine}

theorem World.Mirrors.traceLines_eq {w w' : World} (h : w.Mirrors ρ slots w')
    {formula : Formula} {layout layout' : Layout} (hmatches : formula.Matches ρ layout layout')
    (indent : String) : Tree.traceLines ⟨formula, layout⟩ indent w =
      Tree.traceLines ⟨formula, layout'⟩ indent w' :=
  formula.traceLines_congr indent 0 fun path hpath => h.result_eq (hmatches path hpath)

/-- No step leads out of mirroring worlds. -/
theorem Machine.Respects.upholds (hm : m.Respects ρ slots) :
    m.Upholds ρ (World.Mirrors ρ slots) where
  ask := hm.ask
  describe := hm.describe
  evaluate := hm.evaluate
  nextSerial_eq h := by rw [h.same]
  takeSerial {w w'} h := by
    have hserial : w'.nextSerial = w.nextSerial := by rw [h.same]
    rw [hserial]
    exact h.map (fun v => { v with nextSerial := w.nextSerial + 1 })
      (fun _ => rfl) (fun _ => rfl) (fun _ => rfl) (fun _ _ => rfl)
  write h event := h.write event
  keep h _ _ hcell value := h.keep hcell value
  dump h _ _ _ hmatches text value host := by
    rw [h.traceLines_eq hmatches]
    exact h.write _

theorem Routine.run_agree {ε α : Type} (hm : m.Respects ρ slots) (routine : Routine Formula ε α)
    {w w' : World} (h : w.Mirrors ρ slots w') :
    Agree ρ slots (routine.run m w) (routine.run m w') :=
  routine.run_ends hm.upholds h

/-- Similar programs do the same in mirroring worlds. -/
theorem Program.run_agree {α : Type} (hm : m.Respects ρ slots) {p p' : Program α}
    (hp : p.Similar ρ p') {w w' : World} (h : w.Mirrors ρ slots w') :
    Agree ρ slots (p.run m w) (p'.run m w') :=
  Program.run_ends hm.upholds hp h

end Formulary
