import Formulary.Proofs.Indistinct
import Formulary.Proofs.Received
import Formulary.Proofs.Resolution

/-! # Grouping and logging

A parenthesis and the two operators that log pass on what is wanted of them and what they get. A
formula without them takes the same steps but for those that keep results and write to the log, and
no host can tell the difference as long as it does not mind being described.
-/

namespace Formulary

namespace Formula

mutual

/-- The formula with every node that passes on the value of its operand replaced by the operand. -/
def stripped : Formula → Formula
  | constant value => constant value
  | identifier name => identifier name
  | precompiled expression => precompiled expression
  | apply op native operands =>
    match op.form.passesOn, strippedAll operands with
    | true, [operand] => operand
    | _, operands => apply op native operands

def strippedAll : List Formula → List Formula
  | [] => []
  | operand :: rest => operand.stripped :: strippedAll rest

end

/-- Whether the node is a parenthesis or logs. -/
def passesOn : Formula → Bool
  | apply op _ _ => op.form.passesOn
  | _ => false

section Stripped

variable {op : Operator} {native : Option (Native Formula)} {operands : List Formula}

theorem strippedAll_eq_map (operands : List Formula) :
    strippedAll operands = operands.map stripped := by
  induction operands with
  | nil => rw [strippedAll, List.map_nil]
  | cons operand rest ih => rw [strippedAll, List.map_cons, ih]

@[simp] theorem stripped_constant (value : Value) : (constant value).stripped = constant value := by
  rw [stripped]

@[simp] theorem stripped_identifier (name : String) :
    (identifier name).stripped = identifier name := by
  rw [stripped]

@[simp] theorem stripped_precompiled (expression : Precompiled Formula) :
    (precompiled expression).stripped = precompiled expression := by
  rw [stripped]

theorem stripped_passing (h : op.form.passesOn = true) (operand : Formula) :
    (apply op native [operand]).stripped = operand.stripped := by
  rw [stripped, h, strippedAll_eq_map]
  rfl

theorem stripped_apply (h : op.form.passesOn = false) :
    (apply op native operands).stripped = apply op native (operands.map stripped) := by
  rw [stripped, h, strippedAll_eq_map]

end Stripped

end Formula

/-- Names are not touched, so the form of a node still has the operands that it asks for. -/
theorem Form.Admits.stripped {form : Form} {operands : List Formula} (h : form.Admits operands) :
    form.Admits (operands.map Formula.stripped) := by
  cases h with
  | unary operand => exact .unary _
  | binary left right => exact .binary _ _
  | disjunction left right => exact .disjunction _ _
  | conjunction left right => exact .conjunction _ _
  | member target name =>
      simp only [List.map_cons, List.map_nil, Formula.stripped_identifier]
      exact .member _ _
  | grouping inner => exact .grouping _
  | functionCall name arguments =>
      simp only [List.map_cons, Formula.stripped_identifier]
      exact .functionCall _ _
  | methodCall target name arguments =>
      simp only [List.map_cons, Formula.stripped_identifier]
      exact .methodCall _ _ _
  | indexing target first rest => exact .indexing _ _ _
  | dump operand => exact .dump _
  | log operand => exact .log _

/-- Nothing is left of parentheses and of the operators that log. -/
theorem Formula.WellShaped.stripped_everywhere {functions : FunctionTable} {f : Formula}
    (h : f.WellShaped functions) : f.stripped.Everywhere fun node => node.passesOn = false := by
  induction f using Formula.induct with
  | constant value =>
      rw [Formula.stripped_constant]
      exact .leaf rfl rfl
  | identifier name =>
      rw [Formula.stripped_identifier]
      exact .leaf rfl rfl
  | precompiled expression =>
      rw [Formula.stripped_precompiled]
      exact .leaf rfl rfl
  | apply op native operands ih =>
      have hoperands : ∀ operand ∈ operands,
          operand.stripped.Everywhere fun node => node.passesOn = false :=
        fun operand hmem => ih operand hmem (h.operand hmem)
      cases hpasses : op.form.passesOn with
      | true =>
          obtain ⟨inner, rfl⟩ := h.root.1.operand_of_passesOn hpasses
          rw [Formula.stripped_passing hpasses]
          exact hoperands inner List.mem_cons_self
      | false =>
          rw [Formula.stripped_apply hpasses]
          exact .apply hpasses (List.forall_mem_map.mpr hoperands)

/-- The act of a node depends on names alone, and on the values of its operands. -/
theorem Operator.act_stripped {op : Operator} {operands : List Formula}
    (h : op.form.Admits operands) (hpasses : op.form.passesOn = false)
    (native : Option (Native Formula)) (layout layout' : Layout) (values : List Value) :
    op.act native layout (operands.map Formula.stripped) values =
      op.act native layout' operands values := by
  unfold Operator.act
  cases hform : op.form with
  | log | dump =>
      rw [hform] at hpasses
      cases hpasses
  | generic | or | and | parenthesis | indexer => rfl
  | dot | functionCall | methodCall =>
      rw [hform] at h
      cases h
      simp [Formula.nameAt?]

namespace Program

variable {α β : Type}

/-- The program without the steps that keep results and write to the log. -/
def stripped : Program α → Program α
  | done result => done result
  | fail error => fail error
  | ask request next => ask request fun v => (next v).stripped
  | invoke routine next => invoke routine fun v => (next v).stripped
  | operate operator operands next => operate operator operands fun v => (next v).stripped
  | record _ _ next => next.stripped
  | log _ _ next => next.stripped
  | dump _ _ next => next.stripped

theorem stripped_bind (p : Program α) (k : α → Program β) :
    (p.bind k).stripped = p.stripped.bind fun a => (k a).stripped := by
  induction p with
  | done result => rfl
  | fail error => rfl
  | ask request next ih => simp only [bind, stripped, ih]
  | invoke routine next ih => simp only [bind, stripped, ih]
  | operate operator operands next ih => simp only [bind, stripped, ih]
  | record cell result next ih => simp only [bind, stripped, ih]
  | log text value next ih => simp only [bind, stripped, ih]
  | dump tree value next ih => simp only [bind, stripped, ih]

theorem stripped_recorded (cell : Cell) (p : Program Value) :
    (recorded cell p).stripped = p.stripped := by
  rw [recorded, stripped_bind]
  exact bind_done p.stripped

end Program

namespace Formula

theorem evaluateOperands_stripped {operands : List Formula}
    (hoperands : ∀ operand ∈ operands, ∀ layout layout' asValue,
      (operand.stripped.evaluate layout asValue).stripped =
        (operand.evaluate layout' asValue).stripped)
    (layout layout' : Layout) (form : Form) (asValue : Bool) (i : Nat) :
    (evaluateOperands layout form asValue i (operands.map stripped)).stripped =
      (evaluateOperands layout' form asValue i operands).stripped := by
  induction operands generalizing i with
  | nil => rfl
  | cons operand rest ih =>
      have hrest := ih (fun other hother => hoperands other (List.mem_cons_of_mem operand hother))
        (i + 1)
      have hoperand := hoperands operand List.mem_cons_self (layout.below i) (layout'.below i)
        (form.wants asValue i)
      rw [List.map_cons, evaluateOperands, evaluateOperands]
      by_cases hname : form.namePosition? = some i
      · rw [if_pos hname, if_pos hname, hrest]
      · rw [if_neg hname, if_neg hname, Program.stripped_bind, Program.stripped_bind, hoperand]
        refine congrArg (Program.bind _) (funext fun value => ?_)
        split
        · rfl
        · rw [Program.stripped_bind, Program.stripped_bind, hrest]

/-- A formula and what is left of it take the same steps, but for those that keep results and write
to the log. -/
theorem evaluate_stripped {functions : FunctionTable} {f : Formula} (h : f.WellShaped functions)
    (layout layout' : Layout) (asValue : Bool) :
    (f.stripped.evaluate layout asValue).stripped = (f.evaluate layout' asValue).stripped := by
  induction f using induct generalizing layout layout' asValue with
  | constant value =>
      rw [stripped_constant, evaluate, evaluate, Program.stripped_recorded,
        Program.stripped_recorded]
  | identifier name =>
      rw [stripped_identifier, evaluate, evaluate, Program.stripped_recorded,
        Program.stripped_recorded]
  | precompiled expression =>
      rw [stripped_precompiled, evaluate, evaluate, Program.stripped_recorded,
        Program.stripped_recorded]
  | apply op native operands ih =>
      have hadmits := h.root.1
      have hoperands : ∀ operand ∈ operands, ∀ layout layout' asValue,
          (operand.stripped.evaluate layout asValue).stripped =
            (operand.evaluate layout' asValue).stripped :=
        fun operand hmem => ih operand hmem (h.operand hmem)
      cases hpasses : op.form.passesOn with
      | true =>
          obtain ⟨inner, rfl⟩ := hadmits.operand_of_passesOn hpasses
          -- The value of the operand goes through this node unchanged.
          have hthrough (value : Value) :
              ((op.act native layout' [inner] [value]).program asValue).stripped =
                .done value := by
            obtain hact | ⟨_, hact⟩ | ⟨_, hact⟩ := op.act_passes hpasses layout' inner value
            all_goals
              rw [hact]
              rfl
          obtain ⟨hname, hwants, -⟩ := Form.wants_of_passesOn hpasses asValue
          rw [stripped_passing hpasses, evaluate_apply, hadmits.fault?_eq_none,
            Program.stripped_recorded]
          simp only
          rw [evaluateOperands_singleton hname, hwants, Program.bind_assoc,
            Program.stripped_bind]
          simp only [Program.bind, hthrough]
          rw [Program.bind_done]
          exact hoperands inner List.mem_cons_self layout (layout'.below 0) asValue
      | false =>
          rw [stripped_apply hpasses, evaluate_apply, evaluate_apply, hadmits.fault?_eq_none,
            hadmits.stripped.fault?_eq_none, Program.stripped_recorded, Program.stripped_recorded]
          simp only
          rw [Program.stripped_bind, Program.stripped_bind,
            evaluateOperands_stripped hoperands layout layout']
          simp only [op.act_stripped hadmits hpasses native layout layout']

end Formula

/-- The same questions so far and the same serials from now on. -/
structure World.Abreast (w w' : World) : Prop where
  requests_eq : w'.requests = w.requests
  nextSerial_eq : w'.nextSerial = w.nextSerial
  fresh : w.Fresh
  fresh' : w'.Fresh

namespace World.Abreast

variable {w w' : World}

theorem outward : Outward Abreast where
  nextSerial_eq h := h.nextSerial_eq
  takeSerial h := ⟨h.requests_eq, congrArg (· + 1) h.nextSerial_eq, h.fresh, h.fresh'⟩
  fresh h := h.fresh
  fresh' h := h.fresh'
  congr {w w' v v'} h hv hfresh hv' hfresh' := by
    refine ⟨?_, ?_, hfresh, hfresh'⟩
    · rw [requests, requests, hv.calls_eq, hv'.calls_eq]
      exact h.requests_eq
    · rw [hv.nextSerial_eq, hv'.nextSerial_eq, h.nextSerial_eq]

theorem noteCall (h : w.Abreast w') (call : Call) :
    (w.noteCall call).Abreast (w'.noteCall call) := by
  refine ⟨?_, h.nextSerial_eq, h.fresh, h.fresh'⟩
  simp only [requests, World.noteCall, List.filterMap_append]
  rw [← requests, ← requests, h.requests_eq]

/-- A description is not a question. -/
theorem described (h : w.Abreast w') : (w.noteCall .describe).Abreast w' := by
  refine ⟨?_, h.nextSerial_eq, h.fresh, h.fresh'⟩
  rw [requests_noteCall_describe, h.requests_eq]

end World.Abreast

/-- A host that describes itself without doing anything else, and whatever it does afterwards does
not depend on it. -/
structure Host.Quiet (host : Host) : Prop where
  describes : ∀ calls, ∃ text, host.describe calls = .done text
  forgets : ∀ {calls calls'}, calls'.filterMap Call.request? = calls.filterMap Call.request? →
    host.respond calls' = host.respond calls ∧ host.describe calls' = host.describe calls

/-- A host that always does the same is quiet if it only describes itself. -/
theorem Host.quiet_stateless (respond : Request → Routine Formula String Value) (text : String) :
    (stateless respond (.done text)).Quiet where
  describes _ := ⟨text, rfl⟩
  forgets _ := ⟨rfl, rfl⟩

section Runs

variable {host : Host} {w w' : World}

namespace Host.Quiet

/-- A quiet host does not see how often it was described, however deep it nests. -/
theorem upholds (hquiet : host.Quiet) (levels : Nat) (ρ : Renaming) :
    (Machine.ofHost host levels).Upholds ρ World.Abreast := by
  induction levels generalizing ρ with
  | zero => exact Machine.bottom_upholds World.Abreast.outward
  | succ levels ih =>
      refine Machine.upholds_outward World.Abreast.outward ?_ ?_ ?_
      · intro w w' h request
        simp only [Machine.ofHost, (hquiet.forgets h.requests_eq).1]
        exact (host.respond w.calls request).run_ends (ih ρ) (h.noteCall _)
      · intro w w' h
        simp only [Machine.ofHost, (hquiet.forgets h.requests_eq).2]
        exact (host.describe w.calls).run_ends (ih ρ) (h.noteCall _)
      · intro w w' h formula compiled asValue
        exact Machine.evaluate_ends World.Abreast.outward host ih h formula compiled asValue

theorem describe_eq (hquiet : host.Quiet) (levels : Nat) (w : World) :
    ∃ text, (Machine.ofHost host (levels + 1)).describe w =
      (.answered text, w.noteCall .describe) := by
  obtain ⟨text, htext⟩ := hquiet.describes w.calls
  refine ⟨text, ?_⟩
  simp only [Machine.ofHost, htext]
  rfl

/-- The steps that are stripped off change nothing that a quiet host sees. -/
theorem run_stripped (hquiet : host.Quiet) (levels : Nat) {α : Type} (p : Program α)
    (h : w.Abreast w') : Ends World.Abreast (p.run (.ofHost host (levels + 1)) w)
      (p.stripped.run (.ofHost host (levels + 1)) w') := by
  have hm := hquiet.upholds (levels + 1) (.identity 0)
  induction p generalizing w w' with
  | done result => exact ⟨rfl, h⟩
  | fail error => exact ⟨rfl, h⟩
  | ask request next ih => exact Program.ask_ends ih hm request h
  | invoke routine next ih => exact Program.invoke_ends ih hm routine h
  | operate operator operands next ih =>
      rw [Program.stripped, Program.run, Program.run]
      exact ih _ h
  | record cell result next ih =>
      rw [Program.stripped, Program.run]
      exact ih (World.Abreast.outward.notes h ⟨rfl, rfl⟩ rfl rfl (.refl w') rfl rfl)
  | log text value next ih =>
      rw [Program.stripped, Program.run]
      exact ih (World.Abreast.outward.notes h ⟨rfl, rfl⟩ rfl rfl (.refl w') rfl rfl)
  | dump tree value next ih =>
      obtain ⟨text, hdescribe⟩ := hquiet.describe_eq levels w
      rw [Program.stripped, Program.run, hdescribe]
      exact ih (World.Abreast.outward.notes h.described ⟨rfl, rfl⟩ rfl rfl (.refl w') rfl rfl)

end Host.Quiet

end Runs

/-- Evaluating a formula and evaluating what is left of it without parentheses and the operators
that log, each lowered or not, give the same value or the same error and ask a quiet host the same
in the same order. -/
theorem Tree.calcChecked_stripped {nodes : Set Tree} {w : World} (hw : w.Reachable nodes)
    {tree bare : Tree} (htree : tree ∈ nodes) (hbare : bare ∈ nodes) {g : Grammar}
    (hstandard : g.operators = .standard) {text : String} (hread : g.read text = .ok tree.formula)
    (hstripped : bare.formula = tree.formula.stripped) {host : Host} (hquiet : host.Quiet)
    {levels : Nat} (hlevels : 0 < levels) (asValue : Bool) :
    let run := tree.calcChecked (.ofHost host levels) asValue w
    let strippedRun := bare.calcChecked (.ofHost host levels) asValue w
    run.1 = strippedRun.1 ∧ run.2.requests = strippedRun.2.requests := by
  intro run strippedRun
  obtain ⟨levels, rfl⟩ : ∃ n, levels = n + 1 := ⟨levels - 1, by omega⟩
  have hshaped := Grammar.wellShaped_of_read hstandard hread
  have hsame : (bare.formula.evaluate bare.layout asValue).stripped =
      (tree.formula.evaluate tree.layout asValue).stripped := by
    rw [hstripped]
    exact tree.formula.evaluate_stripped hshaped bare.layout tree.layout asValue
  have habreast : w.entered.Abreast w.entered :=
    ⟨rfl, rfl, hw.standing.fresh, hw.standing.fresh⟩
  -- Both runs are compared with that of the steps they have in common.
  obtain ⟨houtcome, hafter⟩ := hquiet.run_stripped levels
    (tree.formula.evaluate tree.layout asValue) habreast
  obtain ⟨houtcome', hafter'⟩ := hquiet.run_stripped levels
    (bare.formula.evaluate bare.layout asValue) habreast
  rw [hsame] at houtcome' hafter'
  have hprogram := Tree.program_eq_evaluate htree hw.standing.sound asValue
  have hprogram' := Tree.program_eq_evaluate hbare hw.standing.sound asValue
  constructor
  · simp only [run, strippedRun, calcChecked_result]
    rw [hprogram, hprogram', houtcome, houtcome']
  · simp only [run, strippedRun, World.requests, calcChecked_calls]
    rw [hprogram, hprogram', ← World.requests, ← World.requests, ← hafter.requests_eq,
      ← hafter'.requests_eq]

/-- A formula that is lowered, and what is left of it, which is walked. -/
theorem Tree.calcChecked_stripped_of_member :
    let formula : Formula := .node .dump
      [.node .memberAccess [.node .grouping [.identifier "a"], .identifier "b"]]
    let tree : Tree := ⟨formula, Layout.ofTree 0⟩
    let bare : Tree := ⟨.node .memberAccess [.identifier "a", .identifier "b"], Layout.ofTree 1⟩
    let lowered := (tree.compile defaultDepthLimit { nextTree := 2 }).2
    Grammar.standard.operators = .standard ∧
      Grammar.standard.read "@@(a).b" = .ok tree.formula ∧
      bare.formula = tree.formula.stripped ∧ Host.empty.Quiet ∧ 0 < nestingLevels ∧
      (tree.calcOn .empty true lowered).1 = (bare.calcOn .empty true lowered).1 ∧
      (tree.calcOn .empty true lowered).2.requests =
        (bare.calcOn .empty true lowered).2.requests := by
  intro formula tree bare lowered
  have hplanted : World.Reachable (∅ ∪ tree.nodes ∪ bare.nodes) { nextTree := 2 } :=
    (World.Reachable.start.plant formula).plant bare.formula
  have htree : tree ∈ ∅ ∪ tree.nodes ∪ bare.nodes := Or.inl (Or.inr tree.self_mem_nodes)
  have hbare : bare ∈ ∅ ∪ tree.nodes ∪ bare.nodes := Or.inr bare.self_mem_nodes
  have hread : Grammar.standard.read "@@(a).b" = .ok tree.formula := rfl
  have hstripped : bare.formula = tree.formula.stripped := rfl
  have hlevels : 0 < nestingLevels := by decide
  have hquiet : Host.empty.Quiet := Host.quiet_stateless _ "EmptyContext"
  have hlowered := hplanted.compile htree defaultDepthLimit
  obtain ⟨hresult, hrequests⟩ := Tree.calcChecked_stripped hlowered htree hbare rfl hread hstripped
    hquiet hlevels true
  exact ⟨rfl, hread, hstripped, hquiet, hlevels, hresult, hrequests⟩

end Formulary
