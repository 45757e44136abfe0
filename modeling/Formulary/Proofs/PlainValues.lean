import Formulary.Proofs.Builtins
import Formulary.Proofs.Order

/-! # Where objects do not get

A host may answer a lookup with an object. If it never gives one for the plain value of an
answer, no object leaves a formula of which a plain value is wanted, and none is handed to
an operator, to a native function or back to the host as an argument or index. Only as the
target of a member access, a method call or an indexing is an object taken as it is.
-/

namespace Formulary

/-- The arguments and indices of a question. -/
def Request.arguments : Request → List Value
  | lookup _ => []
  | member _ _ => []
  | function _ args => args
  | method _ _ args => args
  | index _ indices => indices
  | resolve _ => []

/-- A machine whose host gives no object for the plain value of anything. -/
def Machine.ResolvesPlain (m : Machine) : Prop :=
  ∀ value w handle, (m.ask (.resolve value) w).1 ≠ .answered (.object handle)

/-- The routine of a host decides for every machine of the host. -/
theorem Machine.ofHost_resolvesPlain {host : Host}
    (h : ∀ calls value levels w handle,
      ((host.respond calls (.resolve value)).run (.ofHost host levels) w).1 ≠
        .answered (.object handle)) (levels : Nat) :
    (Machine.ofHost host levels).ResolvesPlain := by
  intro value w handle
  cases levels with
  | zero =>
      intro hask
      cases hask
  | succ levels => exact h w.calls value levels _ handle

namespace Act

/-- The values that an act hands to an operator, a native function or the host. -/
def handed : Act → List Value
  | lookup request => request.arguments
  | native _ args => args
  | operate _ operands => operands
  | _ => []

/-- Whether the outcome is plain if a plain value is wanted: lookups leave that to the host. -/
def KeepsPlain : Act → Prop
  | answer value => value.IsPlain
  | lookup _ => True
  | native function args => function.KeepsPlain ∧ ∀ arg ∈ args, arg.IsPlain
  | precompiled expression => expression.IsFixed
  | operate operator operands => operator.KeepsPlain ∧ ∀ operand ∈ operands, operand.IsPlain
  | log _ value => value.IsPlain
  | dump _ value => value.IsPlain

theorem KeepsPlain.isPlain_outcome {act : Act} (h : act.KeepsPlain) {m : Machine}
    (hm : m.ResolvesPlain) {path : List Nat} {cell : Cell} {w : World} {value : Value}
    (hvalue : (act.account m path cell true w).outcome = .answered value) : value.IsPlain := by
  rw [account_outcome] at hvalue
  cases act with
  | answer found =>
      cases hvalue
      exact h
  | operate operator operands =>
      cases hvalue
      exact h.1 operands h.2
  | log text found =>
      cases hvalue
      exact h
  | native function args =>
      obtain ⟨⟨f, hbody, hplain⟩, hargs⟩ := h
      rw [program, hbody] at hvalue
      cases hvalue
      exact hplain args hargs
  | precompiled expression =>
      obtain ⟨fixed, hfixed, hbody⟩ := h
      rw [program, hbody] at hvalue
      cases hvalue
      exact hfixed
  | dump tree found =>
      simp only [program, Program.run] at hvalue
      cases hdescribe : m.describe w with
      | mk outcome after =>
          rw [hdescribe] at hvalue
          cases outcome with
          | answered host =>
              cases hvalue
              exact h
          | failed error => cases error
          | panicked message => cases hvalue
  | lookup request =>
      simp only [program, Program.request, Program.run, if_true] at hvalue
      cases hask : m.ask request w with
      | mk outcome after =>
          rw [hask] at hvalue
          cases outcome with
          | failed message => cases hvalue
          | panicked message => cases hvalue
          | answered found =>
              have hplain := hm found after
              simp only at hvalue
              cases hresolve : m.ask (.resolve found) after with
              | mk outcome last =>
                  rw [hresolve] at hvalue hplain
                  cases outcome with
                  | failed message => cases hvalue
                  | panicked message => cases hvalue
                  | answered plain =>
                      cases hvalue
                      cases value with
                      | object handle => exact absurd rfl (hplain handle)
                      | unknown | null | bool | int | float | string => trivial

end Act

/-- Which values of its operands a node needs to be plain: those of targets it takes as they
are, and grouping and the logging operators take what is wanted of them. -/
def Form.Accepts (form : Form) (asValue : Bool) (values : List Value) : Prop :=
  match form with
  | .generic | .or | .and | .functionCall => ∀ value ∈ values, value.IsPlain
  | .dot | .methodCall | .indexer => ∀ value ∈ values.tail, value.IsPlain
  | .parenthesis | .log | .dump => asValue = true → ∀ value ∈ values, value.IsPlain

/-- What an act on a target hands over is what follows the target. -/
theorem Act.handed_onTarget {question : Handle → List Value → Request} {values : List Value}
    (hquestion : ∀ target args, (question target args).arguments ⊆ args)
    (hvalues : ∀ value ∈ values.tail, value.IsPlain) :
    ∀ value ∈ (Act.onTarget question values).handed, value.IsPlain := by
  unfold Act.onTarget
  split
  · exact fun value hvalue => hvalues value (hquestion _ _ hvalue)
  · rintro value ⟨⟩

theorem Act.keepsPlain_onTarget (question : Handle → List Value → Request)
    (values : List Value) : (Act.onTarget question values).KeepsPlain := by
  unfold Act.onTarget
  split <;> trivial

namespace Operator

variable {op : Operator} {native : Option (Native Formula)} {layout : Layout}
  {operands : List Formula} {asValue : Bool} {values : List Value}

theorem act_handed (hvalues : op.form.Accepts asValue values) :
    ∀ value ∈ (op.act native layout operands values).handed, value.IsPlain := by
  unfold act
  generalize op.form = form at hvalues ⊢
  cases form with
  | generic => exact hvalues
  | functionCall => cases native <;> exact hvalues
  | dot => exact Act.handed_onTarget (fun _ _ => List.nil_subset _) hvalues
  | methodCall => exact Act.handed_onTarget (fun _ _ => List.Subset.refl _) hvalues
  | indexer => exact Act.handed_onTarget (fun _ _ => List.Subset.refl _) hvalues
  | or | and | parenthesis | log | dump => rintro value ⟨⟩

theorem act_keepsPlain (hop : op.KeepsPlain) (hnative : ∀ function ∈ native, function.KeepsPlain)
    (hvalues : op.form.Accepts true values) :
    (op.act native layout operands values).KeepsPlain := by
  -- The last and the first of some plain values are plain, and so is `unknown`.
  have hlast (h : ∀ value ∈ values, value.IsPlain) : (values.getLastD .unknown).IsPlain := by
    rw [List.getLastD_eq_getLast?]
    cases hfound : values.getLast? with
    | none => trivial
    | some value => exact h value (List.mem_of_getLast? hfound)
  have hfirst (h : ∀ value ∈ values, value.IsPlain) : (values.headD .unknown).IsPlain := by
    cases values with
    | nil => trivial
    | cons value rest => exact h value List.mem_cons_self
  unfold act
  generalize op.form = form at hvalues ⊢
  cases form with
  | generic => exact ⟨hop, hvalues⟩
  | or | and => exact hlast hvalues
  | parenthesis => exact hlast (hvalues rfl)
  | functionCall =>
      cases native with
      | none => trivial
      | some function => exact ⟨hnative function rfl, hvalues⟩
  | dot | methodCall | indexer => exact Act.keepsPlain_onTarget _ _
  | log | dump => exact hfirst (hvalues rfl)

end Operator

namespace Formula

variable {m : Machine}

/-- Operands of which plain values are wanted answer plain values. -/
theorem accountOperands_plain {layout : Layout} {path : List Nat} {form : Form} {asValue : Bool}
    (operands : List Formula) (i : Nat) (hwants : ∀ j, i ≤ j → form.wants asValue j = true)
    (hoperands : ∀ operand ∈ operands, ∀ layout path w value,
      (operand.account m layout path true w).outcome = .answered value → value.IsPlain)
    {w : World} {values : List Value}
    (h : (accountOperands m layout path form asValue i operands w).outcome = .answered values) :
    ∀ value ∈ values, value.IsPlain := by
  induction operands generalizing i w values with
  | nil =>
      rw [accountOperands] at h
      cases h
      rintro value ⟨⟩
  | cons operand rest ih =>
      obtain ⟨hoperand, hrest⟩ := List.forall_mem_cons.mp hoperands
      have hlater := fun {w} {values} =>
        @ih (i + 1) (fun j hj => hwants j (Nat.le_of_succ_le hj)) hrest w values
      rw [accountOperands] at h
      split at h
      · exact hlater h
      · obtain ⟨value, hvalue, hnext⟩ := Account.andThen_answered h
        rw [hwants i le_rfl] at hvalue
        have hplain := hoperand _ _ _ value hvalue
        split at hnext
        · cases hnext
          exact List.forall_mem_singleton.mpr hplain
        · obtain ⟨others, hothers, hall⟩ := Account.andThen_answered hnext
          cases hall
          exact List.forall_mem_cons.mpr ⟨hplain, hlater hothers⟩

/-- The operands of a node answer what the node accepts. -/
theorem accountOperands_accepts {layout : Layout} {path : List Nat} {op : Operator}
    {asValue : Bool} {operands : List Formula} (hfaultless : op.fault? operands = none)
    (hoperands : ∀ operand ∈ operands, ∀ layout path w value,
      (operand.account m layout path true w).outcome = .answered value → value.IsPlain)
    {w : World} {values : List Value}
    (h : (accountOperands m layout path op.form asValue 0 operands w).outcome = .answered values) :
    op.form.Accepts asValue values := by
  have hadmits := op.admits_of_fault?_eq_none hfaultless
  generalize op.form = form at hadmits h ⊢
  -- Behind a target, which comes first, plain values are wanted.
  have htarget {target : Formula} {rest : List Formula} (hname : form.namePosition? ≠ some 0)
      (hsettles : ∀ value, form.settles value = false)
      (hwants : ∀ j, 1 ≤ j → form.wants asValue j = true) (hsame : operands = target :: rest) :
      ∀ value ∈ values.tail, value.IsPlain := by
    subst hsame
    obtain ⟨value, others, later, rfl, -, hothers⟩ := accountOperands_head hname hsettles h
    exact accountOperands_plain rest 1 hwants (List.forall_mem_cons.mp hoperands).2 hothers
  have hbehind (j : Nat) (hj : 1 ≤ j) : (j != 0) = true := bne_iff_ne.mpr (by omega)
  cases hadmits with
  | unary | binary | disjunction | conjunction | functionCall =>
      exact accountOperands_plain _ 0 (fun _ _ => rfl) hoperands h
  | grouping | log | dump =>
      rintro rfl
      exact accountOperands_plain _ 0 (fun _ _ => rfl) hoperands h
  | member | methodCall | indexing =>
      exact htarget (by decide) (fun _ => rfl) hbehind rfl

/-- If a plain value is wanted of a formula, it answers no object. -/
theorem account_plain (hm : m.ResolvesPlain) (formula : Formula)
    (h : formula.Everywhere IsBuiltin) (layout : Layout) (path : List Nat) (w : World)
    {value : Value} (hvalue : (formula.account m layout path true w).outcome = .answered value) :
    value.IsPlain := by
  induction formula using induct generalizing layout path w value with
  | constant found =>
      rw [account] at hvalue
      have hplain : (Act.answer found).KeepsPlain := h.root
      exact hplain.isPlain_outcome hm hvalue
  | identifier name =>
      rw [account] at hvalue
      have hplain : (Act.lookup (.lookup name)).KeepsPlain := trivial
      exact hplain.isPlain_outcome hm hvalue
  | precompiled expression =>
      rw [account] at hvalue
      have hplain : (Act.precompiled expression).KeepsPlain := h.root
      exact hplain.isPlain_outcome hm hvalue
  | apply op native operands ih =>
      rw [account] at hvalue
      cases hfault : op.fault? operands with
      | some fault => simp [hfault] at hvalue
      | none =>
          simp only [hfault] at hvalue
          obtain ⟨values, hvalues, hact⟩ := Account.andThen_answered hvalue
          have haccepts := accountOperands_accepts hfault
            (fun operand hoperand layout path w value =>
              ih operand hoperand (h.operand hoperand) layout path w) hvalues
          obtain ⟨hop, hnative⟩ := h.root
          exact (op.act_keepsPlain hop hnative haccepts).isPlain_outcome hm hact

/-- No node hands an object over. -/
theorem account_handed (hm : m.ResolvesPlain) (formula : Formula)
    (h : formula.Everywhere IsBuiltin) (layout : Layout) (path : List Nat) (asValue : Bool)
    (w : World) : ∀ visit ∈ (formula.account m layout path asValue w).visits,
      ∀ value ∈ visit.act.handed, value.IsPlain := by
  induction formula using induct generalizing layout path asValue w with
  | constant value | identifier value | precompiled expression =>
      intro visit hvisit
      rw [account] at hvisit
      obtain ⟨-, -, hact, -⟩ := Act.account_does _ w hvisit
      rw [hact]
      rintro value ⟨⟩
  | apply op native operands ih =>
      intro visit hvisit
      rw [account] at hvisit
      cases hfault : op.fault? operands with
      | some fault => simp [hfault] at hvisit
      | none =>
          simp only [hfault] at hvisit
          rcases Account.mem_andThen hvisit with hbelow | ⟨values, hvalues, hself⟩
          · obtain ⟨i, operand, hoperand, -, _, _, _, _, hmem⟩ := mem_accountOperands hbelow
            have hoperand := List.mem_of_getElem? hoperand
            exact ih operand hoperand (h.operand hoperand) _ _ _ _ visit hmem
          · obtain ⟨-, -, hact, -⟩ := Act.account_does _ _ hself
            rw [hact]
            exact op.act_handed (accountOperands_accepts hfault
              (fun operand hoperand layout path w value =>
                account_plain hm operand (h.operand hoperand) layout path w) hvalues)

end Formula

namespace Tree

variable {nodes : Set Tree} {tree : Tree} {w : World}

/-- A formula that is read with the built-in tables, on a host that never resolves anything
to an object: of which a plain value is wanted, it answers no object; and whatever is
wanted of it, operators are applied to plain values, native functions are called with plain
values, and the arguments and indices of what the host is asked are plain. -/
theorem values_stay_plain (hw : w.Reachable nodes) (htree : tree ∈ nodes) {text : String}
    (hread : Grammar.standard.read text = .ok tree.formula) {host : Host}
    (hresolve : ∀ calls value levels w handle,
      ((host.respond calls (.resolve value)).run (.ofHost host levels) w).1 ≠
        .answered (.object handle)) (levels : Nat) :
    (∀ value, (tree.calcChecked (.ofHost host levels) true w).1 = .ok value → value.IsPlain) ∧
    ∀ asValue, let machine := Machine.ofHost host levels
      (∀ op operands, (op, operands) ∈ tree.operations machine asValue w →
        ∀ operand ∈ operands, operand.IsPlain) ∧
      (∀ visit ∈ tree.visits machine asValue w, ∀ function args,
        visit.act = .native function args → ∀ arg ∈ args, arg.IsPlain) ∧
      ∀ request outcome, .request request outcome ∈ tree.callbacks machine asValue w →
        ∀ value ∈ request.arguments, value.IsPlain := by
  have hm := Machine.ofHost_resolvesPlain hresolve levels
  have hbuiltin := Grammar.everywhere_builtin_of_read hread
  constructor
  · intro value hvalue
    have htells := Tree.account_tells htree hw.standing.sound (.ofHost host levels) true
    rw [Tree.calcChecked_result, htells.run_eq] at hvalue
    cases houtcome : (tree.formula.account _ tree.layout [] true w.entered).outcome with
    | answered found =>
        rw [houtcome] at hvalue
        cases hvalue
        exact tree.formula.account_plain hm hbuiltin _ _ _ houtcome
    | failed error =>
        rw [houtcome] at hvalue
        cases hvalue
    | panicked message =>
        rw [houtcome] at hvalue
        cases hvalue
  · intro asValue machine
    have htells := Tree.account_tells htree hw.standing.sound machine asValue
    have hhanded : ∀ visit ∈ tree.visits machine asValue w,
        ∀ value ∈ visit.act.handed, value.IsPlain :=
      tree.formula.account_handed hm hbuiltin _ _ _ _
    refine ⟨fun op operands hoperation => ?_, fun visit hvisit function args hact => ?_,
      fun request outcome hcallback => ?_⟩
    · rw [operations, htells.operations_eq] at hoperation
      obtain ⟨visit, hvisit, hfound⟩ := List.mem_filterMap.mp hoperation
      have hplain := hhanded visit hvisit
      cases hact : visit.act with
      | operate found values =>
          rw [hact] at hfound hplain
          cases hfound
          exact hplain
      | answer | lookup | native | precompiled | log | dump =>
          rw [hact] at hfound
          cases hfound
    · have hplain := hhanded visit hvisit
      rwa [hact] at hplain
    · rw [callbacks, htells.callbacks_eq] at hcallback
      obtain ⟨visit, hvisit, hmem⟩ := List.mem_flatMap.mp hcallback
      have haccounted := (tree.visits_ordered _ asValue w).2 visit hvisit
      rcases haccounted.does.asks hmem with hact | ⟨value, rfl⟩
      · have hplain := hhanded visit hvisit
        rwa [hact] at hplain
      · rintro value ⟨⟩

/-- A host whose lookups answer objects, each standing for a number. -/
theorem sum_stays_plain : ∃ formula,
    let host := Host.stateless
      (fun request => match request with
        | .resolve _ => .done (.int 12)
        | _ => .done (.object (.external "Probe" "p")))
      (.done "probes")
    let planted := World.plant {} formula
    Grammar.standard.read "f(a) + max(b.c, 1)" = .ok formula ∧
      planted.2.Reachable (∅ ∪ planted.1.nodes) ∧ planted.1 ∈ ∅ ∪ planted.1.nodes ∧
      (∀ calls value levels w handle,
        ((host.respond calls (.resolve value)).run (.ofHost host levels) w).1 ≠
          .answered (.object handle)) ∧
      ∀ value, (planted.1.calcOn host true planted.2).1 = .ok value → value.IsPlain := by
  obtain ⟨formula, hread⟩ : ∃ formula, Grammar.standard.read "f(a) + max(b.c, 1)" = .ok formula :=
    Grammar.exists_read (by decide +kernel)
  obtain ⟨hw, hself⟩ := World.Reachable.first formula
  refine ⟨formula, hread, hw, hself, ?_, ?_⟩
  · intro calls value levels w handle hresolved
    cases hresolved
  · refine (values_stay_plain hw hself hread ?_ nestingLevels).1
    intro calls value levels w handle hresolved
    cases hresolved

end Tree

end Formulary
