import Formulary.Proofs.Bindings
import Formulary.Proofs.Order

/-! # The names that a run asks for

The references of a formula are worked out from its nodes alone, before anything is known
of a host. They cover whatever an evaluation asks its host for by a name, and a function
that the reader's table has is not asked for at all, provided that function calls can be
written with parentheses only.
-/

namespace Formulary

/-- Whether a question is about one of the names; elements and plain values have none. -/
def References.Covers (references : References) : Request → Prop
  | .lookup name => name ∈ references.variables
  | .member _ name => name ∈ references.members
  | .function name _ => name ∈ references.functions
  | .method _ name _ => name ∈ references.methods
  | .index _ _ => True
  | .resolve _ => True

/-- The name that a question is about, with its role. -/
def Request.mention? : Request → Option (Role × String)
  | lookup name => some (.global, name)
  | member _ name => some (.member, name)
  | function name _ => some (.function, name)
  | method _ name _ => some (.method, name)
  | index _ _ => none
  | resolve _ => none

theorem mem_insertName {name other : String} {names : List String} :
    name ∈ insertName other names ↔ name = other ∨ name ∈ names := by
  induction names with
  | nil => exact List.mem_singleton.trans (by simp)
  | cons first rest ih =>
      rw [insertName]
      split
      · exact List.mem_cons
      split
      next heq =>
        rw [beq_iff_eq.mp heq, List.mem_cons]
        exact ⟨Or.inr, fun h => h.elim Or.inl id⟩
      next => rw [List.mem_cons, List.mem_cons, ih, or_left_comm]

theorem mem_sortNames {name : String} {names : List String} :
    name ∈ sortNames names ↔ name ∈ names := by
  induction names with
  | nil => rfl
  | cons first rest ih =>
      rw [sortNames, List.foldr_cons, mem_insertName, List.mem_cons]
      exact or_congr_right ih

namespace Formula

theorem mentionsOfEach_eq_map (operands : List Formula) :
    mentionsOfEach operands = operands.map mentions := by
  induction operands with
  | nil => rw [mentionsOfEach, List.map_nil]
  | cons operand rest ih => rw [mentionsOfEach, List.map_cons, ih]

theorem mem_namesOf {formula : Formula} {role : Role} {name : String} :
    name ∈ formula.namesOf role ↔ (role, name) ∈ formula.mentions := by
  rw [namesOf, mem_sortNames, List.mem_map]
  constructor
  · rintro ⟨⟨found, other⟩, hmem, rfl⟩
    obtain ⟨hmention, hrole⟩ := List.mem_filter.mp hmem
    rwa [← beq_iff_eq.mp hrole]
  · exact fun hmention => ⟨(role, name), List.mem_filter.mpr ⟨hmention, beq_self_eq_true _⟩, rfl⟩

/-- The references cover what the mentions do. -/
theorem covers_references {formula : Formula} {request : Request}
    (h : ∀ mention ∈ request.mention?, mention ∈ formula.mentions) :
    formula.references.Covers request := by
  cases request with
  | lookup name => exact mem_namesOf.mpr (h (.global, name) rfl)
  | member target name => exact mem_namesOf.mpr (h (.member, name) rfl)
  | function name args => exact mem_namesOf.mpr (h (.function, name) rfl)
  | method target name args => exact mem_namesOf.mpr (h (.method, name) rfl)
  | index target indices => trivial
  | resolve value => trivial

variable {op : Operator} {operands : List Formula}

/-- A node mentions what those of its operands mention that are evaluated. -/
theorem mentions_operand (native : Option (Native Formula)) (hfaultless : op.fault? operands = none)
    {operand : Formula} {i : Nat} (hoperand : operands[i]? = some operand)
    (hname : op.form.namePosition? ≠ some i) :
    operand.mentions ⊆ (apply op native operands).mentions := by
  have hadmits := op.admits_of_fault?_eq_none hfaultless
  have hflatten {items : List Formula} (hmem : operand ∈ items) :
      operand.mentions ⊆ (items.map mentions).flatten :=
    fun mention hmention => List.mem_flatten.mpr ⟨_, List.mem_map_of_mem hmem, hmention⟩
  rw [mentions, mentionsOfEach_eq_map]
  generalize op.form = form at hadmits hname
  cases hadmits with
  | unary | binary | disjunction | conjunction | grouping | indexing | dump | log =>
      exact hflatten (List.mem_of_getElem? hoperand)
  | member target name =>
      -- Behind the target there is only the name.
      rcases i with _ | _ | i
      · cases hoperand
        have htarget := hflatten (List.mem_singleton_self operand)
        exact fun mention hmention => List.mem_append_right _ (htarget hmention)
      · exact absurd rfl hname
      · simp at hoperand
  | functionCall name arguments =>
      rcases i with _ | i
      · exact absurd rfl hname
      · have hmem : operand ∈ arguments := List.mem_of_getElem? hoperand
        exact fun mention hmention => List.mem_append_right _ (hflatten hmem hmention)
  | methodCall target name arguments =>
      rcases i with _ | _ | i
      · cases hoperand
        have htarget := hflatten (List.mem_singleton_self operand)
        exact fun mention hmention =>
          List.mem_append_left _ (List.mem_append_right _ (htarget hmention))
      · exact absurd rfl hname
      · have hmem : operand ∈ arguments := List.mem_of_getElem? hoperand
        exact fun mention hmention => List.mem_append_right _ (hflatten hmem hmention)

/-- A node mentions what it asks for itself. -/
theorem mentions_act {native : Option (Native Formula)} (hfaultless : op.fault? operands = none)
    {layout : Layout} {values : List Value} {request : Request}
    (hact : op.act native layout operands values = .lookup request) :
    ∀ mention ∈ request.mention?, mention ∈ (apply op native operands).mentions := by
  have hadmits := op.admits_of_fault?_eq_none hfaultless
  rw [mentions]
  rcases Operator.act_eq_lookup hact with
    ⟨hform, -, rfl⟩ | ⟨target, args, -, ⟨hform, rfl⟩ | ⟨hform, rfl⟩ | ⟨-, rfl⟩⟩
  · rw [hform] at hadmits ⊢
    cases hadmits with
    | functionCall name arguments =>
        rintro mention ⟨⟩
        exact List.mem_append_left _ (List.mem_singleton_self _)
  · rw [hform] at hadmits ⊢
    cases hadmits with
    | member target name =>
        rintro mention ⟨⟩
        exact List.mem_append_left _ (List.mem_singleton_self _)
  · rw [hform] at hadmits ⊢
    cases hadmits with
    | methodCall target name arguments =>
        rintro mention ⟨⟩
        exact List.mem_append_left _ (List.mem_append_left _ (List.mem_singleton_self _))
  · rintro mention ⟨⟩

end Formula

/-- A function call that asks the host is not bound. -/
theorem Performs.function?_eq_none {layout : Layout} {visits : List Visit} {path : List Nat}
    {node : Formula} {name : String} {args : List Value} {functions : FunctionTable}
    (h : Performs layout visits path node (.lookup (.function name args)))
    (hbound : node.IsBound functions) : functions.function? name = none := by
  generalize hact : Act.lookup (.function name args) = act at h
  cases h with
  | constant value => cases hact
  | precompiled expression => cases hact
  | identifier other => cases hact
  | apply native hfaultless hvalues =>
      rcases Operator.act_eq_lookup hact.symm with
        ⟨hform, hnative, hrequest⟩ | ⟨target, rest, -, ⟨-, hother⟩ | ⟨-, hother⟩ | ⟨-, hother⟩⟩
      · obtain ⟨found, arguments, rfl, hfunction⟩ := hbound hform
        cases hrequest
        rw [hnative] at hfunction
        exact hfunction.symm
      · cases hother
      · cases hother
      · cases hother

namespace Formula

/-- Whatever is looked up while a formula is evaluated, the formula mentions. -/
theorem account_mentions (m : Machine) (formula : Formula) (layout : Layout) (path : List Nat)
    (asValue : Bool) (w : World) :
    ∀ visit ∈ (formula.account m layout path asValue w).visits, ∀ request,
      visit.act = .lookup request → ∀ mention ∈ request.mention?, mention ∈ formula.mentions := by
  induction formula using induct generalizing layout path asValue w with
  | constant value =>
      intro visit hvisit request hact
      rw [account] at hvisit
      obtain ⟨-, -, heq, -⟩ := Act.account_does _ w hvisit
      cases hact.symm.trans heq
  | precompiled expression =>
      intro visit hvisit request hact
      rw [account] at hvisit
      obtain ⟨-, -, heq, -⟩ := Act.account_does _ w hvisit
      cases hact.symm.trans heq
  | identifier name =>
      intro visit hvisit request hact
      rw [account] at hvisit
      obtain ⟨-, -, heq, -⟩ := Act.account_does _ w hvisit
      cases hact.symm.trans heq
      rintro mention ⟨⟩
      rw [mentions]
      exact List.mem_singleton_self _
  | apply op native operands ih =>
      intro visit hvisit request hact
      rw [account] at hvisit
      cases hfault : op.fault? operands with
      | some fault => simp [hfault] at hvisit
      | none =>
          simp only [hfault] at hvisit
          rcases Account.mem_andThen hvisit with hbelow | ⟨values, -, hself⟩
          · obtain ⟨i, operand, hoperand, hname, _, _, _, _, hmem⟩ := mem_accountOperands hbelow
            rw [Nat.zero_add] at hname
            have hinner :=
              ih operand (List.mem_of_getElem? hoperand) _ _ _ _ visit hmem request hact
            exact fun mention hmention =>
              mentions_operand native hfault hoperand hname (hinner mention hmention)
          · obtain ⟨-, -, heq, -⟩ := Act.account_does _ _ hself
            exact mentions_act hfault (heq.symm.trans hact)

end Formula

namespace Tree

variable {nodes : Set Tree} {tree : Tree} {w : World}

/-- What an evaluation asks its host for is among the references of the formula. And if the
formula was read, with a table that operators were added to one after the other and none of
whose infix operators has the form of function calls, it never asks for a function that the
reader's table of functions has. -/
theorem requests_covered (hw : w.Reachable nodes) (htree : tree ∈ nodes) (host : Host)
    (levels : Nat) (asValue : Bool) :
    let callbacks := tree.callbacks (.ofHost host levels) asValue w
    (∀ request outcome, .request request outcome ∈ callbacks →
      tree.formula.references.Covers request) ∧
    ∀ (g : Grammar) (ops : List Operator) (text : String),
      g.operators = OperatorTable.empty.registerAll ops →
      (∀ op ∈ g.operators.infixCandidates, op.form ≠ .functionCall) →
      g.read text = .ok tree.formula →
      ∀ name args outcome, .request (.function name args) outcome ∈ callbacks →
        g.functions.function? name = none := by
  intro callbacks
  have hcallbacks : callbacks = (tree.visits _ asValue w).flatMap Visit.callbacks :=
    (Tree.account_tells htree hw.standing.sound (.ofHost host levels) asValue).callbacks_eq
  -- Each question is the lookup of a visit, or is about the plain value of what was found.
  have hasked : ∀ request outcome, Callback.request request outcome ∈ callbacks →
      (∃ visit ∈ tree.visits (.ofHost host levels) asValue w, visit.act = .lookup request) ∨
        ∃ value, request = .resolve value := by
    intro request outcome hcallback
    rw [hcallbacks] at hcallback
    obtain ⟨visit, hvisit, hmem⟩ := List.mem_flatMap.mp hcallback
    have haccounted := (tree.visits_ordered _ asValue w).2 visit hvisit
    exact (haccounted.does.asks hmem).imp_left fun hact => ⟨visit, hvisit, hact⟩
  constructor
  · intro request outcome hcallback
    rcases hasked request outcome hcallback with ⟨visit, hvisit, hact⟩ | ⟨value, rfl⟩
    · exact Formula.covers_references
        (tree.formula.account_mentions _ _ _ _ _ visit hvisit request hact)
    · trivial
  · intro g ops text htable hoperators hread name args outcome hcallback
    have hproper : g.operators.Proper := htable ▸ OperatorTable.proper_registerAll ops
    have hbound := (Grammar.composes_of_read hread).everywhere_bound hproper hoperators
    rcases hasked _ outcome hcallback with ⟨visit, hvisit, hact⟩ | ⟨value, hresolve⟩
    · obtain ⟨node, hnode, hperforms⟩ := ((tree.visits_ordered _ asValue w).2 visit hvisit).performs
      have hnodeBound := hbound visit.path node hnode
      rw [hact] at hperforms
      exact hperforms.function?_eq_none hnodeBound
    · cases hresolve

/-- Of the two functions in `max(a, 1) + f(b)` only the one that is not native can be
asked for. -/
theorem sum_requests_covered : ∃ formula, Grammar.standard.read "max(a, 1) + f(b)" = .ok formula ∧
    Grammar.standard.operators = OperatorTable.empty.registerAll OperatorTable.builtin ∧
    (∀ op ∈ Grammar.standard.operators.infixCandidates, op.form ≠ .functionCall) ∧
    let planted := World.plant {} formula
    planted.2.Reachable (∅ ∪ planted.1.nodes) ∧ planted.1 ∈ ∅ ∪ planted.1.nodes ∧
      ∀ name args outcome, .request (.function name args) outcome ∈
        planted.1.callbacks (.ofHost .empty nestingLevels) true planted.2 →
          Grammar.standard.functions.function? name = none := by
  obtain ⟨formula, hread⟩ : ∃ formula, Grammar.standard.read "max(a, 1) + f(b)" = .ok formula :=
    Grammar.exists_read (by decide +kernel)
  obtain ⟨hw, hself⟩ := World.Reachable.first formula
  have hoperators :
      ∀ op ∈ Grammar.standard.operators.infixCandidates, op.form ≠ .functionCall := by
    decide
  obtain ⟨-, hnative⟩ := requests_covered hw hself .empty nestingLevels true
  exact ⟨formula, hread, rfl, hoperators, hw, hself,
    hnative .standard OperatorTable.builtin _ rfl hoperators hread⟩

/-- An infix operator that has the form of function calls makes calls that are not bound,
even of a function that the table has. -/
theorem infix_call_not_bound :
    let tilde : Operator :=
      { symbol := "~", name := "Scripted", priority := 5, form := .functionCall, binary := true }
    let g : Grammar := ⟨OperatorTable.standard.register tilde, .standard⟩
    ∃ formula, g.read "max ~ 1" = .ok formula ∧ (g.functions.function? "max").isSome = true ∧
      let planted := World.plant {} formula
      planted.2.Reachable (∅ ∪ planted.1.nodes) ∧ planted.1 ∈ ∅ ∪ planted.1.nodes ∧
        ∃ outcome, .request (.function "max" [.int 1]) outcome ∈
          planted.1.callbacks (.ofHost .empty nestingLevels) true planted.2 := by
  intro tilde g
  let call : Formula := .apply tilde none [.identifier "max", .constant (.int 1)]
  obtain ⟨hw, hself⟩ := World.Reachable.first call
  have hread : g.read "max ~ 1" = .ok call := by
    unfold g call tilde
    rfl
  refine ⟨call, hread, by decide, hw, hself, ?_⟩
  rw [callbacks, program_eq_evaluate hself hw.standing.sound]
  exact ⟨_, List.mem_cons_self⟩

end Tree

end Formulary
