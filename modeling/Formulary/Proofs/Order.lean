import Formulary.Proofs.Backends
import Formulary.Proofs.Visits
import Mathlib.Data.List.Nodup

/-! # The order of what a run asks

The nodes of a formula are listed from left to right, each behind its operands; operands
that only carry a name are not listed. A run visits nodes in this order, each at most
once, and what a node does it does with what the visits of its operands have answered. A
lookup is asked for by the visit of one node, in the same visit followed by the question
for the plain value of its answer if such a value was wanted of the node.
-/

namespace Formulary

namespace Formula

mutual

/-- The paths of the nodes in the order of their evaluation. -/
def sites (path : List Nat) : Formula → List (List Nat)
  | constant _ => [path]
  | identifier _ => [path]
  | precompiled _ => [path]
  | apply op _ operands => sitesOfEach path op.form 0 operands ++ [path]

/-- The paths below operands, the first of which stands at position `i`. -/
def sitesOfEach (path : List Nat) (form : Form) (i : Nat) : List Formula → List (List Nat)
  | [] => []
  | operand :: rest =>
    (if form.namePosition? = some i then [] else sites (path ++ [i]) operand) ++
      sitesOfEach path form (i + 1) rest

end

/-- Whether the host can be asked for the node: variables, members, methods, elements and
the calls that are not bound to a native function. -/
def isLookup : Formula → Bool
  | identifier _ => true
  | apply op native _ =>
    match op.form with
    | .dot | .methodCall | .indexer => true
    | .functionCall => native.isNone
    | _ => false
  | _ => false

/-- The paths of the nodes that the host can be asked for, in the order of their evaluation. -/
def lookupSites (formula : Formula) : List (List Nat) :=
  (formula.sites []).filter fun path => (formula.descendant? path).any isLookup

/-- Whether a plain value is wanted of the node at a path, given whether one is wanted of
the formula. -/
def modeAt (asValue : Bool) : Formula → List Nat → Bool
  | _, [] => asValue
  | formula, i :: path =>
    match formula.form?, formula.operands[i]? with
    | some form, some operand => modeAt (form.wants asValue i) operand path
    | _, _ => asValue

section Sites

variable {form : Form} {path : List Nat}

theorem prefix_of_mem_sitesOfEach (operands : List Formula) (i : Nat)
    (hoperands : ∀ operand ∈ operands, ∀ path, ∀ site ∈ operand.sites path, path <+: site)
    {site : List Nat} (hsite : site ∈ sitesOfEach path form i operands) :
    ∃ j, i ≤ j ∧ path ++ [j] <+: site := by
  induction operands generalizing i with
  | nil =>
      rw [sitesOfEach] at hsite
      cases hsite
  | cons operand rest ih =>
      obtain ⟨hoperand, hrest⟩ := List.forall_mem_cons.mp hoperands
      rw [sitesOfEach, List.mem_append] at hsite
      rcases hsite with hfirst | hlater
      · split at hfirst
        · cases hfirst
        · exact ⟨i, le_rfl, hoperand _ _ hfirst⟩
      · obtain ⟨j, hle, hprefix⟩ := ih (i + 1) hrest hlater
        exact ⟨j, by omega, hprefix⟩

theorem prefix_of_mem_sites (formula : Formula) (path : List Nat) :
    ∀ site ∈ formula.sites path, path <+: site := by
  induction formula using induct generalizing path with
  | constant value | identifier name | precompiled expression =>
      intro site hsite
      rw [sites, List.mem_singleton] at hsite
      exact hsite ▸ List.prefix_rfl
  | apply op native operands ih =>
      intro site hsite
      rw [sites, List.mem_append, List.mem_singleton] at hsite
      rcases hsite with hbelow | rfl
      · obtain ⟨j, -, hprefix⟩ := prefix_of_mem_sitesOfEach operands 0 ih hbelow
        exact (List.prefix_append path [j]).trans hprefix
      · exact List.prefix_rfl

/-- What lies below one operand does not lie below another. -/
theorem eq_of_common_site {site : List Nat} {i j : Nat} (hfirst : path ++ [i] <+: site)
    (hsecond : path ++ [j] <+: site) : i = j := by
  have hsame := (List.prefix_of_prefix_length_le hfirst hsecond (by simp)).eq_of_length (by simp)
  simpa using hsame

theorem nodup_sitesOfEach (operands : List Formula) (i : Nat)
    (hoperands : ∀ operand ∈ operands, ∀ path, (operand.sites path).Nodup) :
    (sitesOfEach path form i operands).Nodup := by
  induction operands generalizing i with
  | nil =>
      rw [sitesOfEach]
      exact List.nodup_nil
  | cons operand rest ih =>
      obtain ⟨hoperand, hrest⟩ := List.forall_mem_cons.mp hoperands
      rw [sitesOfEach]
      split
      · exact ih (i + 1) hrest
      · refine List.Nodup.append (hoperand _) (ih (i + 1) hrest) fun site hfirst hlater => ?_
        obtain ⟨j, hle, hprefix⟩ := prefix_of_mem_sitesOfEach rest (i + 1)
          (fun operand _ => prefix_of_mem_sites operand) hlater
        have hsame := eq_of_common_site (prefix_of_mem_sites operand _ site hfirst) hprefix
        omega

theorem nodup_sites (formula : Formula) (path : List Nat) : (formula.sites path).Nodup := by
  induction formula using induct generalizing path with
  | constant value | identifier name | precompiled expression =>
      rw [sites]
      exact List.nodup_singleton path
  | apply op native operands ih =>
      rw [sites]
      refine (nodup_sitesOfEach operands 0 ih).append (List.nodup_singleton path) ?_
      intro site hbelow hroot
      obtain ⟨j, -, hprefix⟩ := prefix_of_mem_sitesOfEach operands 0
        (fun operand _ => prefix_of_mem_sites operand) hbelow
      rw [List.mem_singleton.mp hroot] at hprefix
      have hle := hprefix.length_le
      rw [List.length_append, List.length_singleton] at hle
      omega

end Sites

theorem modeAt_append {formula operand : Formula} {op : Operator}
    {native : Option (Native Formula)} {operands : List Formula} {path : List Nat}
    (hnode : formula.descendant? path = some (apply op native operands)) {i : Nat}
    (hoperand : operands[i]? = some operand) (asValue : Bool) :
    modeAt asValue formula (path ++ [i]) = op.form.wants (modeAt asValue formula path) i := by
  induction path generalizing formula asValue with
  | nil =>
      rw [descendant?_nil, Option.some.injEq] at hnode
      subst hnode
      simp [modeAt, form?, Formula.operands, hoperand]
  | cons j path ih =>
      cases formula with
      | apply outer bound arguments =>
          cases hbelow : arguments[j]? with
          | none => simp [descendant?, Formula.operands, hbelow] at hnode
          | some argument =>
              have hbelow' : (apply outer bound arguments).operands[j]? = some argument := hbelow
              rw [descendant?_cons path hbelow'] at hnode
              simp only [List.cons_append, modeAt, form?, hbelow']
              exact ih hnode _
      | constant value => cases hnode
      | identifier name => cases hnode
      | precompiled expression => cases hnode

end Formula

/-- Of the visits one at this path answered this value. -/
def Answered (visits : List Visit) (path : List Nat) (value : Value) : Prop :=
  ∃ visit ∈ visits, visit.path = path ∧ visit.outcome = .answered value

/-- The values of the operands of a node, the first of which stands at position `i`, as
their visits answered them, up to one that settles the result. -/
inductive Gathers (visits : List Visit) (path : List Nat) (form : Form) :
    Nat → List Formula → List Value → Prop where
  | none (i : Nat) : Gathers visits path form i [] []
  | name {i : Nat} {rest : List Formula} {values : List Value} (operand : Formula)
      (hname : form.namePosition? = some i) (hrest : Gathers visits path form (i + 1) rest values) :
      Gathers visits path form i (operand :: rest) values
  | settled {i : Nat} {value : Value} (operand : Formula) (rest : List Formula)
      (hname : form.namePosition? ≠ some i) (hvalue : Answered visits (path ++ [i]) value)
      (hsettles : form.settles value = true) :
      Gathers visits path form i (operand :: rest) [value]
  | value {i : Nat} {rest : List Formula} {value : Value} {values : List Value} (operand : Formula)
      (hname : form.namePosition? ≠ some i) (hvalue : Answered visits (path ++ [i]) value)
      (hsettles : form.settles value = false)
      (hrest : Gathers visits path form (i + 1) rest values) :
      Gathers visits path form i (operand :: rest) (value :: values)

/-- What the node at a path of a tree does, given the visits of its operands. -/
inductive Performs (layout : Layout) (visits : List Visit) (path : List Nat) :
    Formula → Act → Prop where
  | constant (value : Value) : Performs layout visits path (.constant value) (.answer value)
  | identifier (name : String) :
      Performs layout visits path (.identifier name) (.lookup (.lookup name))
  | precompiled (expression : Precompiled Formula) :
      Performs layout visits path (.precompiled expression) (.precompiled expression)
  | apply {op : Operator} {operands : List Formula} {values : List Value}
      (native : Option (Native Formula)) (hfaultless : op.fault? operands = none)
      (hvalues : Gathers visits path op.form 0 operands values) :
      Performs layout visits path (.apply op native operands)
        (op.act native (fun inner => layout (path ++ inner)) operands values)

/-- What a visit has to do with the tree that is evaluated and the visits of the same run. -/
structure Visit.Accounted (tree : Tree) (asValue : Bool) (visits : List Visit) (visit : Visit) :
    Prop where
  mode_eq : visit.asValue = tree.formula.modeAt asValue visit.path
  performs : ∃ node, tree.formula.descendant? visit.path = some node ∧
    Performs tree.layout visits visit.path node visit.act
  does : visit.act.Does visit.asValue visit.callbacks visit.outcome

section Mono

variable {visits more : List Visit} (hsub : visits ⊆ more) {path : List Nat}
include hsub

theorem Answered.mono {value : Value} (h : Answered visits path value) :
    Answered more path value := by
  obtain ⟨visit, hvisit, hpath, houtcome⟩ := h
  exact ⟨visit, hsub hvisit, hpath, houtcome⟩

theorem Gathers.mono {form : Form} {i : Nat} {operands : List Formula} {values : List Value}
    (h : Gathers visits path form i operands values) :
    Gathers more path form i operands values := by
  induction h with
  | none i => exact .none i
  | name operand hname _ ih => exact .name operand hname ih
  | settled operand rest hname hvalue hsettles =>
      exact .settled operand rest hname (hvalue.mono hsub) hsettles
  | value operand hname hvalue hsettles _ ih =>
      exact .value operand hname (hvalue.mono hsub) hsettles ih

theorem Performs.mono {layout : Layout} {node : Formula} {act : Act}
    (h : Performs layout visits path node act) : Performs layout more path node act := by
  cases h with
  | constant value => exact .constant value
  | identifier name => exact .identifier name
  | precompiled expression => exact .precompiled expression
  | apply native hfaultless hvalues => exact .apply native hfaultless (hvalues.mono hsub)

omit path in
theorem Visit.Accounted.mono {tree : Tree} {asValue : Bool} {visit : Visit}
    (h : visit.Accounted tree asValue visits) : visit.Accounted tree asValue more where
  mode_eq := h.mode_eq
  does := h.does
  performs := by
    obtain ⟨node, hnode, hperforms⟩ := h.performs
    exact ⟨node, hnode, hperforms.mono hsub⟩

end Mono

/-- An account that goes on after earlier visits: it visits sites in their order, all its
visits are accounted for, and it `Yields` its answer. -/
structure Account.Ordered {α : Type} (tree : Tree) (wanted : Bool) (earlier : List Visit)
    (sites : List (List Nat)) (Yields : List Visit → α → Prop) (account : Account α) : Prop where
  sublist : (account.visits.map Visit.path).Sublist sites
  accounted : ∀ visit ∈ account.visits, visit.Accounted tree wanted (earlier ++ account.visits)
  yields : ∀ answer, account.outcome = .answered answer →
    Yields (earlier ++ account.visits) answer

namespace Account.Ordered

variable {α β : Type} {tree : Tree} {wanted : Bool} {earlier : List Visit}
  {sites later : List (List Nat)} {Yields : List Visit → α → Prop} {Results : List Visit → β → Prop}

theorem nothing (outcome : Outcome EvalError α) (w : World)
    (hyields : ∀ answer, outcome = .answered answer → Yields earlier answer) :
    Ordered tree wanted earlier sites Yields ⟨[], outcome, w⟩ where
  sublist := List.nil_sublist sites
  accounted := by
    rintro visit ⟨⟩
  yields := by simpa using hyields

theorem andThen {account : Account α} (h : account.Ordered tree wanted earlier sites Yields)
    {next : α → World → Account β}
    (hnext : ∀ answer w, Yields (earlier ++ account.visits) answer →
      (next answer w).Ordered tree wanted (earlier ++ account.visits) later Results) :
    (account.andThen next).Ordered tree wanted earlier (sites ++ later) Results := by
  have hstays := h.sublist.trans (List.sublist_append_left sites later)
  unfold Account.andThen
  cases houtcome : account.outcome with
  | answered answer =>
      have hrest := hnext answer account.world (h.yields answer houtcome)
      constructor
      · simp only [List.map_append]
        exact h.sublist.append hrest.sublist
      · simp only [← List.append_assoc]
        intro visit hvisit
        rcases List.mem_append.mp hvisit with hbefore | hafter
        · exact (h.accounted visit hbefore).mono (List.subset_append_left _ _)
        · exact hrest.accounted visit hafter
      · simp only [← List.append_assoc]
        exact hrest.yields
  | failed error => exact ⟨hstays, h.accounted, fun _ hanswered => by cases hanswered⟩
  | panicked message => exact ⟨hstays, h.accounted, fun _ hanswered => by cases hanswered⟩

/-- A node acts when its operands have been visited. -/
theorem act {node : Formula} {path : List Nat} {asValue : Bool} {act : Act}
    (hnode : tree.formula.descendant? path = some node)
    (hmode : asValue = tree.formula.modeAt wanted path)
    (hperforms : Performs tree.layout earlier path node act) (m : Machine) (cell : Cell)
    (w : World) : (act.account m path cell asValue w).Ordered tree wanted earlier [path]
      (fun visits value => Answered visits path value) where
  sublist := List.Sublist.refl _
  accounted := by
    intro visit hvisit
    obtain ⟨rfl, rfl, rfl, -, hdoes⟩ := Act.account_does act w hvisit
    refine Visit.Accounted.mono (List.subset_append_left _ _) ?_
    exact ⟨hmode, ⟨node, hnode, hperforms⟩, hdoes⟩
  yields := fun _ hanswered =>
    ⟨_, List.mem_append_right _ (List.mem_singleton_self _), rfl, hanswered⟩

end Account.Ordered

namespace Formula

variable {m : Machine} {tree : Tree} {wanted : Bool}

theorem accountOperands_ordered {layout : Layout} {path : List Nat} {form : Form} {asValue : Bool}
    {earlier : List Visit} (operands : List Formula) (i : Nat)
    (hoperands : ∀ operand ∈ operands, ∀ layout path earlier w,
      tree.formula.descendant? path = some operand →
      layout = (fun inner => tree.layout (path ++ inner)) →
      (operand.account m layout path (tree.formula.modeAt wanted path) w).Ordered tree wanted
        earlier (operand.sites path) (fun visits value => Answered visits path value))
    (hnodes : ∀ j operand, operands[j]? = some operand →
      tree.formula.descendant? (path ++ [i + j]) = some operand ∧
        tree.formula.modeAt wanted (path ++ [i + j]) = form.wants asValue (i + j))
    (hlayout : layout = fun inner => tree.layout (path ++ inner)) (w : World) :
    (accountOperands m layout path form asValue i operands w).Ordered tree wanted earlier
      (sitesOfEach path form i operands)
      (fun visits values => Gathers visits path form i operands values) := by
  induction operands generalizing i earlier w with
  | nil =>
      rw [accountOperands, sitesOfEach]
      exact .nothing _ w fun values hvalues => by
        cases hvalues
        exact .none i
  | cons operand rest ih =>
      obtain ⟨hoperand, hrest⟩ := List.forall_mem_cons.mp hoperands
      have hlater : ∀ {earlier : List Visit} (w : World),
          (accountOperands m layout path form asValue (i + 1) rest w).Ordered tree wanted earlier
            (sitesOfEach path form (i + 1) rest)
            (fun visits values => Gathers visits path form (i + 1) rest values) := by
        refine fun w => ih (i + 1) hrest (fun j operand hfound => ?_) w
        have hnode := hnodes (j + 1) operand hfound
        rwa [show i + (j + 1) = i + 1 + j by omega] at hnode
      rw [accountOperands, sitesOfEach]
      split
      next hname =>
        have hrest : Account.Ordered tree wanted earlier _ _ _ := hlater w
        exact ⟨hrest.sublist, hrest.accounted, fun values hvalues =>
          .name operand hname (hrest.yields values hvalues)⟩
      next hname =>
        obtain ⟨hnode, hmode⟩ := hnodes 0 operand rfl
        have hbelow : layout.below i = fun inner => tree.layout (path ++ [i + 0] ++ inner) := by
          funext inner
          simp [Layout.below, hlayout]
        have hvisited := hoperand (layout.below i) (path ++ [i + 0]) earlier w hnode hbelow
        rw [hmode] at hvisited
        refine hvisited.andThen fun value w hvalue => ?_
        split
        next hsettles =>
          refine .nothing _ w fun values hvalues => ?_
          cases hvalues
          exact .settled operand rest hname hvalue hsettles
        next hsettles =>
          rw [← List.append_nil (sitesOfEach path form (i + 1) rest)]
          refine (hlater w).andThen fun values w hvalues => .nothing _ w fun all hall => ?_
          cases hall
          exact .value operand hname (hvalue.mono (List.subset_append_left _ _))
            (Bool.eq_false_iff.mpr hsettles) hvalues

/-- The node at a path of a tree is accounted for in the order of the tree. -/
theorem account_ordered (formula : Formula) (layout : Layout) (path : List Nat)
    (earlier : List Visit) (w : World) (hnode : tree.formula.descendant? path = some formula)
    (hlayout : layout = fun inner => tree.layout (path ++ inner)) :
    (formula.account m layout path (tree.formula.modeAt wanted path) w).Ordered tree wanted earlier
      (formula.sites path) (fun visits value => Answered visits path value) := by
  induction formula using induct generalizing layout path earlier w with
  | constant value =>
      rw [account, sites]
      exact .act hnode rfl (.constant value) m layout.root w
  | identifier name =>
      rw [account, sites]
      exact .act hnode rfl (.identifier name) m layout.root w
  | precompiled expression =>
      rw [account, sites]
      exact .act hnode rfl (.precompiled expression) m layout.root w
  | apply op native operands ih =>
      rw [account, sites]
      cases hfault : op.fault? operands with
      | some fault =>
          exact .nothing _ w fun value hvalue => by cases hvalue
      | none =>
          refine (accountOperands_ordered operands 0 ih (fun j operand hoperand => ?_) hlayout
            w).andThen fun values w hvalues => ?_
          · rw [Nat.zero_add]
            refine ⟨?_, modeAt_append hnode hoperand wanted⟩
            rw [descendant?_append hnode, descendant?_cons [] hoperand, descendant?_nil]
          · subst hlayout
            exact .act hnode rfl (.apply native hfault hvalues) m _ w

end Formula

theorem Performs.isLookup {layout : Layout} {visits : List Visit} {path : List Nat}
    {node : Formula} {request : Request} (h : Performs layout visits path node (.lookup request)) :
    node.isLookup = true ∧ ∀ value, request ≠ .resolve value := by
  generalize hact : Act.lookup request = act at h
  cases h with
  | constant value => cases hact
  | precompiled expression => cases hact
  | identifier name =>
      cases hact
      exact ⟨rfl, fun value hresolve => by cases hresolve⟩
  | apply native hfaultless hvalues =>
      rw [Formula.isLookup]
      rcases Operator.act_eq_lookup hact.symm with
        ⟨hform, rfl, rfl⟩ | ⟨target, args, -, ⟨hform, rfl⟩ | ⟨hform, rfl⟩ | ⟨hform, rfl⟩⟩
      · exact ⟨by rw [hform]; rfl, fun value hresolve => by cases hresolve⟩
      · exact ⟨by rw [hform], fun value hresolve => by cases hresolve⟩
      · exact ⟨by rw [hform], fun value hresolve => by cases hresolve⟩
      · exact ⟨by rw [hform], fun value hresolve => by cases hresolve⟩

/-- The question of a callback that looks something up. -/
def Callback.lookup? : Callback → Option Request
  | request (.resolve _) _ => none
  | request question _ => some question
  | _ => none

theorem Callback.lookup?_request {request : Request} (h : ∀ value, request ≠ .resolve value)
    (outcome : Outcome String Value) :
    (Callback.request request outcome).lookup? = some request := by
  cases request with
  | resolve value => exact absurd rfl (h value)
  | lookup | member | function | method | index => rfl

/-- A visit that is accounted for looks up what its act does. -/
theorem Visit.Accounted.filterMap_lookup? {tree : Tree} {asValue : Bool} {visits : List Visit}
    {visit : Visit} (h : visit.Accounted tree asValue visits) :
    visit.callbacks.filterMap Callback.lookup? = visit.act.request?.toList := by
  obtain ⟨node, -, hperforms⟩ := h.performs
  have hdoes := h.does
  generalize visit.act = act at hperforms hdoes
  generalize visit.callbacks = callbacks, visit.outcome = outcome at hdoes
  cases hdoes with
  | missed request outcome =>
      simp [Callback.lookup?_request hperforms.isLookup.2, Act.request?]
  | found request value =>
      simp [Callback.lookup?_request hperforms.isLookup.2, Act.request?]
  | resolved request value outcome =>
      have hresolve : (Callback.request (.resolve value) outcome).lookup? = none := rfl
      simp [Callback.lookup?_request hperforms.isLookup.2, Act.request?, hresolve]
  | answer | native | precompiled | operate | log | dump | undescribed =>
      simp [Act.request?, Callback.lookup?]

namespace Tree

variable {nodes : Set Tree} {tree : Tree} {w : World}

theorem visits_ordered (m : Machine) (tree : Tree) (asValue : Bool) (w : World) :
    ((tree.visits m asValue w).map Visit.path).Sublist (tree.formula.sites []) ∧
      ∀ visit ∈ tree.visits m asValue w,
        visit.Accounted tree asValue (tree.visits m asValue w) := by
  have hmode : tree.formula.modeAt asValue [] = asValue := by
    rw [Formula.modeAt]
  have hordered : (tree.formula.account m tree.layout [] (tree.formula.modeAt asValue [])
      w.entered).Ordered tree asValue [] _ _ :=
    tree.formula.account_ordered tree.layout [] [] w.entered (Formula.descendant?_nil _) rfl
  rw [hmode] at hordered
  exact ⟨hordered.sublist, hordered.accounted⟩

/-- In a run no node is visited twice, and the nodes are visited in the order in which they
are listed. The callbacks of the run are those of its visits: a visit asks for what its
node asks for, given the answers of its operands, and then for the plain value of the
answer exactly if there is an answer and a plain value was wanted of the node. Hence the
lookups of a run are made at places listed from left to right, at each at most once. -/
theorem visits_in_order (hw : w.Reachable nodes) (htree : tree ∈ nodes) (host : Host)
    (levels : Nat) (asValue : Bool) :
    let visits := tree.visits (.ofHost host levels) asValue w
    let lookups := visits.filter fun visit => visit.act.request?.isSome
    let callbacks := tree.callbacks (.ofHost host levels) asValue w
    ((tree.formula.sites []).Nodup ∧ (visits.map Visit.path).Sublist (tree.formula.sites [])) ∧
    (tree.formula.lookupSites.Nodup ∧
      (lookups.map Visit.path).Sublist tree.formula.lookupSites) ∧
    callbacks = visits.flatMap Visit.callbacks ∧
    callbacks.filterMap Callback.lookup? = lookups.filterMap (fun visit => visit.act.request?) ∧
    ∀ visit ∈ visits, visit.Accounted tree asValue visits := by
  intro visits lookups callbacks
  obtain ⟨hsublist, haccounted⟩ := tree.visits_ordered (.ofHost host levels) asValue w
  have hnodup := tree.formula.nodup_sites []
  have htells := Tree.account_tells htree hw.standing.sound (.ofHost host levels) asValue
  have hcallbacks : callbacks = visits.flatMap Visit.callbacks := htells.callbacks_eq
  refine ⟨⟨hnodup, hsublist⟩, ⟨hnodup.filter _, ?_⟩, hcallbacks, ?_, haccounted⟩
  · -- Of the visits in order those that look something up are at nodes that can.
    have hlookups : ∀ visit ∈ lookups,
        (tree.formula.descendant? visit.path).any Formula.isLookup = true := by
      intro visit hvisit
      obtain ⟨hmem, hrequest⟩ := List.mem_filter.mp hvisit
      obtain ⟨node, hnode, hperforms⟩ := (haccounted visit hmem).performs
      cases hact : visit.act with
      | lookup request =>
          rw [hact] at hperforms
          rw [hnode]
          exact hperforms.isLookup.1
      | answer | native | precompiled | operate | log | dump =>
          rw [hact] at hrequest
          cases hrequest
    have hkept : (lookups.map Visit.path).filter (fun path =>
        (tree.formula.descendant? path).any Formula.isLookup) = lookups.map Visit.path := by
      refine List.filter_eq_self.mpr fun path hpath => ?_
      obtain ⟨visit, hvisit, rfl⟩ := List.mem_map.mp hpath
      exact hlookups visit hvisit
    rw [← hkept]
    exact ((List.filter_sublist.map Visit.path).trans hsublist).filter _
  · rw [hcallbacks, List.filterMap_flatMap]
    have heach : visits.flatMap (fun visit => visit.callbacks.filterMap Callback.lookup?) =
        visits.filterMap fun visit => visit.act.request? := by
      rw [List.filterMap_eq_flatMap_toList]
      exact List.flatMap_congr fun visit hvisit => (haccounted visit hvisit).filterMap_lookup?
    rw [heach, List.filterMap_filter]
    refine List.filterMap_congr fun visit _ => ?_
    cases visit.act.request? <;> rfl

/-- Of the two operands of `a || b` each is looked up at most once, `a` before `b`. -/
theorem disjunction_visits_in_order :
    let planted := World.plant {} (.node .disjunction [.identifier "a", .identifier "b"])
    let machine := Machine.ofHost .empty nestingLevels
    planted.2.Reachable (∅ ∪ planted.1.nodes) ∧ planted.1 ∈ ∅ ∪ planted.1.nodes ∧
      (((planted.1.visits machine true planted.2).filter fun visit =>
        visit.act.request?.isSome).map Visit.path).Sublist [[0], [1]] := by
  intro planted machine
  obtain ⟨hw, hself⟩ := World.Reachable.first
    (.node .disjunction [.identifier "a", .identifier "b"])
  obtain ⟨-, ⟨-, hlookups⟩, -⟩ := visits_in_order hw hself .empty nestingLevels true
  exact ⟨hw, hself, hlookups⟩

end Tree

end Formulary
