import Formulary.Proofs.Builtins
import Formulary.Proofs.Order
import Formulary.Proofs.Received

/-! # Wanting a plain value

Two runs of a formula of which in one a plain value is wanted and in the other none do the
same up to their last question. Groupings and logging operators want of their operand what
is wanted of them, all other nodes want the same of their operands in either run. So what
is wanted is only seen by the node below the groupings and logging operators, and only if
it looks something up: then the answer is resolved in the end.
-/

namespace Formulary

namespace Form

/-- Whether a node answers what its only operand answers, and wants of it what is wanted of
the node. -/
def passesOn : Form → Bool
  | .parenthesis | .log | .dump => true
  | _ => false

theorem wants_eq {form : Form} (h : form.passesOn = false) (asValue : Bool) (i : Nat) :
    form.wants asValue i = form.wants false i := by
  cases form with
  | parenthesis | log | dump => cases h
  | generic | or | and | dot | functionCall | methodCall | indexer => rfl

/-- The only operand is evaluated, for what is wanted of the node, and settles nothing. -/
theorem wants_of_passesOn {form : Form} (h : form.passesOn = true) (asValue : Bool) :
    form.namePosition? ≠ some 0 ∧ form.wants asValue 0 = asValue ∧
      ∀ value, form.settles value = false := by
  cases form with
  | parenthesis | log | dump => exact ⟨by decide, rfl, fun _ => rfl⟩
  | generic | or | and | dot | functionCall | methodCall | indexer => cases h

end Form

namespace Formula

/-- The path of the node below the groupings and logging operators at the root. -/
def corePath : Formula → List Nat
  | apply op _ [inner] => if op.form.passesOn then 0 :: corePath inner else []
  | _ => []

/-- Whether the node at a path has looked something up: members, methods and elements are
those of objects. -/
def LooksUp (visits : List Visit) (path : List Nat) : Formula → Prop
  | identifier _ => True
  | apply op native _ =>
    match op.form with
    | .functionCall => native = none
    | .dot | .methodCall | .indexer => ∃ target, Answered visits (path ++ [0]) (.object target)
    | _ => False
  | _ => False

theorem corePath_leaf {formula : Formula} (h : formula.operands = []) : formula.corePath = [] := by
  cases formula with
  | constant | identifier | precompiled => rfl
  | apply op native operands =>
      obtain rfl : operands = [] := h
      rfl

theorem corePath_of_passesOn {op : Operator} (h : op.form.passesOn = true)
    (native : Option (Native Formula)) (inner : Formula) :
    (apply op native [inner]).corePath = 0 :: inner.corePath := by
  rw [corePath, if_pos h]

theorem corePath_eq_nil {op : Operator} (h : op.form.passesOn = false)
    (native : Option (Native Formula)) (operands : List Formula) :
    (apply op native operands).corePath = [] := by
  rcases operands with _ | ⟨inner, _ | ⟨second, rest⟩⟩
  · rfl
  · rw [corePath, if_neg (Bool.eq_false_iff.mp h)]
  · rfl

end Formula

/-- Whether a tree ends in a lookup whose answer is handed on to the root. -/
def Tree.EndsInLookup (tree : Tree) (visits : List Visit) : Prop :=
  ∃ node, tree.formula.descendant? tree.formula.corePath = some node ∧
    node.LooksUp visits tree.formula.corePath

/-- Whether a callback asks for a description of the host. -/
def Callback.isDescription : Callback → Bool
  | description _ => true
  | _ => false

/-- What a run asks, but for descriptions of the host. -/
def Tree.asked (m : Machine) (tree : Tree) (asValue : Bool) (w : World) : List Callback :=
  (tree.callbacks m asValue w).filter fun callback => !callback.isDescription

/-- What visits ask, but for descriptions of the host. -/
def askedIn (visits : List Visit) : List Callback :=
  (visits.flatMap Visit.callbacks).filter fun callback => !callback.isDescription

theorem askedIn_append (visits later : List Visit) :
    askedIn (visits ++ later) = askedIn visits ++ askedIn later := by
  rw [askedIn, List.flatMap_append, List.filter_append]
  rfl

namespace Account

variable {α : Type}

/-- Hands a value on: it is the answer, and nothing but descriptions of the host is asked. -/
structure Passes (account : Account Value) (value : Value) (w : World) : Prop where
  outcome_eq : account.outcome = .answered value
  asked_eq : askedIn account.visits = []
  requests_eq : account.world.requests = w.requests

/-- What the wish for a plain value changes: it is asked for in the end if the node at a path
has looked something up and there is an answer, and nothing changes otherwise. -/
inductive Resolves (path : List Nat) (value reference : Account Value) : Prop where
  | resolved {visit : Visit} {request : Request} {answer : Value} {nested : List Request}
      (outcome : Outcome String Value) (hvisit : visit ∈ reference.visits)
      (hpath : visit.path = path) (hlookup : visit.act = .lookup request)
      (hanswer : reference.outcome = .answered answer)
      (houtcome : value.outcome = outcome.received)
      (hasked : askedIn value.visits =
        askedIn reference.visits ++ [.request (.resolve answer) outcome])
      (hrequests : value.world.requests = reference.world.requests ++ .resolve answer :: nested)
  | same
      (hother : ∀ answer, reference.outcome = .answered answer →
        ∃ visit ∈ reference.visits, visit.path = path ∧ visit.act.request? = none)
      (houtcome : value.outcome = reference.outcome)
      (hasked : askedIn value.visits = askedIn reference.visits)
      (hrequests : value.world.requests = reference.world.requests)

theorem andThen_eq {β : Type} {account : Account α} {next : α → World → Account β} {answer : α}
    (h : account.outcome = .answered answer) :
    account.andThen next = ⟨account.visits ++ (next answer account.world).visits,
      (next answer account.world).outcome, (next answer account.world).world⟩ := by
  simp only [andThen, h]

/-- What hands the answer on changes neither it nor what was asked. -/
theorem andThen_passes (account : Account Value) {next : Value → World → Account Value}
    (hnext : ∀ value w, (next value w).Passes value w) :
    (account.andThen next).outcome = account.outcome ∧
      askedIn (account.andThen next).visits = askedIn account.visits ∧
      (account.andThen next).world.requests = account.world.requests ∧
      account.visits ⊆ (account.andThen next).visits := by
  cases houtcome : account.outcome with
  | answered value =>
      have hpasses := hnext value account.world
      rw [andThen_eq houtcome]
      refine ⟨hpasses.outcome_eq, ?_, hpasses.requests_eq, List.subset_append_left _ _⟩
      rw [askedIn_append, hpasses.asked_eq, List.append_nil]
  | failed error => simp [andThen, houtcome]
  | panicked message => simp [andThen, houtcome]

namespace Resolves

variable {path : List Nat} {value reference : Account Value}

/-- Visits before both runs make no difference. -/
theorem behind (visits : List Visit) (h : Resolves path value reference) :
    Resolves path ⟨visits ++ value.visits, value.outcome, value.world⟩
      ⟨visits ++ reference.visits, reference.outcome, reference.world⟩ := by
  cases h with
  | resolved outcome hvisit hpath hlookup hanswer houtcome hasked hrequests =>
      refine .resolved outcome (List.mem_append_right _ hvisit) hpath hlookup hanswer houtcome ?_
        hrequests
      rw [askedIn_append, askedIn_append, hasked, List.append_assoc]
  | same hother houtcome hasked hrequests =>
      refine .same (fun answer hanswer => ?_) houtcome ?_ hrequests
      · obtain ⟨visit, hvisit, hnone⟩ := hother answer hanswer
        exact ⟨visit, List.mem_append_right _ hvisit, hnone⟩
      · rw [askedIn_append, askedIn_append, hasked]

/-- What both runs do first makes no difference. -/
theorem after (first : Account α) {next next' : α → World → Account Value}
    (h : ∀ answer w, Resolves path (next answer w) (next' answer w)) :
    Resolves path (first.andThen next) (first.andThen next') := by
  cases houtcome : first.outcome with
  | answered answer =>
      rw [andThen_eq houtcome, andThen_eq houtcome]
      exact (h answer first.world).behind first.visits
  | failed error =>
      simp only [andThen, houtcome]
      exact .same (fun _ hanswer => by cases hanswer) rfl rfl rfl
  | panicked message =>
      simp only [andThen, houtcome]
      exact .same (fun _ hanswer => by cases hanswer) rfl rfl rfl

/-- Handing on the answers of both runs makes no difference. -/
theorem passed (h : Resolves path value reference) {next next' : Value → World → Account Value}
    (hnext : ∀ value w, (next value w).Passes value w)
    (hnext' : ∀ value w, (next' value w).Passes value w) :
    Resolves path (value.andThen next) (reference.andThen next') := by
  obtain ⟨houtcome, hasked, hrequests, -⟩ := value.andThen_passes hnext
  obtain ⟨houtcome', hasked', hrequests', hvisits⟩ := reference.andThen_passes hnext'
  cases h with
  | resolved outcome hvisit hpath hlookup hanswer hresolved hlater hreceived =>
      exact .resolved outcome (hvisits hvisit) hpath hlookup (houtcome'.trans hanswer)
        (houtcome.trans hresolved) (by rw [hasked, hasked', hlater])
        (by rw [hrequests, hrequests', hreceived])
  | same hother hsame hlater hreceived =>
      refine .same (fun answer hanswer => ?_) (by rw [houtcome, houtcome', hsame])
        (by rw [hasked, hasked', hlater]) (by rw [hrequests, hrequests', hreceived])
      obtain ⟨visit, hvisit, hpath, hnone⟩ := hother answer (houtcome'.symm.trans hanswer)
      exact ⟨visit, hvisits hvisit, hpath, hnone⟩

end Resolves

end Account

/-- A machine that notes a question first, and then whatever is asked in order to answer it,
and whose host describes itself without asking anyone. -/
structure Machine.Attends (m : Machine) : Prop where
  ask : ∀ request w, ∃ nested, (m.ask request w).2.requests = w.requests ++ request :: nested
  describe : ∀ w, ∃ description after, m.describe w = (.answered description, after) ∧
    after.requests = w.requests

theorem Machine.ofHost_attends {host : Host}
    (h : ∀ calls, ∃ description, host.describe calls = .done description) (levels : Nat) :
    (Machine.ofHost host (levels + 1)).Attends where
  ask := requests_ask host levels
  describe := by
    intro w
    obtain ⟨description, hdescription⟩ := h w.calls
    refine ⟨description, w.noteCall .describe, ?_, w.requests_noteCall_describe⟩
    simp only [ofHost, hdescription]
    rfl

namespace Act

variable {m : Machine} {path : List Nat} {cell : Cell}

/-- The code outside the language that an act runs cannot tell whether a plain value is
wanted. -/
def IsSteady : Act → Prop
  | native function args => function.body args true = function.body args false
  | precompiled expression => expression.body true = expression.body false
  | _ => True

theorem IsSteady.program_eq {act : Act} (h : act.IsSteady) (hact : act.request? = none) :
    act.program true = act.program false := by
  cases act with
  | answer | operate | log | dump => rfl
  | native function args | precompiled expression =>
      simp only [IsSteady] at h
      simp only [program, h]
  | lookup request => cases hact

/-- A lookup is the same in either run; if it answers and a plain value is wanted, one more
question is asked. -/
theorem lookup_resolves (hm : m.Attends) (request : Request) (w : World) :
    Account.Resolves path ((lookup request).account m path cell true w)
      ((lookup request).account m path cell false w) := by
  simp only [account, program, Program.recorded, Program.request, Program.bind, Program.callbacks,
    Program.run]
  cases m.ask request w with
  | mk outcome after =>
      cases outcome with
      | failed message => exact .same (fun _ hanswer => by cases hanswer) rfl rfl rfl
      | panicked message => exact .same (fun _ hanswer => by cases hanswer) rfl rfl rfl
      | answered answer =>
          simp only [if_true, Bool.false_eq_true, if_false, Program.bind, Program.callbacks,
            Program.run]
          obtain ⟨nested, hnested⟩ := hm.ask (.resolve answer) after
          cases hresolve : m.ask (.resolve answer) after with
          | mk outcome last =>
              rw [hresolve] at hnested
              have hself {visit : Visit} : visit ∈ [visit] := List.mem_singleton_self visit
              cases outcome with
              | answered value =>
                  exact .resolved (.answered value) hself rfl rfl rfl rfl rfl hnested
              | failed message =>
                  exact .resolved (.failed message) hself rfl rfl rfl rfl rfl hnested
              | panicked message =>
                  exact .resolved (.panicked message) hself rfl rfl rfl rfl rfl hnested

theorem IsSteady.account_resolves {act : Act} (hact : act.IsSteady) (hm : m.Attends) (w : World) :
    Account.Resolves path (act.account m path cell true w) (act.account m path cell false w) := by
  cases act with
  | lookup request => exact lookup_resolves hm request w
  | answer | operate | log | dump | native | precompiled =>
      refine .same (fun _ _ => ⟨_, List.mem_singleton_self _, rfl, rfl⟩) ?_ ?_ ?_
      all_goals simp only [account, hact.program_eq rfl, askedIn, List.flatMap_cons]

/-- What an act hands on without looking at it. -/
theorem account_passes (hm : m.Attends) {asValue : Bool} {act : Act} {value : Value}
    (hact : act = .answer value ∨ (∃ text, act = .log text value) ∨ ∃ tree, act = .dump tree value)
    (w : World) : (act.account m path cell asValue w).Passes value w := by
  rcases hact with rfl | ⟨text, rfl⟩ | ⟨tree, rfl⟩
  · exact ⟨rfl, rfl, rfl⟩
  · exact ⟨rfl, rfl, rfl⟩
  · obtain ⟨description, after, hdescribe, hrequests⟩ := hm.describe w
    simp only [account, program, Program.recorded, Program.bind, Program.callbacks, Program.run,
      hdescribe]
    exact ⟨rfl, rfl, hrequests⟩

end Act

namespace Operator

variable {op : Operator} {native : Option (Native Formula)}

/-- Unless code outside the language can tell what is wanted, no act can. -/
theorem act_steady (hnative : ∀ function ∈ native, function.KeepsPlain) (layout : Layout)
    (operands : List Formula) (values : List Value) :
    (op.act native layout operands values).IsSteady := by
  have htarget (question : Handle → List Value → Request) :
      (Act.onTarget question values).IsSteady := by
    unfold Act.onTarget
    split <;> trivial
  unfold act
  cases op.form with
  | generic | or | and | parenthesis | log | dump => trivial
  | dot | methodCall | indexer => exact htarget _
  | functionCall =>
      cases native with
      | none => trivial
      | some function =>
          obtain ⟨f, hbody, -⟩ := hnative function rfl
          exact (hbody values true).trans (hbody values false).symm

theorem act_passes (h : op.form.passesOn = true) (layout : Layout) (inner : Formula)
    (value : Value) :
    let act := op.act native layout [inner] [value]
    act = .answer value ∨ (∃ text, act = .log text value) ∨ ∃ tree, act = .dump tree value := by
  unfold act
  cases hform : op.form with
  | parenthesis => exact Or.inl rfl
  | log => exact Or.inr (Or.inl ⟨_, rfl⟩)
  | dump => exact Or.inr (Or.inr ⟨_, rfl⟩)
  | generic | or | and | dot | functionCall | methodCall | indexer =>
      rw [hform] at h
      cases h

end Operator

/-- A node that passes on what is wanted of it has one operand. -/
theorem Form.Admits.operand_of_passesOn {form : Form} {operands : List Formula}
    (h : form.Admits operands) (hpasses : form.passesOn = true) : ∃ inner, operands = [inner] := by
  cases h with
  | grouping inner | dump inner | log inner => exact ⟨inner, rfl⟩
  | unary | binary | disjunction | conjunction | member | functionCall | methodCall | indexing =>
      cases hpasses

namespace Formula

variable {m : Machine}

/-- A node that passes on what is wanted of it passes on the answer of its operand, too. -/
theorem account_passing {op : Operator} (h : op.form.passesOn = true)
    (native : Option (Native Formula)) (inner : Formula) (layout : Layout) (path : List Nat)
    (asValue : Bool) (w : World) : (apply op native [inner]).account m layout path asValue w =
      (inner.account m (layout.below 0) (path ++ [0]) asValue w).andThen fun value w =>
        (op.act native layout [inner] [value]).account m path layout.root asValue w := by
  have hfault : op.fault? [inner] = none := by
    unfold Operator.fault?
    cases hform : op.form with
    | generic | parenthesis | log | dump => rfl
    | or | and | dot | functionCall | methodCall | indexer =>
        rw [hform] at h
        cases h
  obtain ⟨hname, hwants, hsettles⟩ := Form.wants_of_passesOn h asValue
  rw [account]
  simp only [hfault, accountOperands, if_neg hname, hwants, hsettles, Bool.false_eq_true, if_false]
  unfold Account.andThen
  cases (inner.account m (layout.below 0) (path ++ [0]) asValue w).outcome with
  | answered value => simp
  | failed error => rfl
  | panicked message => rfl

/-- The operands of a node that does not pass on what is wanted of it do the same in any run. -/
theorem accountOperands_eq {form : Form} (h : form.passesOn = false) (layout : Layout)
    (path : List Nat) (asValue : Bool) (i : Nat) (operands : List Formula) (w : World) :
    accountOperands m layout path form asValue i operands w =
      accountOperands m layout path form false i operands w := by
  induction operands generalizing i w with
  | nil => rw [accountOperands, accountOperands]
  | cons operand rest ih =>
      rw [accountOperands, accountOperands]
      simp only [ih, form.wants_eq h asValue i]

/-- The wish for a plain value is seen by the node below the groupings and logging operators. -/
theorem account_resolves (hm : m.Attends) (formula : Formula) (h : formula.Everywhere IsBuiltin)
    (layout : Layout) (path : List Nat) (w : World) :
    Account.Resolves (path ++ formula.corePath) (formula.account m layout path true w)
      (formula.account m layout path false w) := by
  induction formula using induct generalizing layout path w with
  | constant value =>
      rw [account, account, corePath_leaf rfl, List.append_nil]
      have hsteady : (Act.answer value).IsSteady := trivial
      exact hsteady.account_resolves hm w
  | identifier name =>
      rw [account, account, corePath_leaf rfl, List.append_nil]
      exact Act.lookup_resolves hm (.lookup name) w
  | precompiled expression =>
      rw [account, account, corePath_leaf rfl, List.append_nil]
      obtain ⟨value, -, hbody⟩ := h.root
      have hsteady : (Act.precompiled expression).IsSteady :=
        (hbody true).trans (hbody false).symm
      exact hsteady.account_resolves hm w
  | apply op native operands ih =>
      cases hfault : op.fault? operands with
      | some fault =>
          rw [account, account]
          simp only [hfault]
          exact .same (fun _ hanswer => by cases hanswer) rfl rfl rfl
      | none =>
          cases hpasses : op.form.passesOn with
          | true =>
              obtain ⟨inner, rfl⟩ :=
                (op.admits_of_fault?_eq_none hfault).operand_of_passesOn hpasses
              -- The relation holds of the operand already, and this node asks nothing.
              have hinner := List.mem_singleton_self inner
              have hresolves := ih inner hinner (h.operand hinner) (layout.below 0) (path ++ [0]) w
              rw [account_passing hpasses, account_passing hpasses, corePath_of_passesOn hpasses]
              rw [List.append_assoc] at hresolves
              have hpassed {asValue : Bool} (value : Value) (w : World) :
                  ((op.act native layout [inner] [value]).account m path layout.root asValue
                    w).Passes value w :=
                Act.account_passes hm (op.act_passes hpasses layout inner value) w
              exact hresolves.passed hpassed hpassed
          | false =>
              rw [account, account, corePath_eq_nil hpasses, List.append_nil]
              simp only [hfault]
              -- Up to the act of the node both runs are the same.
              rw [accountOperands_eq hpasses]
              exact .after _ fun values w =>
                (op.act_steady h.root.2 layout operands values).account_resolves hm w

end Formula

/-- Only an answer comes out of the boundary as a value. -/
theorem Outcome.answered_of_trapped {α : Type} {outcome : Outcome EvalError α} {answer : α}
    (h : outcome.trapped = .ok answer) : outcome = .answered answer := by
  cases outcome with
  | answered found =>
      cases h
      rfl
  | failed | panicked => cases h

/-- No node answers twice. -/
theorem Answered.unique {visits : List Visit} (hvisits : (visits.map Visit.path).Nodup)
    {path : List Nat} {value other : Value} (h : Answered visits path value)
    (h' : Answered visits path other) : value = other := by
  obtain ⟨visit, hvisit, hpath, hvalue⟩ := h
  obtain ⟨visit', hvisit', hpath', hother⟩ := h'
  obtain rfl := List.inj_on_of_nodup_map hvisits hvisit hvisit' (hpath.trans hpath'.symm)
  rw [hvalue] at hother
  cases hother
  rfl

/-- The first value is that of the first operand, unless that only carries a name. -/
theorem Gathers.head {visits : List Visit} {path : List Nat} {form : Form} {i : Nat}
    {operand : Formula} {rest : List Formula} {values : List Value}
    (h : Gathers visits path form i (operand :: rest) values)
    (hname : form.namePosition? ≠ some i) :
    ∃ value others, values = value :: others ∧ Answered visits (path ++ [i]) value := by
  cases h with
  | name operand hcarries => exact absurd hcarries hname
  | settled operand rest _ hvalue => exact ⟨_, [], rfl, hvalue⟩
  | value operand _ hvalue => exact ⟨_, _, rfl, hvalue⟩

/-- What is done with a target is a lookup exactly if the target has answered an object. -/
theorem Gathers.looksUp_iff {visits : List Visit} (hvisits : (visits.map Visit.path).Nodup)
    {path : List Nat} {form : Form} {target : Formula} {rest : List Formula} {values : List Value}
    (h : Gathers visits path form 0 (target :: rest) values) (hname : form.namePosition? ≠ some 0)
    (question : Handle → List Value → Request) :
    (∃ handle, Answered visits (path ++ [0]) (.object handle)) ↔
      ∃ request, Act.onTarget question values = .lookup request := by
  obtain ⟨value, others, rfl, hvalue⟩ := h.head hname
  constructor
  · rintro ⟨handle, hobject⟩
    obtain rfl := hvalue.unique hvisits hobject
    exact ⟨_, rfl⟩
  · rintro ⟨request, hrequest⟩
    obtain ⟨handle, args, hvalues, -⟩ := Act.onTarget_eq_lookup hrequest
    cases hvalues
    exact ⟨handle, hvalue⟩

/-- The nodes that have looked something up are those whose act is a lookup. -/
theorem Performs.looksUp_iff {layout : Layout} {visits : List Visit}
    (hvisits : (visits.map Visit.path).Nodup) {path : List Nat} {node : Formula} {act : Act}
    (h : Performs layout visits path node act) :
    node.LooksUp visits path ↔ ∃ request, act = .lookup request := by
  -- What looks nothing up does something else.
  have hnever {act : Act} (hact : act.request? = none) :
      False ↔ ∃ request, act = .lookup request := by
    refine ⟨False.elim, ?_⟩
    rintro ⟨request, rfl⟩
    cases hact
  cases h with
  | constant value => exact hnever rfl
  | precompiled expression => exact hnever rfl
  | identifier name => exact ⟨fun _ => ⟨_, rfl⟩, fun _ => trivial⟩
  | @apply op operands values native hfaultless hvalues =>
      have hadmits := op.admits_of_fault?_eq_none hfaultless
      simp only [Formula.LooksUp, Operator.act]
      generalize op.form = form at hadmits hvalues ⊢
      cases hadmits with
      | member | methodCall | indexing =>
          exact hvalues.looksUp_iff hvisits (by decide) _
      | functionCall name arguments =>
          cases native with
          | none => exact ⟨fun _ => ⟨_, rfl⟩, fun _ => rfl⟩
          | some native =>
              refine Iff.trans ⟨fun hnone => ?_, False.elim⟩ (hnever rfl)
              cases hnone
      | unary | binary | disjunction | conjunction | grouping | log | dump => exact hnever rfl

namespace Tree

variable {nodes : Set Tree} {tree : Tree} {w : World}

/-- Two runs of a formula that was read with the built-in tables, lowered or not, on a host
that does nothing but answer when it is to describe itself. In one a plain value is wanted,
in the other none. If the other is answered and the node below the groupings and logging
operators has looked something up, the run in which a plain value is wanted asks the same
with the same answers, then for the plain value of the other's answer, and ends as this
question does. In all other cases both ask the same and end the same. -/
theorem value_mode_resolves_last (hw : w.Reachable nodes) (htree : tree ∈ nodes) {text : String}
    (hread : Grammar.standard.read text = .ok tree.formula) {host : Host}
    (hdescribe : ∀ calls, ∃ description, host.describe calls = .done description) {levels : Nat}
    (hlevels : 0 < levels) :
    let machine := Machine.ofHost host levels
    let run asValue := tree.calcChecked machine asValue w
    let asked asValue := tree.asked machine asValue w
    let endsInLookup := tree.EndsInLookup (tree.visits machine false w)
    (∀ answer, (run false).1 = .ok answer → endsInLookup → ∃ outcome nested,
      asked true = asked false ++ [.request (.resolve answer) outcome] ∧
      (run true).2.requests = (run false).2.requests ++ .resolve answer :: nested ∧
      (run true).1 = outcome.received.trapped) ∧
    ((∀ answer, (run false).1 = .ok answer → ¬ endsInLookup) →
      asked true = asked false ∧ (run true).2.requests = (run false).2.requests ∧
      (run true).1 = (run false).1) := by
  intro machine run asked endsInLookup
  have hm : machine.Attends := by
    cases levels with
    | zero => exact absurd hlevels (lt_irrefl 0)
    | succ levels => exact Machine.ofHost_attends hdescribe levels
  let account asValue := tree.formula.account machine tree.layout [] asValue w.entered
  -- What is seen of the runs is what the accounts tell.
  have htold (asValue : Bool) : asked asValue = askedIn (account asValue).visits ∧
      (run asValue).2.requests = (account asValue).world.requests ∧
      (run asValue).1 = (account asValue).outcome.trapped := by
    have htells := Tree.account_tells htree hw.standing.sound machine asValue
    refine ⟨?_, ?_, ?_⟩
    · simp only [asked, Tree.asked, callbacks, htells.callbacks_eq, askedIn, account]
    · simp only [run, World.requests, calcChecked_calls, htells.run_eq, account]
    · simp only [run, calcChecked_result, htells.run_eq, account]
  obtain ⟨hasked, hrequests, hresult⟩ := htold true
  obtain ⟨hasked', hrequests', hresult'⟩ := htold false
  have hcore {visit : Visit} (hvisit : visit ∈ (account false).visits)
      (hpath : visit.path = [] ++ tree.formula.corePath) :
      endsInLookup ↔ ∃ request, visit.act = .lookup request := by
    obtain ⟨hsublist, haccounted⟩ := tree.visits_ordered machine false w
    obtain ⟨node, hnode, hperforms⟩ := (haccounted visit hvisit).performs
    rw [hpath, List.nil_append] at hnode hperforms
    have hiff := hperforms.looksUp_iff (hsublist.nodup (tree.formula.nodup_sites []))
    refine ⟨?_, fun hlookup => ⟨node, hnode, hiff.mpr hlookup⟩⟩
    rintro ⟨found, hfound, hlooksUp⟩
    cases hnode.symm.trans hfound
    exact hiff.mp hlooksUp
  have hbuiltin := Grammar.everywhere_builtin_of_read hread
  cases tree.formula.account_resolves hm hbuiltin tree.layout [] w.entered with
  | @resolved visit request found nested outcome hvisit hpath hlookup hanswer hends hlater
      hreceived =>
      have hfound : (run false).1 = .ok found := by
        rw [hresult']
        exact congrArg Outcome.trapped hanswer
      constructor
      · intro answer hok _
        cases hfound.symm.trans hok
        refine ⟨outcome, nested, ?_, ?_, ?_⟩
        · rw [hasked, hasked']
          exact hlater
        · rw [hrequests, hrequests']
          exact hreceived
        · rw [hresult]
          exact congrArg Outcome.trapped hends
      · intro hother
        exact absurd ((hcore hvisit hpath).mpr ⟨request, hlookup⟩) (hother found hfound)
  | same hother houtcome hlater hreceived =>
      constructor
      · intro answer hok hends
        rw [hresult'] at hok
        obtain ⟨visit, hvisit, hpath, hnone⟩ := hother answer (Outcome.answered_of_trapped hok)
        obtain ⟨request, hlookup⟩ := (hcore hvisit hpath).mp hends
        rw [hlookup] at hnone
        cases hnone
      · intro _
        refine ⟨?_, ?_, ?_⟩
        · rw [hasked, hasked']
          exact hlater
        · rw [hrequests, hrequests']
          exact hreceived
        · rw [hresult, hresult']
          exact congrArg Outcome.trapped houtcome

/-- A variable that stands for a number is resolved once logging and grouping are through. -/
theorem logged_variable_resolves_last :
    let probe := Value.object (.external "Probe" "p")
    let host := Host.stateless
      (fun request => match request with
        | .resolve _ => .done (.int 12)
        | _ => .done probe)
      (.done "probes")
    let machine := Machine.ofHost host nestingLevels
    let planted := World.plant {} (.node .log [.node .grouping [.identifier "a"]])
    Grammar.standard.read "@(a)" = .ok planted.1.formula ∧
      planted.2.Reachable (∅ ∪ planted.1.nodes) ∧ planted.1 ∈ ∅ ∪ planted.1.nodes ∧
      (∀ calls, ∃ description, host.describe calls = .done description) ∧ 0 < nestingLevels ∧
      ∃ outcome, planted.1.asked machine true planted.2 =
          planted.1.asked machine false planted.2 ++ [.request (.resolve probe) outcome] ∧
        (planted.1.calcChecked machine true planted.2).1 = outcome.received.trapped := by
  intro probe host machine planted
  obtain ⟨hw, hself⟩ := World.Reachable.first (.node .log [.node .grouping [.identifier "a"]])
  have hread : Grammar.standard.read "@(a)" = .ok planted.1.formula := rfl
  have hdescribe : ∀ calls, ∃ description, host.describe calls = .done description :=
    fun _ => ⟨"probes", rfl⟩
  have hlevels : 0 < nestingLevels := by decide
  obtain ⟨hresolves, -⟩ := value_mode_resolves_last hw hself hread hdescribe hlevels
  have hanswer : (planted.1.calcChecked machine false planted.2).1 = .ok probe := by
    rw [calcChecked_result, program_eq_evaluate hself hw.standing.sound]
    rfl
  obtain ⟨outcome, nested, hasked, -, hresult⟩ :=
    hresolves probe hanswer ⟨.identifier "a", rfl, trivial⟩
  exact ⟨hread, hw, hself, hdescribe, hlevels, outcome, hasked, hresult⟩

end Tree

end Formulary
