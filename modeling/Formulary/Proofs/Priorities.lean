import Formulary.Proofs.Forest
import Formulary.Proofs.Precedence

/-! # Priorities in the trees that are read

The operand on the right and the operand of a prefix operator are always as tight as priority and
associativity ask for. The operand on the left is, unless an operator that cannot be chained follows
one of the same priority: reading the operand of a looser operator stops there, and the operator is
then taken one level further out.
-/

namespace Formulary

namespace Operator

/-- Whether an infix operand of the given priority may stand on a side without parentheses. -/
def admits (op : Operator) (side : Associativity) : Option Int32 → Bool
  | none => true
  | some q => decide (q < op.priority ∨ q = op.priority ∧ op.associativity = side)

end Operator

namespace Formula

/-- Whether the operand on the left of an infix operator is tight enough if it is infix itself. -/
def groupsLeft (f : Formula) : Bool :=
  match f.edge with
  | .infixed op left _ => op.admits .left left.chained?
  | _ => true

/-- Whether the operand on the right of an infix operator and the operand of a prefix operator are
tight enough, and a prefix operator on the left of an infix one. -/
def groupsRight (f : Formula) : Bool :=
  match f.edge with
  | .prefixed _ operand => operand.chained?.all fun q => decide (q ≤ prefixPriority)
  | .infixed op left right =>
    op.admits .right right.chained? &&
      match left.edge with
      | .prefixed _ _ => decide (prefixPriority < op.priority)
      | _ => true
  | .closed => true

/-- The infix operators outside brackets, from left to right. -/
def level : Formula → List Operator
  | .apply op _ [operand] => if op.form.isStructural then [] else operand.level
  | .apply op _ [left, right] =>
    if op.form.isStructural then [] else left.level ++ op :: right.level
  | _ => []

section Levels

variable {op : Operator} {operand left right : Formula}

theorem level_of_isStructural {native : Option (Native Formula)} {operands : List Formula}
    (h : op.form.isStructural = true) : (apply op native operands).level = [] := by
  unfold level
  split
  · next heq =>
    cases heq
    rw [if_pos h]
  · next heq =>
    cases heq
    rw [if_pos h]
  · rfl

theorem level_prefix (h : op ∈ OperatorTable.prefixes) :
    (node op [operand]).level = operand.level := by
  simp only [node, level, OperatorTable.isStructural_of_mem_prefixes h, Bool.false_eq_true,
    if_false]

theorem level_infix (h : op ∈ OperatorTable.infixes) :
    (node op [left, right]).level = left.level ++ op :: right.level := by
  simp only [node, level, OperatorTable.isStructural_of_mem_infixes h, Bool.false_eq_true,
    if_false]

end Levels

end Formula

/-- An operator that cannot be chained follows one of the same priority with only tighter ones
between them. -/
def IsChain (ops : List Operator) : Prop :=
  ∃ before first between second after, ops = before ++ first :: (between ++ second :: after) ∧
    second.associativity = .nonAssociative ∧ first.priority = second.priority ∧
    ∀ op ∈ between, op.priority < second.priority

/-- A chain with a looser operator somewhere before it. -/
def IsLateChain (ops : List Operator) : Prop :=
  ∃ before first between second after, ops = before ++ first :: (between ++ second :: after) ∧
    second.associativity = .nonAssociative ∧ first.priority = second.priority ∧
    (∀ op ∈ between, op.priority < second.priority) ∧ ∃ op ∈ before, second.priority < op.priority

theorem IsLateChain.isChain {ops : List Operator} (h : IsLateChain ops) : IsChain ops := by
  obtain ⟨before, first, between, second, after, hops, hassoc, hpriority, hbetween, -⟩ := h
  exact ⟨before, first, between, second, after, hops, hassoc, hpriority, hbetween⟩

theorem IsChain.ne_nil {ops : List Operator} (h : IsChain ops) : ops ≠ [] := by
  obtain ⟨before, first, between, second, after, rfl, -⟩ := h
  exact List.append_ne_nil_of_right_ne_nil before (List.cons_ne_nil _ _)

/-- Where a chain can lie in the operators of an infix node. -/
theorem IsChain.cases {left right : List Operator} {op : Operator}
    (h : IsChain (left ++ op :: right)) :
    IsChain left ∨ IsChain right ∨
      (op.associativity = .nonAssociative ∧ ∃ first ∈ left, first.priority = op.priority) ∨
      ∃ second ∈ right, second.associativity = .nonAssociative ∧ op.priority ≤ second.priority := by
  obtain ⟨before, first, between, second, after, hops, hassoc, hpriority, hbetween⟩ := h
  rcases List.append_eq_append_iff.mp hops with ⟨gap, hbefore, hgap⟩ | ⟨gap, hleft, hgap⟩
  · -- The chain starts at the operator or after it.
    cases gap with
    | nil =>
        obtain ⟨rfl, rfl⟩ := List.cons.inj hgap
        exact Or.inr (Or.inr (Or.inr ⟨second, List.mem_append_right _ List.mem_cons_self, hassoc,
          Int32.le_of_eq hpriority⟩))
    | cons head gap =>
        obtain ⟨-, rfl⟩ := List.cons.inj hgap
        exact Or.inr (Or.inl ⟨gap, first, between, second, after, rfl, hassoc, hpriority,
          hbetween⟩)
  · cases gap with
    | nil =>
        obtain ⟨rfl, rfl⟩ := List.cons.inj hgap
        exact Or.inr (Or.inr (Or.inr ⟨second, List.mem_append_right _ List.mem_cons_self, hassoc,
          Int32.le_of_eq hpriority⟩))
    | cons head gap =>
        obtain ⟨rfl, htail⟩ := List.cons.inj hgap
        have hfirst : first ∈ left := by
          rw [hleft]
          exact List.mem_append_right _ List.mem_cons_self
        rcases List.append_eq_append_iff.mp htail with ⟨gap', hgap', hright⟩ |
          ⟨gap', hbetween', hright⟩
        · cases gap' with
          | nil =>
              obtain ⟨rfl, -⟩ := List.cons.inj hright
              exact Or.inr (Or.inr (Or.inl ⟨hassoc, first, hfirst, hpriority⟩))
          | cons head gap' =>
              obtain ⟨rfl, -⟩ := List.cons.inj hright
              subst hgap'
              exact Or.inl ⟨before, first, between, second, gap', hleft, hassoc, hpriority,
                hbetween⟩
        · cases gap' with
          | nil =>
              obtain ⟨rfl, -⟩ := List.cons.inj hright
              exact Or.inr (Or.inr (Or.inl ⟨hassoc, first, hfirst, hpriority⟩))
          | cons head gap' =>
              obtain ⟨rfl, rfl⟩ := List.cons.inj hright
              have hop : op ∈ between := by
                rw [hbetween']
                exact List.mem_append_right _ List.mem_cons_self
              exact Or.inr (Or.inr (Or.inr ⟨second, List.mem_append_right _ List.mem_cons_self,
                hassoc, Int32.le_of_lt (hbetween op hop)⟩))

namespace OperatorTable

variable {op other : Operator}

/-- What cannot be chained is looser than prefix operators. -/
theorem nonAssociative_looser (h : op ∈ infixes) (hassoc : op.associativity = .nonAssociative) :
    prefixPriority < op.priority :=
  forall_mem_infixes
    (P := fun op => op.associativity = .nonAssociative → prefixPriority < op.priority) rfl h hassoc

/-- Operators of one priority are chained in the same way. -/
theorem associativity_eq (h : op ∈ infixes) (hother : other ∈ infixes)
    (hpriority : op.priority = other.priority) : op.associativity = other.associativity := by
  have hall : infixes.all (fun op => infixes.all fun other =>
      decide (op.priority = other.priority → op.associativity = other.associativity)) = true := rfl
  exact of_decide_eq_true (List.all_eq_true.mp (List.all_eq_true.mp hall op h) other hother)
    hpriority

end OperatorTable

namespace Grammar

open OperatorTable

variable {g : Grammar}

theorem rightLimit_lt {op : Operator} (hop : op ∈ infixes) (hassoc : op.associativity ≠ .right) :
    op.rightLimit < op.priority :=
  (Operator.rightLimit_lt_iff hassoc (priority_ne_least hop)).mpr (Int32.le_refl _)

theorem rightLimit_lt_of_nonAssociative {op : Operator} (hop : op ∈ infixes)
    (h : op.associativity = .nonAssociative) : op.rightLimit < op.priority := by
  refine rightLimit_lt hop ?_
  rw [h]
  decide

theorem rightLimit_le {op : Operator} (hop : op ∈ infixes) : op.rightLimit ≤ op.priority := by
  by_cases hassoc : op.associativity = .right
  · rw [Operator.rightLimit, hassoc]
    exact Int32.le_refl _
  · exact Int32.le_of_lt (rightLimit_lt hop hassoc)

/-- An operator that is as tight as another one but too loose for its right side cannot be chained,
unless it groups to the left. -/
theorem nonAssociative_of_rightLimit_lt {op outer : Operator} (hop : op ∈ infixes)
    (houter : outer ∈ infixes) (hle : op.priority ≤ outer.priority)
    (hassoc : outer.priority = op.priority → op.associativity ≠ .left)
    (hlimit : outer.rightLimit < op.priority) :
    op.associativity = .nonAssociative ∧ outer.priority = op.priority := by
  have hright : outer.associativity ≠ .right := by
    intro hright
    rw [Operator.rightLimit, hright] at hlimit
    exact Int32.not_lt.mpr hle hlimit
  have heq : outer.priority = op.priority :=
    Int32.le_antisymm ((Operator.rightLimit_lt_iff hright (priority_ne_least houter)).mp hlimit) hle
  have hsame := associativity_eq hop houter heq.symm
  refine ⟨?_, heq⟩
  cases hop' : op.associativity with
  | left => exact absurd hop' (hassoc heq)
  | right => exact absurd (hsame ▸ hop') hright
  | nonAssociative => rfl

namespace Derives

theorem level_eq_nil {f : Formula} (h : Derives g .primary f) : f.level = [] := by
  cases h with
  | constant | identifier | precompiled => rfl
  | parenthesis | member | functionCall | methodCall | indexing =>
      exact Formula.level_of_isStructural rfl

/-- Outside brackets there are only infix operators, and those looser than prefix operators are up
to the limit. -/
theorem mem_level {rank : Rank} {f : Formula} (h : Derives g rank f) {limit : Int32}
    (hrank : rank = .upTo limit) :
    ∀ op ∈ f.level, op ∈ infixes ∧ (prefixPriority < op.priority → op.priority ≤ limit) := by
  induction h generalizing limit with
  | constant | identifier | precompiled | parenthesis | member | functionCall | methodCall
  | indexing => cases hrank
  | atom hf =>
      intro op hop
      rw [hf.level_eq_nil] at hop
      cases hop
  | prefixed hmem hoperand ih =>
      intro op hop
      rw [Formula.level_prefix hmem] at hop
      obtain ⟨hop, hpriority⟩ := ih rfl op hop
      exact ⟨hop, fun hlooser => absurd hlooser (Int32.not_lt.mpr (hpriority hlooser))⟩
  | @infixed operator left right _ hmem hlimit hleft hchained hreleases hright ihleft ihright =>
      cases hrank
      intro op hop
      rw [Formula.level_infix hmem, List.mem_append, List.mem_cons] at hop
      rcases hop with hop | rfl | hop
      · exact ihleft rfl op hop
      · exact ⟨hmem, fun _ => hlimit⟩
      · obtain ⟨hop, hpriority⟩ := ihright rfl op hop
        have hbound := Int32.le_trans (rightLimit_le hmem) hlimit
        exact ⟨hop, fun hlooser => Int32.le_trans (hpriority hlooser) hbound⟩

/-- Every operand is derived, unless it only names something. -/
theorem operand {limit : Int32} {f operand : Formula} {i : Nat} (h : Derives g (.upTo limit) f)
    (hoperand : f.operands[i]? = some operand) :
    (∃ name, operand = .identifier name) ∨ ∃ limit, Derives g (.upTo limit) operand := by
  have hmem : operand ∈ f.operands := List.mem_of_getElem? hoperand
  cases h with
  | atom hf =>
      cases hf with
      | constant | identifier | precompiled => cases hmem
      | parenthesis hinner =>
          obtain rfl := List.mem_singleton.mp hmem
          exact Or.inr ⟨_, hinner⟩
      | member htarget =>
          rcases List.mem_cons.mp hmem with rfl | hname
          · exact Or.inr ⟨topLimit, .atom htarget⟩
          · exact Or.inl ⟨_, List.mem_singleton.mp hname⟩
      | functionCall _ _ harguments =>
          rcases List.mem_cons.mp hmem with rfl | hargument
          · exact Or.inl ⟨_, rfl⟩
          · exact Or.inr ⟨_, harguments _ hargument⟩
      | methodCall htarget _ harguments =>
          rcases List.mem_cons.mp hmem with rfl | hmem
          · exact Or.inr ⟨topLimit, .atom htarget⟩
          rcases List.mem_cons.mp hmem with rfl | hargument
          · exact Or.inl ⟨_, rfl⟩
          · exact Or.inr ⟨_, harguments _ hargument⟩
      | indexing htarget _ hall =>
          rcases List.mem_cons.mp hmem with rfl | hindex
          · exact Or.inr ⟨topLimit, .atom htarget⟩
          · exact Or.inr ⟨_, hall _ hindex⟩
  | prefixed _ hinner =>
      obtain rfl := List.mem_singleton.mp hmem
      exact Or.inr ⟨_, hinner⟩
  | infixed _ _ hleft _ _ hright =>
      rcases List.mem_cons.mp hmem with rfl | hmem
      · exact Or.inr ⟨_, hleft⟩
      · obtain rfl := List.mem_singleton.mp hmem
        exact Or.inr ⟨_, hright⟩

/-- Every node is derived, unless it only names something. -/
theorem descendant {limit : Int32} {f node : Formula} {path : List Nat}
    (h : Derives g (.upTo limit) f) (hnode : f.descendant? path = some node) :
    (∃ name, node = .identifier name) ∨ ∃ limit, Derives g (.upTo limit) node := by
  induction path generalizing f limit with
  | nil =>
      rw [Formula.descendant?_nil] at hnode
      cases hnode
      exact Or.inr ⟨limit, h⟩
  | cons i path ih =>
      rw [Formula.descendant?] at hnode
      split at hnode
      · next operand hoperand =>
        rcases h.operand hoperand with ⟨name, rfl⟩ | ⟨limit, hderives⟩
        · cases path with
          | nil =>
              rw [Formula.descendant?_nil] at hnode
              cases hnode
              exact Or.inl ⟨name, rfl⟩
          | cons j path => cases hnode
        · exact ih hderives hnode
      · cases hnode

theorem groupsRight {limit : Int32} {f : Formula} (h : Derives g (.upTo limit) f) :
    f.groupsRight = true := by
  cases h with
  | atom hf => rw [Formula.groupsRight, hf.edge_eq_closed]
  | @prefixed op operand _ hop hoperand =>
      rw [Formula.groupsRight, Formula.edge_prefix hop]
      simp only [Option.all_eq_true, decide_eq_true_eq]
      intro q hq
      obtain ⟨_, _, _, -, -, -, hle, -⟩ := hoperand.chained?_eq_some hq
      exact hle
  | @infixed op left right _ hop hlimit hleft hchained hreleases hright =>
      rw [Formula.groupsRight, Formula.edge_infix hop, Bool.and_eq_true]
      constructor
      · cases hq : right.chained? with
        | none => rfl
        | some q =>
            obtain ⟨_, _, _, -, -, -, hle, -⟩ := hright.chained?_eq_some hq
            refine decide_eq_true ?_
            by_cases hassoc : op.associativity = .right
            · rw [Operator.rightLimit, hassoc] at hle
              rcases Int32.lt_or_eq_of_le hle with hlt | heq
              · exact Or.inl hlt
              · exact Or.inr ⟨heq, hassoc⟩
            · exact Or.inl (Int32.lt_of_le_of_lt hle (rightLimit_lt hop hassoc))
      · -- A prefix operator on the left ends in an operand that refused the infix one.
        split
        · next o operand hedge =>
          refine decide_eq_true ?_
          cases hreleases with
          | closed hlast =>
              rw [Formula.lastOperand?, hedge] at hlast
              cases hlast
          | last hlast hrefuses =>
              rw [Formula.lastOperand?, hedge] at hlast
              cases hlast
              rcases hrefuses with hlt | ⟨hassoc, -⟩
              · exact hlt
              · exact nonAssociative_looser hop hassoc
        · rfl

/-- An operand on the left that is not tight enough ends in an operand whose operator is the first
of a chain; the operator at its root is looser. -/
theorem isLateChain_level {limit : Int32} {f : Formula} (h : Derives g (.upTo limit) f)
    (hgroups : f.groupsLeft = false) : IsLateChain f.level := by
  cases h with
  | atom hf =>
      rw [Formula.groupsLeft, hf.edge_eq_closed] at hgroups
      cases hgroups
  | prefixed hop =>
      rw [Formula.groupsLeft, Formula.edge_prefix hop] at hgroups
      cases hgroups
  | @infixed op left right _ hop hlimit hleft hchained hreleases hright =>
      rw [Formula.groupsLeft, Formula.edge_infix hop] at hgroups
      cases hq : left.chained? with
      | none =>
          simp only [hq, Operator.admits] at hgroups
          cases hgroups
      | some q =>
          simp only [hq, Operator.admits, decide_eq_false_iff_not, not_or, Int32.not_lt,
            not_and] at hgroups
          obtain ⟨hle, hassoc⟩ := hgroups
          obtain ⟨outer, first, last, rfl, houter, rfl, -, -, hlast, -, -⟩ :=
            hleft.chained?_eq_some hq
          rw [hq] at hchained
          cases hreleases with
          | closed hclosed =>
              rw [Formula.lastOperand?_infix houter] at hclosed
              cases hclosed
          | last hoperand hrefuses =>
              rw [Formula.lastOperand?_infix houter] at hoperand
              cases hoperand
              rcases hrefuses with hlimit' | ⟨hnon, hinner⟩
              · obtain ⟨hnon, heq⟩ :=
                  nonAssociative_of_rightLimit_lt hop houter hle hassoc hlimit'
                exact absurd ⟨hnon, congrArg some heq⟩ hchained
              · -- Refused because it cannot be chained: the operator at the root is then looser.
                obtain ⟨inner, a, b, rfl, hmem, hpriority, -, -, hb, -, -⟩ :=
                  hlast.chained?_eq_some hinner
                have hlooser : op.priority < outer.priority :=
                  Int32.lt_of_le_of_ne hle fun heq => hchained ⟨hnon, by rw [heq]⟩
                refine ⟨first.level ++ outer :: a.level, inner, b.level, op, right.level, ?_, hnon,
                  hpriority, ?_, outer, List.mem_append_right _ List.mem_cons_self, hlooser⟩
                · rw [Formula.level_infix hop, Formula.level_infix houter, Formula.level_infix hmem]
                  simp only [List.append_assoc, List.cons_append]
                · intro o ho
                  have hbound := (hb.mem_level rfl o ho).2
                  have hinnernon := (associativity_eq hmem hop hpriority).trans hnon
                  have hlt := rightLimit_lt_of_nonAssociative hmem hinnernon
                  rw [hpriority] at hlt
                  by_cases hlooser : prefixPriority < o.priority
                  · exact Int32.lt_of_le_of_lt (hbound hlooser) hlt
                  · exact Int32.lt_of_le_of_lt (Int32.not_lt.mp hlooser)
                      (nonAssociative_looser hop hnon)

/-- Where every operand on the left is tight enough, no operator outside brackets is looser than the
one at the root, unless prefix operators are. -/
theorem level_le {rank : Rank} {f : Formula} (h : Derives g rank f) {limit : Int32}
    (hrank : rank = .upTo limit)
    (hgroups : ∀ path node, f.descendant? path = some node → node.groupsLeft = true) :
    ∀ op ∈ f.level, prefixPriority < op.priority →
      ∃ q, f.chained? = some q ∧ op.priority ≤ q := by
  induction h generalizing limit with
  | constant | identifier | precompiled | parenthesis | member | functionCall | methodCall
  | indexing => cases hrank
  | atom hf =>
      intro op hop
      rw [hf.level_eq_nil] at hop
      cases hop
  | @prefixed op operand _ hop hoperand =>
      intro o ho hlooser
      rw [Formula.level_prefix hop] at ho
      exact absurd hlooser (Int32.not_lt.mpr ((hoperand.mem_level rfl o ho).2 hlooser))
  | @infixed op left right _ hop hlimit hleft hchained hreleases hright ihleft =>
      have hroot := hgroups [] _ (Formula.descendant?_nil _)
      rw [Formula.groupsLeft, Formula.edge_infix hop] at hroot
      have hoperand := ihleft rfl fun path node hnode => hgroups (0 :: path) node hnode
      intro o ho hlooser
      rw [Formula.level_infix hop, List.mem_append, List.mem_cons] at ho
      refine ⟨op.priority, Formula.chained?_infix hop, ?_⟩
      rcases ho with ho | rfl | ho
      · obtain ⟨q, hq, hbound⟩ := hoperand o ho hlooser
        simp only [hq, Operator.admits, decide_eq_true_eq] at hroot
        rcases hroot with hlt | ⟨heq, -⟩
        · exact Int32.le_of_lt (Int32.lt_of_le_of_lt hbound hlt)
        · exact heq ▸ hbound
      · exact Int32.le_refl _
      · exact Int32.le_trans ((hright.mem_level rfl o ho).2 hlooser) (rightLimit_le hop)

/-- Where every operand on the left is tight enough there is no chain. -/
theorem not_isChain_level {rank : Rank} {f : Formula} (h : Derives g rank f) {limit : Int32}
    (hrank : rank = .upTo limit)
    (hgroups : ∀ path node, f.descendant? path = some node → node.groupsLeft = true) :
    ¬IsChain f.level := by
  induction h generalizing limit with
  | constant | identifier | precompiled | parenthesis | member | functionCall | methodCall
  | indexing => cases hrank
  | atom hf =>
      exact fun hchain => hchain.ne_nil hf.level_eq_nil
  | @prefixed op operand _ hop hoperand ih =>
      rw [Formula.level_prefix hop]
      exact ih rfl fun path node hnode => hgroups (0 :: path) node hnode
  | @infixed op left right _ hop hlimit hleft hchained hreleases hright ihleft ihright =>
      have hleftgroups := fun path node hnode => hgroups (0 :: path) node hnode
      have hroot := hgroups [] _ (Formula.descendant?_nil _)
      rw [Formula.groupsLeft, Formula.edge_infix hop] at hroot
      rw [Formula.level_infix hop]
      intro hchain
      rcases hchain.cases with hchain | hchain | ⟨hnon, first, hfirst, hpriority⟩ |
        ⟨second, hsecond, hnon, hpriority⟩
      · exact ihleft rfl hleftgroups hchain
      · exact ihright rfl (fun path node hnode => hgroups (1 :: path) node hnode) hchain
      · -- The operator itself cannot be chained, so the one on its left is strictly tighter.
        have hlooser := nonAssociative_looser hop hnon
        rw [← hpriority] at hlooser
        obtain ⟨q, hq, hbound⟩ := hleft.level_le rfl hleftgroups first hfirst hlooser
        simp only [hq, Operator.admits, decide_eq_true_eq, hnon, reduceCtorEq, and_false,
          or_false] at hroot
        rw [hpriority] at hbound
        exact Int32.not_lt.mpr hbound hroot
      · -- The operand on the right is too tight to hold the second operator.
        obtain ⟨hmem, hbound⟩ := hright.mem_level rfl second hsecond
        have hle := hbound (nonAssociative_looser hmem hnon)
        have heq := Int32.le_antisymm hpriority (Int32.le_trans hle (rightLimit_le hop))
        have hopnon := (associativity_eq hop hmem heq).trans hnon
        exact Int32.not_lt.mpr (Int32.le_trans hpriority hle)
          (rightLimit_lt_of_nonAssociative hop hopnon)

end Derives

/-- A chain anywhere shows an operand on the left that is not tight enough. -/
theorem exists_not_groupsLeft {limit : Int32} {f node : Formula} {path : List Nat}
    (h : Derives g (.upTo limit) f) (hnode : f.descendant? path = some node)
    (hchain : IsChain node.level) :
    ∃ path node, f.descendant? path = some node ∧ node.groupsLeft = false := by
  refine Classical.byContradiction fun hnone => ?_
  rcases h.descendant hnode with ⟨name, rfl⟩ | ⟨limit, hderives⟩
  · exact hchain.ne_nil rfl
  · refine hderives.not_isChain_level rfl (fun inner last hlast => ?_) hchain
    refine Bool.of_not_eq_false fun hgroups => hnone ⟨path ++ inner, last, ?_, hgroups⟩
    rw [Formula.descendant?_append hnode, hlast]

theorem isLateChain_of_descendant {limit : Int32} {f node : Formula} {path : List Nat}
    (h : Derives g (.upTo limit) f) (hnode : f.descendant? path = some node)
    (hgroups : node.groupsLeft = false) : IsLateChain node.level := by
  rcases h.descendant hnode with ⟨name, rfl⟩ | ⟨limit, hderives⟩
  · cases hgroups
  · exact hderives.isLateChain_level hgroups

/-- In every tree that is read the operand on the right of an infix operator and the operand of a
prefix operator are tight enough. Every operand on the left is so as well exactly if no operator
that cannot be chained follows one of the same priority outside brackets with only tighter ones
between them; and such chains are rejected unless one of them has a looser operator before it. -/
theorem groups_of_read (hstandard : g.operators = .standard) {text : String} {f : Formula}
    (h : g.read text = .ok f) :
    (∀ path node, f.descendant? path = some node → node.groupsRight = true) ∧
    ((∀ path node, f.descendant? path = some node → node.groupsLeft = true) ↔
      ∀ path node, f.descendant? path = some node → ¬IsChain node.level) ∧
    ((∃ path node, f.descendant? path = some node ∧ IsChain node.level) →
      ∃ path node, f.descendant? path = some node ∧ IsLateChain node.level) := by
  have hderives := derives_of_read hstandard h
  refine ⟨fun path node hnode => ?_, ⟨fun hgroups path node hnode hchain => ?_,
    fun hnone path node hnode => ?_⟩, ?_⟩
  · rcases hderives.descendant hnode with ⟨name, rfl⟩ | ⟨limit, hnode⟩
    · rfl
    · exact hnode.groupsRight
  · obtain ⟨inner, last, hlast, hfalse⟩ := exists_not_groupsLeft hderives hnode hchain
    rw [hgroups inner last hlast] at hfalse
    cases hfalse
  · refine Bool.of_not_eq_false fun hfalse => hnone path node hnode ?_
    exact (isLateChain_of_descendant hderives hnode hfalse).isChain
  · rintro ⟨path, node, hnode, hchain⟩
    obtain ⟨inner, last, hlast, hfalse⟩ := exists_not_groupsLeft hderives hnode hchain
    exact ⟨inner, last, hlast, isLateChain_of_descendant hderives hlast hfalse⟩

/-- The second `<` is refused where it stands and taken one level further out. -/
theorem late_chain_read : ∃ f, standard.read "a || b < c < d" = .ok f ∧ f.groupsLeft = false ∧
    IsChain f.level := by
  have hcheck : (match standard.read "a || b < c < d" with
      | .ok f => !f.groupsLeft
      | .error _ => false) = true := by decide +kernel
  cases hread : standard.read "a || b < c < d" with
  | error failure =>
      rw [hread] at hcheck
      cases hcheck
  | ok f =>
      rw [hread] at hcheck
      have hgroups : f.groupsLeft = false := by simpa using hcheck
      exact ⟨f, rfl, hgroups, ((derives_of_read rfl hread).isLateChain_level hgroups).isChain⟩

theorem groups_of_sum : ∃ f, standard.operators = .standard ∧
    standard.read "a + b * -c < d && e" = .ok f ∧
    (∀ path node, f.descendant? path = some node → node.groupsRight = true) ∧
    ((∀ path node, f.descendant? path = some node → node.groupsLeft = true) ↔
      ∀ path node, f.descendant? path = some node → ¬IsChain node.level) := by
  have hcheck : (match standard.read "a + b * -c < d && e" with
      | .ok _ => true
      | .error _ => false) = true := by decide +kernel
  cases hread : standard.read "a + b * -c < d && e" with
  | error failure =>
      rw [hread] at hcheck
      cases hcheck
  | ok f =>
      obtain ⟨hright, hleft, -⟩ := groups_of_read rfl hread
      exact ⟨f, rfl, rfl, hright, hleft⟩

end Grammar

end Formulary
