import Formulary.Tree
import Mathlib.Data.Set.Insert

/-! # Trees that share memory

A forest is a set of nodes, each with its formula and its memory. It contains the
operands of its nodes, and two of its nodes with one cell are the same object. Trees
put together by hand may share nodes; a planted tree shares none.
-/

namespace Formulary

namespace Formula

/-- A property of formulas that every node inherits from its operands. -/
theorem induct {P : Formula → Prop} (constant : ∀ value, P (.constant value))
    (identifier : ∀ name, P (.identifier name))
    (precompiled : ∀ expression, P (.precompiled expression))
    (apply : ∀ operator native operands, (∀ operand ∈ operands, P operand) →
      P (.apply operator native operands)) : ∀ formula, P formula
  | .constant value => constant value
  | .identifier name => identifier name
  | .precompiled expression => precompiled expression
  | .apply operator native operands =>
      apply operator native operands fun operand _ =>
        induct constant identifier precompiled apply operand

@[simp] theorem descendant?_nil (formula : Formula) : formula.descendant? [] = some formula := by
  cases formula <;> rfl

theorem descendant?_cons {formula operand : Formula} {i : Nat} (path : List Nat)
    (hoperand : formula.operands[i]? = some operand) :
    formula.descendant? (i :: path) = operand.descendant? path := by
  rw [descendant?, hoperand]

theorem descendant?_append {formula node : Formula} {path : List Nat}
    (hnode : formula.descendant? path = some node) (rest : List Nat) :
    formula.descendant? (path ++ rest) = node.descendant? rest := by
  induction path generalizing formula with
  | nil =>
      rw [descendant?_nil, Option.some.injEq] at hnode
      rw [hnode, List.nil_append]
  | cons i path ih =>
      cases hoperand : formula.operands[i]? with
      | none => simp [descendant?, hoperand] at hnode
      | some operand =>
          rw [descendant?_cons path hoperand] at hnode
          rw [List.cons_append, descendant?_cons _ hoperand]
          exact ih hnode

theorem depth_le_depthOfAll {operand : Formula} {operands : List Formula}
    (hoperand : operand ∈ operands) : operand.depth ≤ depthOfAll operands := by
  induction operands with
  | nil => cases hoperand
  | cons first rest ih =>
      rw [depthOfAll]
      rcases List.mem_cons.mp hoperand with rfl | hrest
      · exact le_max_left _ _
      · exact (ih hrest).trans (le_max_right _ _)

theorem depth_lt_of_operand {formula operand : Formula} {i : Nat}
    (hoperand : formula.operands[i]? = some operand) : operand.depth < formula.depth := by
  cases formula with
  | apply operator native operands =>
      have hle : operand.depth ≤ depthOfAll operands :=
        depth_le_depthOfAll (List.mem_of_getElem? hoperand)
      rw [depth]
      omega
  | constant value => cases hoperand
  | identifier name => cases hoperand
  | precompiled expression => cases hoperand

theorem depth_le_of_descendant {formula node : Formula} {path : List Nat}
    (hnode : formula.descendant? path = some node) : node.depth ≤ formula.depth := by
  induction path generalizing formula with
  | nil =>
      rw [descendant?_nil, Option.some.injEq] at hnode
      rw [hnode]
  | cons i path ih =>
      cases hoperand : formula.operands[i]? with
      | none => simp [descendant?, hoperand] at hnode
      | some operand =>
          rw [descendant?_cons path hoperand] at hnode
          exact (ih hnode).trans (depth_lt_of_operand hoperand).le

/-- A property of every node. -/
def Everywhere (P : Formula → Prop) (formula : Formula) : Prop :=
  ∀ path node, formula.descendant? path = some node → P node

namespace Everywhere

variable {P : Formula → Prop}

theorem root {formula : Formula} (h : formula.Everywhere P) : P formula :=
  h [] formula (descendant?_nil formula)

theorem operand {op : Operator} {native : Option (Native Formula)} {operands : List Formula}
    (h : (apply op native operands).Everywhere P) {operand : Formula}
    (hoperand : operand ∈ operands) : operand.Everywhere P := by
  obtain ⟨i, hi⟩ := List.mem_iff_getElem?.mp hoperand
  have hbelow : (apply op native operands).operands[i]? = some operand := hi
  intro path node hnode
  refine h (i :: path) node ?_
  rwa [descendant?_cons path hbelow]

theorem leaf {formula : Formula} (hroot : P formula) (hleaf : formula.operands = []) :
    formula.Everywhere P := by
  intro path node hnode
  cases path with
  | nil =>
      rw [descendant?_nil, Option.some.injEq] at hnode
      rwa [← hnode]
  | cons i path => simp [descendant?, hleaf] at hnode

theorem apply {op : Operator} {native : Option (Native Formula)} {operands : List Formula}
    (hroot : P (.apply op native operands))
    (hoperands : ∀ operand ∈ operands, operand.Everywhere P) :
    (Formula.apply op native operands).Everywhere P := by
  intro path node hnode
  cases path with
  | nil =>
      rw [descendant?_nil, Option.some.injEq] at hnode
      rwa [← hnode]
  | cons i path =>
      cases hi : operands[i]? with
      | none => simp [descendant?, Formula.operands, hi] at hnode
      | some operand =>
          have hbelow : (Formula.apply op native operands).operands[i]? = some operand := hi
          rw [descendant?_cons path hbelow] at hnode
          exact hoperands operand (List.mem_of_getElem? hi) path node hnode

end Everywhere

end Formula

namespace Tree

/-- The nodes of a tree, each a tree of its own. -/
def nodes (tree : Tree) : Set Tree := {node | ∃ path, tree.descendant? path = some node}

theorem mem_nodes_iff {tree node : Tree} : node ∈ tree.nodes ↔
    ∃ path, tree.formula.descendant? path = some node.formula ∧
      node.layout = fun inner => tree.layout (path ++ inner) := by
  constructor
  · rintro ⟨path, hnode⟩
    obtain ⟨formula, hformula, rfl⟩ := Option.map_eq_some_iff.mp hnode
    exact ⟨path, hformula, rfl⟩
  · rintro ⟨path, hformula, hlayout⟩
    refine ⟨path, ?_⟩
    rw [descendant?, hformula, Option.map_some, ← hlayout]

theorem self_mem_nodes (tree : Tree) : tree ∈ tree.nodes :=
  mem_nodes_iff.mpr ⟨[], Formula.descendant?_nil _, rfl⟩

/-- The cells of a tree. -/
def cells (tree : Tree) : Set Cell :=
  {cell | ∃ path, (tree.formula.descendant? path).isSome ∧ tree.layout path = cell}

/-- The cells of a tree but that of its root. -/
def cellsBelow (tree : Tree) : Set Cell :=
  {cell | ∃ i path, (tree.formula.descendant? (i :: path)).isSome ∧
    tree.layout (i :: path) = cell}

theorem insert_cellsBelow (tree : Tree) : insert tree.cell tree.cellsBelow = tree.cells := by
  ext cell
  constructor
  · rintro (rfl | ⟨i, path, hpath, hcell⟩)
    · exact ⟨[], by simp, rfl⟩
    · exact ⟨i :: path, hpath, hcell⟩
  · rintro ⟨path, hpath, hcell⟩
    cases path with
    | nil => exact Or.inl hcell.symm
    | cons i path => exact Or.inr ⟨i, path, hpath, hcell⟩

theorem cells_subset_cellsBelow {tree : Tree} {i : Nat} {operand : Formula}
    (hoperand : tree.formula.operands[i]? = some operand) :
    cells ⟨operand, tree.layout.below i⟩ ⊆ tree.cellsBelow := by
  rintro cell ⟨path, hpath, hcell⟩
  exact ⟨i, path, by rwa [Formula.descendant?_cons path hoperand], hcell⟩

end Tree

/-- Nodes closed under taking operands, of which no two have the same cell. -/
structure IsForest (nodes : Set Tree) : Prop where
  operand_mem : ∀ {tree : Tree}, tree ∈ nodes → ∀ {i operand},
    tree.formula.operands[i]? = some operand → (⟨operand, tree.layout.below i⟩ : Tree) ∈ nodes
  eq_of_cell_eq : ∀ {first second : Tree}, first ∈ nodes → second ∈ nodes →
    first.cell = second.cell → first = second

namespace IsForest

variable {nodes : Set Tree}

theorem descendant_mem (hforest : IsForest nodes) {tree node : Tree} (htree : tree ∈ nodes)
    (hnode : node ∈ tree.nodes) : node ∈ nodes := by
  obtain ⟨path, hformula, hlayout⟩ := Tree.mem_nodes_iff.mp hnode
  induction path generalizing tree with
  | nil =>
      rw [Formula.descendant?_nil, Option.some.injEq] at hformula
      obtain ⟨formula, layout⟩ := node
      subst hformula hlayout
      exact htree
  | cons i path ih =>
      cases hoperand : tree.formula.operands[i]? with
      | none => simp [Formula.descendant?, hoperand] at hformula
      | some operand =>
          rw [Formula.descendant?_cons path hoperand] at hformula
          exact ih (hforest.operand_mem htree hoperand)
            (Tree.mem_nodes_iff.mpr ⟨path, hformula, hlayout⟩) hformula hlayout

/-- No node lies below itself. -/
theorem cell_notMem_cellsBelow (hforest : IsForest nodes) {tree : Tree} (htree : tree ∈ nodes) :
    tree.cell ∉ tree.cellsBelow := by
  rintro ⟨i, path, hpath, hcell⟩
  obtain ⟨formula, hformula⟩ := Option.isSome_iff_exists.mp hpath
  have hbelow : ⟨formula, fun inner => tree.layout (i :: path ++ inner)⟩ ∈ tree.nodes :=
    Tree.mem_nodes_iff.mpr ⟨i :: path, hformula, rfl⟩
  have hmem := hforest.descendant_mem htree hbelow
  -- A node below with this cell would be the node itself, which is deeper.
  have heq := hforest.eq_of_cell_eq hmem htree (by simpa [Tree.cell, Layout.root] using hcell)
  cases hoperand : tree.formula.operands[i]? with
  | none => simp [Formula.descendant?, hoperand] at hformula
  | some operand =>
      rw [Formula.descendant?_cons path hoperand] at hformula
      have hle := Formula.depth_le_of_descendant hformula
      have hlt := Formula.depth_lt_of_operand hoperand
      have hdepth : formula.depth = tree.formula.depth := by rw [← heq]
      omega

/-- The nodes of a planted tree. -/
theorem ofTree (formula : Formula) (serial : Nat) :
    IsForest (Tree.nodes ⟨formula, Layout.ofTree serial⟩) where
  operand_mem := by
    intro tree htree i operand hoperand
    obtain ⟨path, hformula, hlayout⟩ := Tree.mem_nodes_iff.mp htree
    refine Tree.mem_nodes_iff.mpr ⟨path ++ [i], ?_, ?_⟩
    · rw [Formula.descendant?_append hformula, Formula.descendant?_cons [] hoperand,
        Formula.descendant?_nil]
    · funext inner
      simp [Layout.below, hlayout]
  eq_of_cell_eq := by
    intro first second hfirst hsecond hcell
    obtain ⟨p, hp, hfirstLayout⟩ := Tree.mem_nodes_iff.mp hfirst
    obtain ⟨q, hq, hsecondLayout⟩ := Tree.mem_nodes_iff.mp hsecond
    have hpath : p = q := by
      simpa [Tree.cell, Layout.root, Layout.ofTree, hfirstLayout, hsecondLayout] using hcell
    subst hpath
    obtain ⟨formula, layout⟩ := first
    obtain ⟨formula', layout'⟩ := second
    simp_all

/-- Two forests without a common cell. -/
theorem union {others : Set Tree} (hforest : IsForest nodes) (hothers : IsForest others)
    (hdisjoint : ∀ first ∈ nodes, ∀ second ∈ others, first.cell ≠ second.cell) :
    IsForest (nodes ∪ others) where
  operand_mem := by
    rintro tree (htree | htree) i operand hoperand
    · exact Or.inl (hforest.operand_mem htree hoperand)
    · exact Or.inr (hothers.operand_mem htree hoperand)
  eq_of_cell_eq := by
    rintro first second (hfirst | hfirst) (hsecond | hsecond) hcell
    · exact hforest.eq_of_cell_eq hfirst hsecond hcell
    · exact absurd hcell (hdisjoint first hfirst second hsecond)
    · exact absurd hcell.symm (hdisjoint second hsecond first hfirst)
    · exact hothers.eq_of_cell_eq hfirst hsecond hcell

/-- A new node above nodes of a forest. -/
theorem insert {tree : Tree} (hforest : IsForest nodes)
    (hoperands : ∀ {i operand}, tree.formula.operands[i]? = some operand →
      (⟨operand, tree.layout.below i⟩ : Tree) ∈ nodes)
    (hfresh : ∀ node ∈ nodes, node.cell ≠ tree.cell) : IsForest (Insert.insert tree nodes) where
  operand_mem := by
    rintro node (rfl | hnode) i operand hoperand
    · exact Or.inr (hoperands hoperand)
    · exact Or.inr (hforest.operand_mem hnode hoperand)
  eq_of_cell_eq := by
    rintro first second (rfl | hfirst) (rfl | hsecond) hcell
    · rfl
    · exact absurd hcell.symm (hfresh second hsecond)
    · exact absurd hcell (hfresh first hfirst)
    · exact hforest.eq_of_cell_eq hfirst hsecond hcell

end IsForest

end Formulary
