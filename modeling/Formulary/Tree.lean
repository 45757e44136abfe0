import Formulary.Formula

/-! # Trees with memory

Every node of a tree has a cell, where its last result and the code it was lowered to are kept.
Which cell belongs to which node is a layout; nodes that are one and the same object have one cell.
-/

namespace Formulary

/-- The name of a piece of memory. -/
structure Cell where
  tree : Nat
  path : List Nat
deriving DecidableEq, Hashable, Repr

/-- The cell of every node, given by the operand positions that lead to it from the root. -/
abbrev Layout := List Nat → Cell

namespace Layout

/-- The layout of an operand. -/
def below (layout : Layout) (i : Nat) : Layout := fun path => layout (i :: path)

/-- The cell of the root. -/
def root (layout : Layout) : Cell := layout []

/-- A cell for every node. -/
def ofTree (tree : Nat) : Layout := fun path => ⟨tree, path⟩

end Layout

/-- A formula whose nodes have memory. -/
structure Tree where
  formula : Formula
  layout : Layout

instance : Inhabited Tree := ⟨⟨default, Layout.ofTree 0⟩⟩

namespace Tree

/-- The cell of the root. -/
def cell (tree : Tree) : Cell := tree.layout.root

/-- The node at a path, as a tree of its own with the same memory. -/
def descendant? (tree : Tree) (path : List Nat) : Option Tree :=
  (tree.formula.descendant? path).map fun formula =>
    ⟨formula, fun inner => tree.layout (path ++ inner)⟩

end Tree

end Formulary
