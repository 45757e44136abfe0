import Formulary.Proofs.Forest
import Formulary.Proofs.Precedence

/-! # The shape of formulas that are read

Every form asks for operands of its own. A tree put together by hand may have any
operands; in a tree that is read every node has those of its form, and the calls of
functions that the table has are the only nodes with a native function.
-/

namespace Formulary

/-- The operands that a form asks for. -/
inductive Form.Admits : Form → List Formula → Prop where
  | unary (operand) : Admits .generic [operand]
  | binary (left right) : Admits .generic [left, right]
  | disjunction (left right) : Admits .or [left, right]
  | conjunction (left right) : Admits .and [left, right]
  | member (target name) : Admits .dot [target, .identifier name]
  | grouping (inner) : Admits .parenthesis [inner]
  | functionCall (name arguments) : Admits .functionCall (.identifier name :: arguments)
  | methodCall (target name arguments) :
      Admits .methodCall (target :: .identifier name :: arguments)
  | indexing (target first rest) : Admits .indexer (target :: first :: rest)
  | dump (operand) : Admits .dump [operand]
  | log (operand) : Admits .log [operand]

/-- The native function of a node: that of the name which a function call starts with. -/
def FunctionTable.binding? (functions : FunctionTable) (form : Form) (operands : List Formula) :
    Option (Native Formula) :=
  match form, operands with
  | .functionCall, .identifier name :: _ => functions.function? name
  | _, _ => none

namespace Formula

variable {functions : FunctionTable}

/-- A node has the operands of its form, and the native function that the table has for it. -/
def IsShaped (functions : FunctionTable) : Formula → Prop
  | apply op native operands =>
    op.form.Admits operands ∧ native = functions.binding? op.form operands
  | _ => True

/-- Every node is shaped. -/
def WellShaped (functions : FunctionTable) (formula : Formula) : Prop :=
  ∀ path node, formula.descendant? path = some node → node.IsShaped functions

namespace WellShaped

theorem root {formula : Formula} (h : formula.WellShaped functions) :
    formula.IsShaped functions :=
  Everywhere.root h

theorem operand {op : Operator} {native : Option (Native Formula)} {operands : List Formula}
    (h : (apply op native operands).WellShaped functions) {operand : Formula}
    (hoperand : operand ∈ operands) : operand.WellShaped functions :=
  Everywhere.operand h hoperand

theorem leaf {formula : Formula} (hroot : formula.IsShaped functions)
    (hleaf : formula.operands = []) : formula.WellShaped functions :=
  Everywhere.leaf hroot hleaf

theorem apply {op : Operator} {native : Option (Native Formula)} {operands : List Formula}
    (hadmits : op.form.Admits operands) (hnative : native = functions.binding? op.form operands)
    (hoperands : ∀ operand ∈ operands, operand.WellShaped functions) :
    (Formula.apply op native operands).WellShaped functions :=
  Everywhere.apply ⟨hadmits, hnative⟩ hoperands

end WellShaped

end Formula

namespace OperatorTable

variable {op : Operator}

theorem admits_of_mem_infixes (h : op ∈ infixes) (left right : Formula) :
    op.form.Admits [left, right] := by
  have hform : op.form = .generic ∨ op.form = .or ∨ op.form = .and :=
    forall_mem_infixes (P := fun op => op.form = .generic ∨ op.form = .or ∨ op.form = .and) rfl h
  rcases hform with hform | hform | hform <;> rw [hform]
  · exact .binary left right
  · exact .disjunction left right
  · exact .conjunction left right

theorem admits_of_mem_prefixes (h : op ∈ prefixes) (operand : Formula) :
    op.form.Admits [operand] := by
  have hform : op.form = .generic ∨ op.form = .dump ∨ op.form = .log :=
    forall_mem_prefixes (P := fun op => op.form = .generic ∨ op.form = .dump ∨ op.form = .log) rfl h
  rcases hform with hform | hform | hform <;> rw [hform]
  · exact .unary operand
  · exact .dump operand
  · exact .log operand

/-- Only function calls are bound. -/
theorem binding?_of_not_isStructural (functions : FunctionTable) (operands : List Formula)
    (h : op.form.isStructural = false) : functions.binding? op.form operands = none := by
  unfold FunctionTable.binding?
  split
  next hform =>
    rw [hform] at h
    cases h
  next => rfl

end OperatorTable

namespace Grammar

open OperatorTable

variable {g : Grammar}

/-- Whatever is derived has the operands of its form at every node. -/
theorem Derives.wellShaped {rank : Rank} {f : Formula} (h : Derives g rank f) :
    f.WellShaped g.functions := by
  induction h with
  | constant => exact .leaf trivial rfl
  | identifier => exact .leaf trivial rfl
  | precompiled => exact .leaf trivial rfl
  | parenthesis _ ih => exact .apply (.grouping _) rfl (List.forall_mem_singleton.mpr ih)
  | member _ _ ih =>
      refine .apply (.member _ _) rfl (List.forall_mem_cons.mpr ⟨ih, ?_⟩)
      exact List.forall_mem_singleton.mpr (.leaf trivial rfl)
  | functionCall _ _ _ ih =>
      exact .apply (.functionCall _ _) rfl (List.forall_mem_cons.mpr ⟨.leaf trivial rfl, ih⟩)
  | methodCall _ _ _ ih iharguments =>
      refine .apply (.methodCall _ _ _) rfl (List.forall_mem_cons.mpr ⟨ih, ?_⟩)
      exact List.forall_mem_cons.mpr ⟨.leaf trivial rfl, iharguments⟩
  | @indexing target indices _ hindices _ ih ihindices =>
      obtain ⟨first, rest, rfl⟩ := List.exists_cons_of_ne_nil hindices
      exact .apply (.indexing _ _ _) rfl (List.forall_mem_cons.mpr ⟨ih, ihindices⟩)
  | atom _ ih => exact ih
  | prefixed hop _ ih =>
      refine .apply (admits_of_mem_prefixes hop _) ?_ (List.forall_mem_singleton.mpr ih)
      exact (binding?_of_not_isStructural _ _ (isStructural_of_mem_prefixes hop)).symm
  | infixed hop _ _ _ _ _ ihleft ihright =>
      refine .apply (admits_of_mem_infixes hop _ _) ?_ ?_
      · exact (binding?_of_not_isStructural _ _ (isStructural_of_mem_infixes hop)).symm
      · exact List.forall_mem_cons.mpr ⟨ihleft, List.forall_mem_singleton.mpr ihright⟩

/-- Every formula that a text holds is well shaped. -/
theorem wellShaped_of_read (hstandard : g.operators = .standard) {text : String} {f : Formula}
    (h : g.read text = .ok f) : f.WellShaped g.functions :=
  (derives_of_read hstandard h).wellShaped

theorem exists_read {text : String} (h : (g.read text).isOk = true) :
    ∃ f, g.read text = .ok f := by
  cases hread : g.read text with
  | ok f => exact ⟨f, rfl⟩
  | error failure =>
      rw [hread] at h
      cases h

end Grammar

end Formulary
