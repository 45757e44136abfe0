import Formulary.Proofs.Forest
import Formulary.Proofs.Precedence
import Formulary.Proofs.Registration

/-! # Calls of native functions

Which tables a formula is read with is not known here: any operators may have been added to
a table, under any symbols. A formula that is read is still put together from operands by
the rules below. Where no infix operator has the form of function calls, all its function
calls are written with parentheses, and each is bound to the native function of its name if
the table has one.
-/

namespace Formulary

namespace OperatorTable

/-- What any table that operators were added to knows of its operators. -/
structure Proper (table : OperatorTable) : Prop where
  structural_form : ∀ {form : Form} {op : Operator}, table.structural form = some op →
    op.form = form
  prefix_form : ∀ op ∈ table.prefixCandidates, op.form.isStructural = false

/-- Adding operators to no operators. -/
theorem proper_registerAll (ops : List Operator) : (empty.registerAll ops).Proper where
  structural_form hfound := ((records_registerAll ops).structural_eq_some hfound).1
  prefix_form op hop := by
    have hstands := (((records_registerAll ops).prefixes.mem_iff op).mp hop).2
    simp only [Operator.standsPrefix, Bool.and_eq_true, Bool.not_eq_true'] at hstands
    exact hstands.2

end OperatorTable

namespace Grammar

/-- The formulas that readers put together with any tables. -/
inductive Composes (g : Grammar) : Formula → Prop where
  | constant (value : Value) : Composes g (.constant value)
  | identifier (name : String) : Composes g (.identifier name)
  | precompiled {name : String} {expression : Precompiled Formula}
      (hfound : g.functions.precompiled? name = some expression) :
      Composes g (.precompiled expression)
  | parenthesis {op : Operator} {inner : Formula}
      (hop : g.operators.structural .parenthesis = some op) (hinner : Composes g inner) :
      Composes g (.node op [inner])
  | prefixed {op : Operator} {operand : Formula} (hop : op ∈ g.operators.prefixCandidates)
      (hoperand : Composes g operand) : Composes g (.node op [operand])
  | infixed {op : Operator} {left right : Formula} (hop : op ∈ g.operators.infixCandidates)
      (hleft : Composes g left) (hright : Composes g right) : Composes g (.node op [left, right])
  | functionCall {op : Operator} {arguments : List Formula} (name : String)
      (hop : g.operators.structural .functionCall = some op)
      (harguments : ∀ argument ∈ arguments, Composes g argument) :
      Composes g (.apply op (g.functions.function? name) (.identifier name :: arguments))
  /-- The operands of a member access and the arguments. -/
  | methodCall {op accessor : Operator} {native : Option (Native Formula)}
      {operands arguments : List Formula} (hop : g.operators.structural .methodCall = some op)
      (hdot : accessor.form = .dot) (haccess : Composes g (.apply accessor native operands))
      (harguments : ∀ argument ∈ arguments, Composes g argument) :
      Composes g (.node op (operands ++ arguments))
  | indexing {op : Operator} {target : Formula} {indices : List Formula}
      (hop : g.operators.structural .indexer = some op) (htarget : Composes g target)
      (hindices : ∀ index ∈ indices, Composes g index) :
      Composes g (.node op (target :: indices))

variable {g : Grammar}

theorem composes_wordFormula (name : String) : g.Composes (wordFormula name) := by
  unfold wordFormula
  split
  · exact .constant _
  · exact .identifier name

section Productions

variable {e : Int32 → Silent Formula}
  (h : ∀ {limit : Int32} {cs rest : List Char} {f : Formula},
    e limit cs = .accepted (f, rest) → g.Composes f)
include h

theorem operandBody_composes {cs rest : List Char} {f : Formula}
    (hf : Silent.operandBody g e cs = .accepted (f, rest)) : g.Composes f := by
  rw [Silent.operandBody] at hf
  split at hf
  · next hhead =>
    rw [Silent.precompiled, if_pos hhead] at hf
    obtain ⟨⟨name, after⟩, -, hf⟩ := Reply.bind_eq_accepted.mp hf
    simp only at hf
    split at hf
    · next hfound =>
      cases hf
      exact .precompiled hfound
    · cases hf
  · next hhead =>
    rw [Silent.parenthesis] at hf
    split at hf
    · cases hf
    next hop =>
    rw [if_pos hhead] at hf
    obtain ⟨⟨inner, after⟩, hinner, hf⟩ := Reply.bind_eq_accepted.mp hf
    simp only at hf
    split at hf
    · cases hf
      exact .parenthesis hop (h hinner)
    · cases hf
  · obtain ⟨⟨text, after⟩, -, hf⟩ := Reply.bind_eq_accepted.mp hf
    cases hf
    exact .constant _
  · obtain ⟨⟨text, after⟩, -, hf⟩ := Reply.bind_eq_accepted.mp hf
    cases hf
    exact .constant _
  · rcases Reply.resume_eq_accepted.mp hf with ⟨⟨value, after⟩, -, hf⟩ | ⟨-, hf⟩
    · cases hf
      exact .constant value
    · obtain ⟨⟨name, after⟩, -, hf⟩ := Reply.bind_eq_accepted.mp hf
      cases hf
      exact composes_wordFormula name

theorem argumentsFrom_composes (close : Char) (fuel : Nat) {cs rest : List Char}
    {arguments : List Formula}
    (hread : Silent.argumentsFrom e close fuel cs = .accepted (arguments, rest)) :
    ∀ argument ∈ arguments, g.Composes argument := by
  induction fuel generalizing cs arguments with
  | zero => cases hread
  | succ fuel ih =>
      rw [Silent.argumentsFrom] at hread
      obtain ⟨⟨argument, after⟩, hargument, hread⟩ := Reply.bind_eq_accepted.mp hread
      simp only at hread
      split at hread
      · obtain ⟨⟨others, last⟩, hothers, hread⟩ := Reply.bind_eq_accepted.mp hread
        cases hread
        exact List.forall_mem_cons.mpr ⟨h hargument, ih hothers⟩
      split at hread
      · cases hread
        exact List.forall_mem_singleton.mpr (h hargument)
      · cases hread

theorem arguments_composes {close : Char} {allowEmpty : Bool} {cs rest : List Char}
    {arguments : List Formula}
    (hread : Silent.arguments e close allowEmpty cs = .accepted (arguments, rest)) :
    ∀ argument ∈ arguments, g.Composes argument := by
  rw [Silent.arguments] at hread
  split at hread
  · cases hread
    exact fun _ hmem => absurd hmem List.not_mem_nil
  · exact argumentsFrom_composes h close _ hread

theorem call_composes {callee f : Formula} (hcallee : g.Composes callee) {cs rest : List Char}
    (hread : Silent.call g e callee cs = .accepted (f, rest)) : g.Composes f := by
  rw [Silent.call] at hread
  split at hread
  · cases hread
  next form operands native hshape =>
  split at hread
  · cases hread
  next op hop =>
  obtain ⟨⟨arguments, after⟩, harguments, hread⟩ := Reply.bind_eq_accepted.mp hread
  cases hread
  have hall := arguments_composes h harguments
  cases callee with
  | identifier name =>
      cases hshape
      exact .functionCall name hop hall
  | apply accessor bound operands =>
      simp only [callShape] at hshape
      split at hshape
      next hdot =>
        cases hshape
        exact .methodCall hop hdot hcallee hall
      next => cases hshape
  | constant value => cases hshape
  | precompiled expression => cases hshape

theorem indexing_composes {target f : Formula} (htarget : g.Composes target)
    {cs rest : List Char} (hread : Silent.indexing g e target cs = .accepted (f, rest)) :
    g.Composes f := by
  rw [Silent.indexing] at hread
  split at hread
  · cases hread
  next op hop =>
  obtain ⟨⟨indices, after⟩, hindices, hread⟩ := Reply.bind_eq_accepted.mp hread
  cases hread
  exact .indexing hop htarget (arguments_composes h hindices)

theorem prefixed_composes {f : Formula} {cs rest : List Char}
    (hread : Silent.prefixed g e cs = .accepted (f, rest)) : g.Composes f := by
  rw [Silent.prefixed] at hread
  rcases Reply.resume_eq_accepted.mp hread with ⟨⟨operand, after⟩, hoperand, hread⟩ | ⟨-, hread⟩
  · cases hread
    exact operandBody_composes h hoperand
  · split at hread
    · cases hread
    next op hop =>
    obtain ⟨⟨operand, after⟩, hoperand, hread⟩ := Reply.bind_eq_accepted.mp hread
    cases hread
    exact .prefixed (List.mem_of_find?_eq_some hop) (h hoperand)

/-- What follows an operand goes on from a formula that was put together. -/
theorem chain_composes {limit : Int32} (fuel : Nat) {left f : Formula} {chained : Option Int32}
    {cs rest : List Char} (hleft : g.Composes left)
    (hread : Silent.chain g e limit fuel left chained cs = .accepted (f, rest)) :
    g.Composes f := by
  induction fuel generalizing left chained cs with
  | zero => cases hread
  | succ fuel ih =>
      rw [Silent.chain] at hread
      rcases Reply.resume_eq_accepted.mp hread with ⟨⟨⟨grown, c⟩, after⟩, hgrown, hread⟩ |
        ⟨-, hread⟩
      · refine ih ?_ hread
        cases Silent.follow_eq_accepted_iff.mp hgrown with
        | call _ hcall => exact call_composes h hleft hcall
        | indexing _ hindexing => exact indexing_composes h hleft hindexing
        | member _ _ hoperator _ _ =>
            exact .infixed (List.mem_of_find?_eq_some hoperator) hleft (.identifier _)
        | infixed _ _ hoperator _ _ _ hright =>
            exact .infixed (List.mem_of_find?_eq_some hoperator) hleft (h hright)
      · cases hread
        exact hleft

end Productions

theorem expression_composes (depth : Nat) {limit : Int32} {cs rest : List Char} {f : Formula}
    (hread : Silent.expression g depth limit cs = .accepted (f, rest)) : g.Composes f := by
  induction depth generalizing limit cs rest f with
  | zero => cases hread
  | succ depth ih =>
      rw [Silent.expression, Silent.expressionBody] at hread
      obtain ⟨⟨left, after⟩, hleft, hread⟩ := Reply.bind_eq_accepted.mp hread
      exact chain_composes ih _ (prefixed_composes ih hleft) hread

theorem composes_of_read {text : String} {f : Formula} (h : g.read text = .ok f) :
    g.Composes f := by
  obtain ⟨-, rest, -, hread⟩ := g.read_eq_ok_iff.mp h
  exact expression_composes _ hread

end Grammar

namespace Formula

/-- A function call starts with a name and has the native function that the table has for it. -/
def IsBound (functions : FunctionTable) : Formula → Prop
  | apply op native operands => op.form = .functionCall →
    ∃ name arguments, operands = .identifier name :: arguments ∧ native = functions.function? name
  | _ => True

end Formula

namespace Grammar

open Formula (IsBound Everywhere)

variable {g : Grammar}

/-- Function calls are bound if they can be written in one way only. -/
theorem Composes.everywhere_bound (hproper : g.operators.Proper)
    (hoperators : ∀ op ∈ g.operators.infixCandidates, op.form ≠ .functionCall) {f : Formula}
    (h : g.Composes f) : f.Everywhere (IsBound g.functions) := by
  have hnode {op : Operator} {operands : List Formula} (hform : op.form ≠ .functionCall)
      (hoperands : ∀ operand ∈ operands, operand.Everywhere (IsBound g.functions)) :
      (Formula.node op operands).Everywhere (IsBound g.functions) :=
    .apply (fun hcall => absurd hcall hform) hoperands
  induction h with
  | constant value => exact .leaf trivial rfl
  | identifier name => exact .leaf trivial rfl
  | precompiled hfound => exact .leaf trivial rfl
  | parenthesis hop _ ih =>
      refine hnode ?_ (List.forall_mem_singleton.mpr ih)
      rw [hproper.structural_form hop]
      decide
  | prefixed hop _ ih =>
      refine hnode (fun hcall => ?_) (List.forall_mem_singleton.mpr ih)
      have hform := hproper.prefix_form _ hop
      rw [hcall] at hform
      cases hform
  | infixed hop _ _ ihleft ihright =>
      exact hnode (hoperators _ hop)
        (List.forall_mem_cons.mpr ⟨ihleft, List.forall_mem_singleton.mpr ihright⟩)
  | functionCall name hop _ ih =>
      refine .apply (fun _ => ⟨name, _, rfl, rfl⟩) (List.forall_mem_cons.mpr ⟨?_, ih⟩)
      exact .leaf trivial rfl
  | methodCall hop _ _ _ ih iharguments =>
      refine hnode ?_ (List.forall_mem_append.mpr ⟨fun operand hoperand => ?_, iharguments⟩)
      · rw [hproper.structural_form hop]
        decide
      · exact ih.operand hoperand
  | indexing hop _ _ ih ihindices =>
      refine hnode ?_ (List.forall_mem_cons.mpr ⟨ih, ihindices⟩)
      rw [hproper.structural_form hop]
      decide

end Grammar

end Formulary
