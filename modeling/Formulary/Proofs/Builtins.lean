import Formulary.Program
import Formulary.Proofs.Shape

/-! # What the built-in tables hold

Objects come from hosts only. No built-in operator or function makes one, and none of them
asks for anything or can tell whether a plain value is wanted. The same then holds at every
node of a formula that is read with the built-in tables.
-/

namespace Formulary

/-- Whether a value is no object. -/
def Value.IsPlain : Value → Prop
  | .object _ => False
  | _ => True

/-- Makes no objects out of plain values. -/
def Operator.KeepsPlain (op : Operator) : Prop :=
  ∀ operands : List Value, (∀ operand ∈ operands, operand.IsPlain) → (op.result operands).IsPlain

/-- Answers a function of the arguments, which makes no objects out of plain values. -/
def Native.KeepsPlain (native : Native Formula) : Prop :=
  ∃ f : List Value → Value, (∀ args asValue, native.body args asValue = .done (f args)) ∧
    ∀ args : List Value, (∀ arg ∈ args, arg.IsPlain) → (f args).IsPlain

/-- Answers a plain value. -/
def Precompiled.IsFixed (expression : Precompiled Formula) : Prop :=
  ∃ value : Value, value.IsPlain ∧ ∀ asValue, expression.body asValue = .done value

namespace Value

variable {v w : Value}

theorem isPlain_arithmetic {ints : Int64 → Int64 → Value} {floats : Float → Float → Value}
    (hints : ∀ i j, (ints i j).IsPlain) (hfloats : ∀ x y, (floats x y).IsPlain) :
    (arithmetic ints floats v w).IsPlain := by
  unfold arithmetic
  split
  · exact hints _ _
  · exact hfloats _ _
  · trivial

theorem isPlain_add : (add v w).IsPlain := by
  unfold add
  split
  · trivial
  · trivial
  · exact isPlain_arithmetic (fun _ _ => trivial) fun _ _ => trivial

theorem isPlain_checkedRemainder (i j : Int64) : (checkedRemainder i j).IsPlain := by
  unfold checkedRemainder
  split <;> trivial

theorem isPlain_ordered (accepts : Ordering → Bool) : (ordered accepts v w).IsPlain := by
  unfold ordered
  split <;> trivial

theorem isPlain_negate : (negate v).IsPlain := by
  unfold negate
  split <;> trivial

/-- The best of some values is one of them. -/
theorem isPlain_extremeFrom {keep : Value → Value → Bool} {best found : Value} {rest : List Value}
    (hbest : best.IsPlain) (hrest : ∀ candidate ∈ rest, candidate.IsPlain)
    (h : extremeFrom keep best rest = some found) : found.IsPlain := by
  induction rest generalizing best with
  | nil =>
      cases h
      exact hbest
  | cons candidate rest ih =>
      obtain ⟨hcandidate, hrest⟩ := List.forall_mem_cons.mp hrest
      rw [extremeFrom] at h
      split at h
      · refine ih ?_ hrest h
        split
        · exact hbest
        · exact hcandidate
      · cases h

theorem isPlain_extreme (keep : Value → Value → Bool) {args : List Value}
    (hargs : ∀ arg ∈ args, arg.IsPlain) : (extreme keep args).IsPlain := by
  unfold extreme
  split
  · trivial
  next first rest =>
    obtain ⟨hfirst, hrest⟩ := List.forall_mem_cons.mp hargs
    split
    · split
      · trivial
      next best hbest =>
        split
        · exact isPlain_extremeFrom hfirst hrest hbest
        · split <;> trivial
    · trivial

theorem isPlain_absolute (args : List Value) : (absolute args).IsPlain := by
  unfold absolute
  split <;> trivial

theorem isPlain_rounded (round : Float → Float) (args : List Value) :
    (rounded round args).IsPlain := by
  unfold rounded
  split
  · trivial
  · simp only
    split <;> trivial
  · trivial

theorem isPlain_squareRoot (args : List Value) : (squareRoot args).IsPlain := by
  unfold squareRoot
  split
  · split <;> trivial
  · trivial

theorem exists_clampPromoted_isPlain {φ : Type} (v low high : Value) :
    ∃ answer : Value, clampPromoted v low high = (.done answer : Routine φ EvalError Value) ∧
      answer.IsPlain := by
  unfold clampPromoted
  split
  · split
    next h =>
      rw [clampFloats_of_le _ h]
      exact ⟨_, rfl, trivial⟩
    next => exact ⟨_, rfl, trivial⟩
  · exact ⟨_, rfl, trivial⟩

/-- Clamping answers no object. It never breaks off: the bounds have been compared before. -/
theorem exists_clamp_isPlain {φ : Type} (args : List Value) :
    ∃ answer : Value, clamp args = (.done answer : Routine φ EvalError Value) ∧
      answer.IsPlain := by
  unfold clamp
  split
  · split
    next h =>
      rw [clampInts_of_le _ h]
      exact ⟨_, rfl, trivial⟩
    next => exact ⟨_, rfl, trivial⟩
  · exact exists_clampPromoted_isPlain _ _ _
  · exact ⟨_, rfl, trivial⟩

theorem isPlain_choose {args : List Value} (hargs : ∀ arg ∈ args, arg.IsPlain) :
    (choose args).IsPlain := by
  unfold choose
  split
  · split
    · exact hargs _ (by simp)
    · exact hargs _ (by simp)
  · trivial

end Value

namespace Operator

open Value

variable {op : Operator}

/-- It is enough to look at what the two functions of the operator make. -/
theorem KeepsPlain.of (hunary : ∀ v, (op.evaluateUnary v).IsPlain)
    (hbinary : ∀ v w, v.IsPlain → w.IsPlain → (op.evaluateBinary v w).IsPlain) :
    op.KeepsPlain := by
  intro operands hoperands
  unfold result
  split
  · exact hunary _
  · exact hbinary _ _ (hoperands _ (by simp)) (hoperands _ (by simp))
  · trivial

/-- What cannot stand before an operand answers `unknown` there. -/
theorem KeepsPlain.ofBinary (hunary : ∀ v, op.evaluateUnary v = .unknown)
    (hbinary : ∀ v w, v.IsPlain → w.IsPlain → (op.evaluateBinary v w).IsPlain) :
    op.KeepsPlain := by
  refine .of (fun v => ?_) hbinary
  rw [hunary]
  trivial

theorem ordering_keepsPlain (symbol name : String) (accepts : Ordering → Bool) :
    (ordering symbol name accepts).KeepsPlain :=
  .ofBinary (fun _ => rfl) fun _ _ _ _ => isPlain_ordered accepts

theorem conjunction_keepsPlain : conjunction.KeepsPlain := by
  refine .ofBinary (fun _ => rfl) fun v w hv hw => ?_
  simp only [conjunction]
  split
  · exact hw
  · exact hv

theorem disjunction_keepsPlain : disjunction.KeepsPlain := by
  refine .ofBinary (fun _ => rfl) fun v w hv hw => ?_
  simp only [disjunction]
  split
  · exact hv
  · exact hw

theorem keepsPlain_of_mem_infixes (h : op ∈ OperatorTable.infixes) : op.KeepsPlain := by
  have hnumbers {ints : Int64 → Int64 → Value} {floats : Float → Float → Value}
      (hints : ∀ i j, (ints i j).IsPlain) (hfloats : ∀ x y, (floats x y).IsPlain) (v w : Value)
      (_ : v.IsPlain) (_ : w.IsPlain) : (arithmetic ints floats v w).IsPlain :=
    isPlain_arithmetic hints hfloats
  have hall : ∀ op ∈ OperatorTable.infixes, op.KeepsPlain := by
    simp only [OperatorTable.infixes, List.forall_mem_cons]
    refine ⟨ordering_keepsPlain _ _ _, ordering_keepsPlain _ _ _, ?equality, ?inequality,
      conjunction_keepsPlain, disjunction_keepsPlain, ?power, ?multiplication, ?division, ?modulo,
      ?addition, ?subtraction, ordering_keepsPlain _ _ _, ordering_keepsPlain _ _ _, by simp⟩
    case equality | inequality => exact .ofBinary (fun _ => rfl) fun _ _ _ _ => trivial
    case power | multiplication | division =>
      exact .ofBinary (fun _ => rfl) (hnumbers (fun _ _ => trivial) fun _ _ => trivial)
    case modulo =>
      exact .ofBinary (fun _ => rfl) (hnumbers isPlain_checkedRemainder fun _ _ => trivial)
    case addition => exact .ofBinary (fun _ => rfl) fun _ _ _ _ => isPlain_add
    case subtraction =>
      exact .of (fun _ => isPlain_negate) (hnumbers (fun _ _ => trivial) fun _ _ => trivial)
  exact hall op h

theorem keepsPlain_of_mem_prefixes (h : op ∈ OperatorTable.prefixes) : op.KeepsPlain := by
  have hall : ∀ op ∈ OperatorTable.prefixes, op.KeepsPlain := by
    simp only [OperatorTable.prefixes, List.forall_mem_cons]
    refine ⟨?dump, ?negation, ?log, ?subtraction, by simp⟩
    case dump | log => exact .ofBinary (fun _ => rfl) fun _ _ _ _ => trivial
    case negation => exact .of (fun _ => trivial) fun _ _ _ _ => trivial
    case subtraction =>
      exact keepsPlain_of_mem_infixes (by simp [OperatorTable.infixes])
  exact hall op h

/-- An operator with syntax of its own has no functions. -/
theorem structural_keepsPlain (symbol name : String) (form : Form) :
    (structural symbol name form).KeepsPlain :=
  .ofBinary (fun _ => rfl) fun _ _ _ _ => trivial

end Operator

namespace FunctionTable

open Value

variable {name : String}

theorem standard_functions : standard.functions = builtinFunctions := rfl

theorem standard_precompiled : standard.precompiled = builtinPrecompiled := rfl

theorem keepsPlain_of_function? {native : Native Formula}
    (h : standard.function? name = some native) : native.KeepsPlain := by
  have hall : ∀ native ∈ builtinFunctions, native.KeepsPlain := by
    have hpure (name : String) {f : List Value → Value}
        (hf : ∀ args : List Value, (∀ arg ∈ args, arg.IsPlain) → (f args).IsPlain) :
        (Native.pure name f).KeepsPlain := ⟨f, fun _ _ => rfl, hf⟩
    have hclamp : (⟨"clamp", fun args _ => clamp args⟩ : Native Formula).KeepsPlain := by
      obtain ⟨f, hf⟩ := Classical.axiomOfChoice (@exists_clamp_isPlain Formula)
      exact ⟨f, fun args _ => (hf args).1, fun args _ => (hf args).2⟩
    simp only [builtinFunctions, List.forall_mem_cons]
    exact ⟨hpure _ fun _ => isPlain_extreme _, hpure _ fun _ => isPlain_extreme _,
      hpure _ fun _ _ => isPlain_absolute _, hpure _ fun _ _ => isPlain_rounded _ _,
      hpure _ fun _ _ => isPlain_rounded _ _, hpure _ fun _ _ => isPlain_rounded _ _,
      hpure _ fun _ _ => isPlain_squareRoot _, hclamp,
      hpure _ fun _ => isPlain_choose, by simp⟩
  refine hall native ?_
  rw [← standard_functions]
  exact List.mem_of_find?_eq_some h

theorem isFixed_of_precompiled? {expression : Precompiled Formula}
    (h : standard.precompiled? name = some expression) : expression.IsFixed := by
  have hall : ∀ expression ∈ builtinPrecompiled, expression.IsFixed := by
    have hconstant (name : String) (x : Float) :
        (Precompiled.constant name (.float x)).IsFixed := ⟨.float x, trivial, fun _ => rfl⟩
    simp only [builtinPrecompiled, List.forall_mem_cons]
    exact ⟨hconstant _ _, hconstant _ _, by simp⟩
  refine hall expression ?_
  rw [← standard_precompiled]
  exact List.mem_of_find?_eq_some h

end FunctionTable

namespace Formula

/-- A node that holds no object and makes none out of plain values. -/
def IsBuiltin : Formula → Prop
  | constant value => value.IsPlain
  | identifier _ => True
  | precompiled expression => expression.IsFixed
  | apply op native _ => op.KeepsPlain ∧ ∀ function ∈ native, function.KeepsPlain

end Formula

namespace Grammar

open Formula (IsBuiltin Everywhere)

theorem Derives.everywhere_builtin {rank : Rank} {f : Formula} (h : Derives standard rank f) :
    f.Everywhere IsBuiltin := by
  have hnode {op : Operator} {operands : List Formula} (hop : op.KeepsPlain)
      (hoperands : ∀ operand ∈ operands, operand.Everywhere IsBuiltin) :
      (Formula.node op operands).Everywhere IsBuiltin := by
    refine .apply ⟨hop, fun function hfunction => ?_⟩ hoperands
    cases hfunction
  have hname (name : String) : (Formula.identifier name).Everywhere IsBuiltin := .leaf trivial rfl
  induction h with
  | @constant value hvalue =>
      refine .leaf ?_ rfl
      cases value with
      | object handle => exact hvalue
      | unknown | null | bool | int | float | string => trivial
  | identifier => exact hname _
  | precompiled hfound _ => exact .leaf (FunctionTable.isFixed_of_precompiled? hfound) rfl
  | parenthesis _ ih =>
      exact hnode (Operator.structural_keepsPlain _ _ _) (List.forall_mem_singleton.mpr ih)
  | member _ _ ih =>
      exact hnode (Operator.structural_keepsPlain _ _ _)
        (List.forall_mem_cons.mpr ⟨ih, List.forall_mem_singleton.mpr (hname _)⟩)
  | functionCall _ _ _ ih =>
      refine .apply ⟨Operator.structural_keepsPlain _ _ _, fun function hfunction => ?_⟩
        (List.forall_mem_cons.mpr ⟨hname _, ih⟩)
      exact FunctionTable.keepsPlain_of_function? hfunction
  | methodCall _ _ _ ih iharguments =>
      exact hnode (Operator.structural_keepsPlain _ _ _)
        (List.forall_mem_cons.mpr ⟨ih, List.forall_mem_cons.mpr ⟨hname _, iharguments⟩⟩)
  | indexing _ _ _ ih ihindices =>
      exact hnode (Operator.structural_keepsPlain _ _ _) (List.forall_mem_cons.mpr ⟨ih, ihindices⟩)
  | atom _ ih => exact ih
  | prefixed hop _ ih =>
      exact hnode (Operator.keepsPlain_of_mem_prefixes hop) (List.forall_mem_singleton.mpr ih)
  | infixed hop _ _ _ _ _ ihleft ihright =>
      exact hnode (Operator.keepsPlain_of_mem_infixes hop)
        (List.forall_mem_cons.mpr ⟨ihleft, List.forall_mem_singleton.mpr ihright⟩)

theorem everywhere_builtin_of_read {text : String} {f : Formula} (h : standard.read text = .ok f) :
    f.Everywhere IsBuiltin :=
  (derives_of_read rfl h).everywhere_builtin

end Grammar

end Formulary
