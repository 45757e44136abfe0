import Formulary.Proofs.RoundTrip

/-! # Constants read back

The literal of a constant is source text for it: read alone, it is that constant again. The
exceptions are the doubles that are not finite. Digits that are too many for a double are read as an
infinity, but an infinity is written as a word, and words are names.
-/

namespace Formulary

/-- Neither an infinity nor a NaN. -/
def Value.IsFinite : Value → Prop
  | float x => x.isFinite = true
  | _ => True

/-- A constant stands for a value that has a literal. -/
def Formula.IsWritable : Formula → Prop
  | constant value => value.IsWritable
  | _ => True

namespace Decimal.Layout

/-- A double that is not finite is written as a word, in every layout. -/
theorem text_of_not_isFinite (layout : Layout) {x : Float} (h : ¬x.isFinite = true) :
    layout.text x = "NaN".toList ∨ layout.text x = "-inf".toList ∨
      layout.text x = "inf".toList := by
  rw [text, ofFloat?_eq_none h]
  simp only
  split
  · exact Or.inl rfl
  · split
    · exact Or.inr (Or.inl rfl)
    · exact Or.inr (Or.inr rfl)

end Decimal.Layout

namespace Grammar

open OperatorTable
open Formula (IsWritable Everywhere)

variable {g : Grammar}

/-- Whatever is derived has constants with literals only. -/
theorem Derives.isWritable {rank : Rank} {f : Formula} (h : Derives g rank f) :
    f.Everywhere IsWritable := by
  have hnode {op : Operator} {native : Option (Native Formula)} {operands : List Formula}
      (hoperands : ∀ operand ∈ operands, operand.Everywhere IsWritable) :
      (Formula.apply op native operands).Everywhere IsWritable := .apply trivial hoperands
  have hname (name : String) : (Formula.identifier name).Everywhere IsWritable := .leaf trivial rfl
  induction h with
  | constant hvalue => exact .leaf hvalue rfl
  | identifier => exact hname _
  | precompiled => exact .leaf trivial rfl
  | parenthesis _ ih => exact hnode (List.forall_mem_singleton.mpr ih)
  | member _ _ ih =>
      exact hnode (List.forall_mem_cons.mpr ⟨ih, List.forall_mem_singleton.mpr (hname _)⟩)
  | functionCall _ _ _ ih => exact hnode (List.forall_mem_cons.mpr ⟨hname _, ih⟩)
  | methodCall _ _ _ ih iharguments =>
      exact hnode (List.forall_mem_cons.mpr ⟨ih, List.forall_mem_cons.mpr ⟨hname _, iharguments⟩⟩)
  | indexing _ _ _ ih ihindices => exact hnode (List.forall_mem_cons.mpr ⟨ih, ihindices⟩)
  | atom _ ih => exact ih
  | prefixed _ _ ih => exact hnode (List.forall_mem_singleton.mpr ih)
  | infixed _ _ _ _ _ _ ihleft ihright =>
      exact hnode (List.forall_mem_cons.mpr ⟨ihleft, List.forall_mem_singleton.mpr ihright⟩)

theorem isWritable_of_read (hstandard : g.operators = .standard) {text : String} {f : Formula}
    (h : g.read text = .ok f) {path : List Nat} {value : Value}
    (hnode : f.descendant? path = some (.constant value)) : value.IsWritable :=
  (derives_of_read hstandard h).isWritable path _ hnode

/-- A literal that stands alone. -/
theorem read_literal (hstandard : g.operators = .standard) {value : Value}
    (hvalue : value.IsWritable)
    (hexact : ∀ x, value = .float x → x.isFinite = true ∧ Decimal.Layout.ReadsBack x) :
    g.read value.literal = .ok (.constant value) := by
  have hderives : Derives g .primary (.constant value) := .constant hvalue
  exact hderives.atom.read_text hstandard (Formula.exact_constant hexact)

section Words

variable {name : String} (hname : IsName name) (hkeyword : keyword? name = none)

include hname hkeyword

/-- A name that stands alone. -/
theorem read_name (hstandard : g.operators = .standard) :
    g.read name = .ok (.identifier name) := by
  have hderives : Derives g .primary (.identifier name) := .identifier hname hkeyword
  exact hderives.atom.read_text hstandard (Formula.exact_identifier name)

theorem read_negated_name (hstandard : g.operators = .standard) :
    g.read (Formula.node .subtraction [.identifier name]).text =
      .ok (.node .subtraction [.identifier name]) := by
  have hderives : Derives g .primary (.identifier name) := .identifier hname hkeyword
  have hnegated : Derives g (.upTo topLimit) (.node .subtraction [.identifier name]) :=
    .prefixed (by simp [prefixes]) hderives.atom
  exact hnegated.read_text hstandard
    (Formula.exact_apply (List.forall_mem_singleton.mpr (Formula.exact_identifier name)))

end Words

theorem isName_inf : IsName "inf" := ⟨'i', "nf".toList, rfl, rfl, List.all_eq_true.mp rfl⟩

theorem isName_NaN : IsName "NaN" := ⟨'N', "aN".toList, rfl, rfl, List.all_eq_true.mp rfl⟩

/-- What the literal of a double that is not finite is read as: a name, or a name with a sign. -/
theorem read_literal_of_not_isFinite (hstandard : g.operators = .standard) {x : Float}
    (h : ¬x.isFinite = true) : ∃ name,
      g.read (Value.float x).literal = .ok (.identifier name) ∨
        g.read (Value.float x).literal = .ok (.node .subtraction [.identifier name]) := by
  rw [Value.literal]
  rcases Decimal.Layout.literal.text_of_not_isFinite h with htext | htext | htext
  · refine ⟨"NaN", Or.inl ?_⟩
    rw [htext, String.ofList_toList]
    exact read_name isName_NaN rfl hstandard
  · refine ⟨"inf", Or.inr ?_⟩
    have hnegated : (Formula.node .subtraction [.identifier "inf"]).text = "-inf" := by
      decide +kernel
    rw [htext, String.ofList_toList, ← hnegated]
    exact read_negated_name isName_inf rfl hstandard
  · refine ⟨"inf", Or.inl ?_⟩
    rw [htext, String.ofList_toList]
    exact read_name isName_inf rfl hstandard

/-- The literal of a constant in a formula that is read, alone, is read as the constant if the
constant is finite, and as something that is no constant otherwise. Of a finite double it is asked
that its shortest digits read back as it. -/
theorem read_literal_of_read (hstandard : g.operators = .standard) {text : String} {f : Formula}
    (h : g.read text = .ok f) {path : List Nat} {value : Value}
    (hnode : f.descendant? path = some (.constant value))
    (hback : ∀ x, value = .float x → x.isFinite = true → Decimal.Layout.ReadsBack x) :
    (value.IsFinite → g.read value.literal = .ok (.constant value)) ∧
      (¬value.IsFinite → ∃ other, g.read value.literal = .ok other ∧
        ∀ again, other ≠ .constant again) := by
  constructor
  · intro hfinite
    refine read_literal hstandard (isWritable_of_read hstandard h hnode) ?_
    rintro x rfl
    exact ⟨hfinite, hback x rfl hfinite⟩
  · intro hinfinite
    cases value with
    | float x =>
        obtain ⟨name, hread | hread⟩ := read_literal_of_not_isFinite hstandard hinfinite
        · exact ⟨_, hread, fun again => Formula.noConfusion⟩
        · exact ⟨_, hread, fun again => Formula.noConfusion⟩
    | unknown | null | bool | int | string | object => exact absurd trivial hinfinite

theorem read_literal_of_sum : ∃ f path value, standard.operators = .standard ∧
    standard.read "2.5 + a" = .ok f ∧ f.descendant? path = some (.constant value) ∧
    value.IsFinite ∧ standard.read value.literal = .ok (.constant value) := by
  have hfinite : (Value.float 2.5).IsFinite := by
    change Float.isFinite 2.5 = true
    decide +kernel
  have hback : ∀ x, Value.float 2.5 = .float x → x.isFinite = true →
      Decimal.Layout.ReadsBack x := by
    rintro x ⟨⟩ -
    unfold Decimal.Layout.ReadsBack
    decide +kernel
  have hnode : (Formula.node .addition [.constant (.float 2.5), .identifier "a"]).descendant? [0] =
      some (.constant (.float 2.5)) := rfl
  exact ⟨_, [0], .float 2.5, rfl, read_sum, hnode, hfinite,
    (read_literal_of_read rfl read_sum hnode hback).1 hfinite⟩

/-- Digits that stand alone, however many. -/
theorem read_digits (hstandard : g.operators = .standard) {digits : List Char}
    (hdigits : IsDigits digits) :
    g.read (String.ofList digits) = .ok (.constant (integerValue false digits)) := by
  have hcs : digits = signChars false ++ (digits ++ []) := (List.append_nil digits).symm
  have htoken := Silent.token_whole false hdigits bounded_nil
  rw [← hcs] at htoken
  have hblank : skipped digits = digits := by
    cases digits with
    | nil => rfl
    | cons c digits =>
        have hc := isOperandStart_of_isDigit (hdigits.2 c List.mem_cons_self)
        exact skipped_of_head (isBlank_of_isOperandStart hc)
  have hclosed : Closes [] := Or.inl rfl
  refine g.read_eq_ok_iff.mpr ⟨?_, [], rfl, ?_⟩
  · rw [String.toList_ofList, hblank]
    exact hdigits.1
  · have hbody : Silent.operandBody g (Silent.expression g digits.length) (skipped digits) =
        .accepted (.constant (integerValue false digits), []) := by
      rw [hblank]
      exact Silent.operandBody_number hdigits hcs htoken
    rw [String.toList_ofList, hblank, Silent.expression_succ,
      Silent.prefixed_eq_of_operandBody hbody]
    refine extend_stops (hclosed.awaits hstandard _) (fun op hop => ?_) _
    rw [hstandard, hclosed.matchInfix?] at hop
    cases hop

/-- Three hundred and nine digits are read as an infinity, and its literal as a name. -/
theorem literal_of_overflow_read : ∃ x : Float, x.isFinite = false ∧
    standard.read (String.ofList ('2' :: List.replicate 308 '0')) = .ok (.constant (.float x)) ∧
    (Value.float x).literal = "inf" ∧ standard.read "inf" = .ok (.identifier "inf") := by
  have hdigits : IsDigits ('2' :: List.replicate 308 '0') := by
    refine ⟨List.cons_ne_nil _ _, List.forall_mem_cons.mpr ⟨rfl, fun c hc => ?_⟩⟩
    rw [List.eq_of_mem_replicate hc]
    rfl
  have hvalue : integerValue false ('2' :: List.replicate 308 '0') =
      .float (readDecimal false ('2' :: List.replicate 308 '0') []) := by
    rw [integerValue]
    exact if_neg (by decide +kernel)
  have hread := read_digits (g := standard) rfl hdigits
  rw [hvalue] at hread
  exact ⟨_, by decide +kernel, hread, by decide +kernel, read_name isName_inf rfl rfl⟩

end Grammar

end Formulary
