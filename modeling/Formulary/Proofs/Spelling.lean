import Formulary.Proofs.Forest
import Formulary.Proofs.Literals

/-! # The characters of a formula's text

The text of a formula node by node, as characters. What a text starts with tells that it is not
empty, that no blank stands before it, and that no list ends there.
-/

namespace Formulary

namespace Formula

/-- The characters of the text. -/
def chars (f : Formula) : List Char := f.text.toList

/-- The characters of texts separated by commas. -/
def listChars : List Formula → List Char
  | [] => []
  | [f] => f.chars
  | f :: next :: rest => f.chars ++ ',' :: ' ' :: listChars (next :: rest)

theorem texts_eq_map (operands : List Formula) : texts operands = operands.map text := by
  induction operands with
  | nil => rfl
  | cons operand rest ih =>
      change operand.text :: texts rest = _
      rw [ih, List.map_cons]

theorem toList_commaList (operands : List Formula) :
    (Operator.commaList (texts operands)).toList = listChars operands := by
  rw [texts_eq_map, Operator.commaList]
  induction operands with
  | nil =>
      rw [List.map_nil, String.intercalate_nil]
      rfl
  | cons operand rest ih =>
      cases rest with
      | nil =>
          rw [List.map_cons, List.map_nil, String.intercalate_singleton]
          rfl
      | cons next rest =>
          rw [List.map_cons, List.map_cons, String.intercalate_cons_cons, String.toList_append,
            String.toList_append, ← List.map_cons, ih, List.append_assoc]
          rfl

section Nodes

variable {op : Operator} {target operand left right inner : Formula} {name : String}
  {arguments : List Formula} {native : Option (Native Formula)}

theorem chars_constant (value : Value) : (constant value).chars = value.literal.toList := rfl

theorem chars_identifier (name : String) : (identifier name).chars = name.toList := rfl

theorem chars_precompiled (found : Precompiled Formula) :
    (precompiled found).chars = '#' :: found.name.toList := by
  change ("#" ++ found.name).toList = _
  rw [String.toList_append]
  rfl

theorem chars_parenthesis : (node .grouping [inner]).chars = '(' :: (inner.chars ++ [')']) := by
  change ("(" ++ inner.text ++ ")").toList = _
  simp only [String.toList_append]
  rfl

theorem chars_member :
    (node .memberAccess [target, identifier name]).chars = target.chars ++ '.' :: name.toList := by
  change (target.text ++ "." ++ name).toList = _
  simp only [String.toList_append, List.append_assoc]
  rfl

theorem chars_functionCall :
    (apply .functionCall native (identifier name :: arguments)).chars =
      name.toList ++ '(' :: (listChars arguments ++ [')']) := by
  change (name ++ "(" ++ Operator.commaList (texts arguments) ++ ")").toList = _
  simp only [String.toList_append, toList_commaList, List.append_assoc]
  rfl

theorem chars_methodCall :
    (node .methodCall (target :: identifier name :: arguments)).chars =
      target.chars ++ '.' :: (name.toList ++ '(' :: (listChars arguments ++ [')'])) := by
  change (target.text ++ "." ++ name ++ "(" ++ Operator.commaList (texts arguments) ++ ")").toList
    = _
  simp only [String.toList_append, toList_commaList, List.append_assoc]
  rfl

theorem chars_indexing :
    (node .indexing (target :: arguments)).chars =
      target.chars ++ '[' :: (listChars arguments ++ [']']) := by
  change (target.text ++ "[" ++ Operator.commaList (texts arguments) ++ "]").toList = _
  simp only [String.toList_append, toList_commaList, List.append_assoc]
  rfl

/-- What keeps a prefix symbol apart from its operand. -/
def separator (op : Operator) (operand : Formula) : List Char :=
  if Operator.needsSeparator op.symbol operand.text then [' '] else []

theorem chars_prefix (h : op ∈ OperatorTable.prefixes) :
    (node op [operand]).chars = op.symbol.toList ++ (separator op operand ++ operand.chars) := by
  have harrange : op.arrange [operand.text] =
      if Operator.needsSeparator op.symbol operand.text then op.symbol ++ " " ++ operand.text
      else op.symbol ++ operand.text := by
    have hform := OperatorTable.isStructural_of_mem_prefixes h
    unfold Operator.arrange
    split <;> simp_all [Form.isStructural]
  change (op.arrange [operand.text]).toList = _
  rw [harrange, separator]
  split
  · simp only [String.toList_append, List.append_assoc]
    rfl
  · rw [String.toList_append]
    rfl

theorem chars_infix (h : op ∈ OperatorTable.infixes) :
    (node op [left, right]).chars =
      left.chars ++ ' ' :: (op.symbol.toList ++ ' ' :: right.chars) := by
  have harrange : op.arrange [left.text, right.text] =
      left.text ++ " " ++ op.symbol ++ " " ++ right.text := by
    have hform := OperatorTable.isStructural_of_mem_infixes h
    unfold Operator.arrange
    split <;> simp_all [Form.isStructural]
  change (op.arrange [left.text, right.text]).toList = _
  rw [harrange]
  simp only [String.toList_append, List.append_assoc]
  rfl

end Nodes

theorem depthOfAll_le_length {fs : List Formula} (h : ∀ f ∈ fs, f.depth ≤ f.chars.length) :
    depthOfAll fs ≤ (listChars fs).length := by
  induction fs with
  | nil => exact Nat.le_refl _
  | cons f rest ih =>
      have hf := h f List.mem_cons_self
      have hrest := ih fun other hother => h other (List.mem_cons_of_mem f hother)
      cases rest with
      | nil =>
          rw [depthOfAll, depthOfAll, listChars]
          omega
      | cons next rest =>
          rw [depthOfAll, listChars, List.length_append, List.length_cons, List.length_cons]
          omega

/-- Every double in the formula is finite and its literal reads back as it. -/
def Exact (f : Formula) : Prop :=
  ∀ path x, f.descendant? path = some (.constant (.float x)) →
    x.isFinite ∧ Decimal.Layout.ReadsBack x

theorem exact_constant {value : Value}
    (h : ∀ x, value = .float x → x.isFinite ∧ Decimal.Layout.ReadsBack x) :
    Exact (.constant value) := by
  rintro (_ | ⟨i, path⟩) x hx
  · cases hx
    exact h x rfl
  · cases hx

theorem exact_identifier (name : String) : Exact (.identifier name) := by
  rintro (_ | ⟨i, path⟩) x ⟨⟩

theorem exact_precompiled (found : Precompiled Formula) : Exact (.precompiled found) := by
  rintro (_ | ⟨i, path⟩) x ⟨⟩

theorem exact_apply {op : Operator} {native : Option (Native Formula)} {operands : List Formula}
    (h : ∀ operand ∈ operands, operand.Exact) : Exact (.apply op native operands) := by
  rintro (_ | ⟨i, path⟩) x hx
  · cases hx
  · cases hoperand : (apply op native operands).operands[i]? with
    | none => simp [descendant?, hoperand] at hx
    | some operand =>
        rw [descendant?_cons path hoperand] at hx
        exact h operand (List.mem_of_getElem? hoperand) path x hx

theorem Exact.operand {f operand : Formula} (h : f.Exact) (hmem : operand ∈ f.operands) :
    operand.Exact := by
  obtain ⟨i, hoperand⟩ := List.getElem?_of_mem hmem
  intro path x hx
  exact h (i :: path) x ((descendant?_cons path hoperand).trans hx)

end Formula

/-- Whether a character starts the text of a formula. -/
def isOperandStart (c : Char) : Bool :=
  isNamePart c || ['#', '(', '\'', '"', '-', '!', '@'].contains c

theorem isOperandStart_of_isDigit {c : Char} (h : c.isDigit = true) : isOperandStart c = true := by
  simp only [isOperandStart, isNamePart, Char.isAlphanum, h, Bool.or_true, Bool.true_or]

theorem isOperandStart_of_isNameStart {c : Char} (h : isNameStart c = true) :
    isOperandStart c = true := by
  simp only [isOperandStart, Silent.isNamePart_of_isNameStart h, Bool.true_or]

namespace OperatorTable

variable {op : Operator}

/-- Whether the text of a formula can start with the symbol. -/
def startsOperand (op : Operator) : Bool :=
  match op.symbol.toList with
  | [] => false
  | c :: _ => isOperandStart c

theorem symbol_head_of_mem_prefixes (h : op ∈ prefixes) :
    ∃ c cs, op.symbol.toList = c :: cs ∧ isOperandStart c = true := by
  have hall : prefixes.all startsOperand = true := by decide
  have hhead := List.all_eq_true.mp hall op h
  rw [startsOperand] at hhead
  split at hhead
  · cases hhead
  · next c cs hsymbol => exact ⟨c, cs, hsymbol, hhead⟩

theorem symbol_length_pos_of_mem_prefixes (h : op ∈ prefixes) : 0 < op.symbol.toList.length := by
  obtain ⟨c, cs, hsymbol, -⟩ := symbol_head_of_mem_prefixes h
  rw [hsymbol]
  exact Nat.succ_pos _

end OperatorTable

namespace Value

/-- The first character of a literal. -/
theorem literal_head {value : Value} (hvalue : value.IsWritable)
    (hfinite : ∀ x, value = .float x → x.isFinite) :
    ∃ c cs, value.literal.toList = c :: cs ∧ isOperandStart c = true := by
  have hnumber : ∀ negative {digits : List Char}, IsDigits digits → ∀ rest, ∃ c cs,
      signChars negative ++ (digits ++ rest) = c :: cs ∧ isOperandStart c = true := by
    intro negative digits hdigits rest
    cases negative with
    | true => exact ⟨'-', digits ++ rest, rfl, rfl⟩
    | false =>
        cases digits with
        | nil => exact absurd rfl hdigits.1
        | cons c digits =>
            exact ⟨c, digits ++ rest, rfl,
              isOperandStart_of_isDigit (hdigits.2 c List.mem_cons_self)⟩
  cases value with
  | unknown => exact ⟨'u', "nknown".toList, rfl, rfl⟩
  | null => exact ⟨'n', "ull".toList, rfl, rfl⟩
  | bool b =>
      cases b with
      | false => exact ⟨'f', "alse".toList, rfl, rfl⟩
      | true => exact ⟨'t', "rue".toList, rfl, rfl⟩
  | int i =>
      rw [literal, toList_intText, ← List.append_nil (Nat.toDigits _ _)]
      exact hnumber _ (isDigits_toDigits _) _
  | float x =>
      obtain ⟨negative, whole, fraction, htext, hwhole, -⟩ :=
        Decimal.Layout.literal_text_eq (hfinite x rfl)
      rw [literal, String.toList_ofList, htext]
      exact hnumber _ hwhole _
  | string s =>
      rw [literal, stringLiteral]
      split
      · exact ⟨'\'', s.toList ++ "'".toList, by simp only [String.toList_append]; rfl, rfl⟩
      · exact ⟨'"', s.toList ++ "\"".toList, by simp only [String.toList_append]; rfl, rfl⟩
  | object handle => exact absurd hvalue id

end Value

namespace Grammar.Derives

open OperatorTable

variable {g : Grammar}

/-- The first character of a formula. -/
theorem chars_head {rank : Rank} {f : Formula} (h : Derives g rank f) (hexact : f.Exact) :
    ∃ c cs, f.chars = c :: cs ∧ isOperandStart c = true := by
  have hname : ∀ {name : String}, IsName name → ∀ rest, ∃ c cs,
      name.toList ++ rest = c :: cs ∧ isOperandStart c = true := by
    rintro name ⟨c, cs, hchars, hstart, -⟩ rest
    exact ⟨c, cs ++ rest, by rw [hchars]; rfl, isOperandStart_of_isNameStart hstart⟩
  have hafter : ∀ {cs : List Char}, (∃ c ds, cs = c :: ds ∧ isOperandStart c = true) →
      ∀ rest, ∃ c ds, cs ++ rest = c :: ds ∧ isOperandStart c = true := by
    rintro cs ⟨c, ds, rfl, hc⟩ rest
    exact ⟨c, ds ++ rest, rfl, hc⟩
  induction h with
  | @constant value hvalue =>
      rw [Formula.chars_constant]
      refine Value.literal_head hvalue fun x hx => ?_
      subst hx
      exact (hexact [] x (Formula.descendant?_nil _)).1
  | identifier hvalid =>
      rw [Formula.chars_identifier, ← List.append_nil (String.toList _)]
      exact hname hvalid _
  | precompiled =>
      rw [Formula.chars_precompiled]
      exact ⟨'#', _, rfl, rfl⟩
  | parenthesis =>
      rw [Formula.chars_parenthesis]
      exact ⟨'(', _, rfl, rfl⟩
  | member htarget _ ih =>
      rw [Formula.chars_member]
      exact hafter (ih (hexact.operand List.mem_cons_self)) _
  | functionCall hvalid =>
      rw [Formula.chars_functionCall]
      exact hname hvalid _
  | methodCall htarget _ _ ih =>
      rw [Formula.chars_methodCall]
      exact hafter (ih (hexact.operand List.mem_cons_self)) _
  | indexing htarget _ _ ih =>
      rw [Formula.chars_indexing]
      exact hafter (ih (hexact.operand List.mem_cons_self)) _
  | atom _ ih => exact ih hexact
  | @prefixed op operand _ hop =>
      rw [Formula.chars_prefix hop]
      refine hafter ?_ _
      exact symbol_head_of_mem_prefixes hop
  | infixed hop _ _ _ _ _ ih =>
      rw [Formula.chars_infix hop]
      exact hafter (ih (hexact.operand List.mem_cons_self)) _

theorem chars_length_pos {rank : Rank} {f : Formula} (h : Derives g rank f) (hexact : f.Exact) :
    0 < f.chars.length := by
  obtain ⟨c, cs, hchars, -⟩ := h.chars_head hexact
  rw [hchars]
  exact Nat.succ_pos _

/-- A formula is no deeper than its text is long. -/
theorem depth_le_length {rank : Rank} {f : Formula} (h : Derives g rank f) (hexact : f.Exact) :
    f.depth ≤ f.chars.length := by
  have hpos := h.chars_length_pos hexact
  induction h with
  | constant | identifier | precompiled =>
      rw [Formula.depth]
      exact hpos
  | parenthesis hinner ih =>
      have hinnerexact := hexact.operand List.mem_cons_self
      have hbound := ih hinnerexact (hinner.chars_length_pos hinnerexact)
      rw [Formula.chars_parenthesis]
      simp only [Formula.node, Formula.depth, Formula.depthOfAll, List.length_cons,
        List.length_append]
      omega
  | member htarget _ ih =>
      have htargetexact := hexact.operand List.mem_cons_self
      have hbound := ih htargetexact (htarget.chars_length_pos htargetexact)
      have htargetpos := htarget.chars_length_pos htargetexact
      rw [Formula.chars_member]
      simp only [Formula.node, Formula.depth, Formula.depthOfAll, List.length_cons,
        List.length_append]
      omega
  | functionCall _ _ harguments ih =>
      have hbound := Formula.depthOfAll_le_length fun argument hargument =>
        let hargumentexact := hexact.operand (List.mem_cons_of_mem _ hargument)
        ih argument hargument hargumentexact
          ((harguments argument hargument).chars_length_pos hargumentexact)
      rw [Formula.chars_functionCall]
      simp only [Formula.depth, Formula.depthOfAll, List.length_cons,
        List.length_append]
      omega
  | methodCall htarget _ harguments ihtarget ih =>
      have htargetexact := hexact.operand List.mem_cons_self
      have htargetbound := ihtarget htargetexact (htarget.chars_length_pos htargetexact)
      have htargetpos := htarget.chars_length_pos htargetexact
      have hbound := Formula.depthOfAll_le_length fun argument hargument =>
        let hargumentexact := hexact.operand
          (List.mem_cons_of_mem _ (List.mem_cons_of_mem _ hargument))
        ih argument hargument hargumentexact
          ((harguments argument hargument).chars_length_pos hargumentexact)
      rw [Formula.chars_methodCall]
      simp only [Formula.node, Formula.depth, Formula.depthOfAll, List.length_cons,
        List.length_append]
      omega
  | indexing htarget _ hall ihtarget ih =>
      have htargetexact := hexact.operand List.mem_cons_self
      have htargetbound := ihtarget htargetexact (htarget.chars_length_pos htargetexact)
      have hbound := Formula.depthOfAll_le_length fun index hindex =>
        let hindexexact := hexact.operand (List.mem_cons_of_mem _ hindex)
        ih index hindex hindexexact ((hall index hindex).chars_length_pos hindexexact)
      rw [Formula.chars_indexing]
      simp only [Formula.node, Formula.depth, Formula.depthOfAll, List.length_cons,
        List.length_append]
      omega
  | atom _ ih => exact ih hexact hpos
  | prefixed hop hoperand ih =>
      have hoperandexact := hexact.operand List.mem_cons_self
      have hbound := ih hoperandexact (hoperand.chars_length_pos hoperandexact)
      have hsymbol := symbol_length_pos_of_mem_prefixes hop
      rw [Formula.chars_prefix hop]
      simp only [Formula.node, Formula.depth, Formula.depthOfAll, List.length_append]
      omega
  | infixed hop _ hleft _ _ hright ihleft ihright =>
      have hleftexact := hexact.operand List.mem_cons_self
      have hrightexact := hexact.operand (List.mem_cons_of_mem _ List.mem_cons_self)
      have hleftbound := ihleft hleftexact (hleft.chars_length_pos hleftexact)
      have hrightbound := ihright hrightexact (hright.chars_length_pos hrightexact)
      rw [Formula.chars_infix hop]
      simp only [Formula.node, Formula.depth, Formula.depthOfAll, List.length_cons,
        List.length_append]
      omega

end Grammar.Derives

end Formulary
