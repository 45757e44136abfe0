import Formulary.Proofs.Spelling

/-! # Texts of formulas read back

The text of a derived formula is read as that formula, whatever follows it, as long as what follows
cannot belong to it: then reading goes on from the formula as if it had just been read. The theorem
on whole texts is the case where nothing follows.
-/

namespace Formulary

open OperatorTable Grammar

/-! ## What separates tokens -/

/-- What starts an operand is no blank and closes nothing. -/
theorem ne_of_isOperandStart {c d : Char} (hc : isOperandStart c = true)
    (hd : isOperandStart d = false) : c ≠ d := by
  rintro rfl
  rw [hc] at hd
  cases hd

theorem isBlank_of_isOperandStart {c : Char} (h : isOperandStart c = true) : isBlank c = false := by
  have hspace := ne_of_isOperandStart h (d := ' ') rfl
  have htab := ne_of_isOperandStart h (d := '\t') rfl
  simp only [isBlank, Bool.or_eq_false_iff, beq_eq_false_iff_ne]
  exact ⟨hspace, htab⟩

theorem bounded_cons {c : Char} {cs : List Char} (hpart : isNamePart c = false) (hpoint : c ≠ '.') :
    Bounded (c :: cs) := by
  refine ⟨?_, fun tail htail => absurd (List.cons.inj htail).1 hpoint⟩
  rintro d ⟨⟩
  exact hpart

theorem bounded_nil : Bounded [] := by
  refine ⟨?_, fun tail htail => ?_⟩
  · rintro d ⟨⟩
  · cases htail

namespace Silent

variable {g : Grammar} {e : Int32 → Silent Formula} {rest : List Char}

theorem prefixed_eq_of_operandBody {cs : List Char} {read : Formula × List Char}
    (h : operandBody g e (skipped cs) = .accepted read) : prefixed g e cs = .accepted read := by
  rw [prefixed, h]
  rfl

/-- Blanks before an expression do not count. -/
theorem expression_skipped (depth : Nat) (limit : Int32) (cs : List Char) :
    expression g depth limit (skipped cs) = expression g depth limit cs := by
  cases depth with
  | zero => rfl
  | succ depth =>
      rw [expression_succ, expression_succ, prefixed, prefixed, skipped_skipped]

theorem expression_space (depth : Nat) (limit : Int32) (cs : List Char) :
    expression g depth limit (' ' :: cs) = expression g depth limit cs := by
  rw [← expression_skipped, skipped_space, expression_skipped]

theorem argumentsFrom_space (depth : Nat) (close : Char) (fuel : Nat) (cs : List Char) :
    argumentsFrom (expression g depth) close fuel (' ' :: cs) =
      argumentsFrom (expression g depth) close fuel cs := by
  cases fuel with
  | zero => rfl
  | succ fuel => rw [argumentsFrom, argumentsFrom, expression_space]

theorem argumentsFrom_last {close : Char} (hcomma : close ≠ ',') {fuel : Nat}
    {cs after : List Char} {f : Formula} (hread : e topLimit cs = .accepted (f, after))
    (hafter : skipped after = close :: rest) :
    argumentsFrom e close (fuel + 1) cs = .accepted ([f], rest) := by
  rw [argumentsFrom, hread]
  simp only [Reply.bind_accepted, hafter, List.head?_cons, List.tail_cons, if_true,
    Option.some.injEq, hcomma, if_false]

theorem argumentsFrom_comma {close : Char} {fuel : Nat} {cs after tail : List Char} {f : Formula}
    {fs : List Formula} (hread : e topLimit cs = .accepted (f, after))
    (hafter : skipped after = ',' :: tail)
    (hothers : argumentsFrom e close fuel tail = .accepted (fs, rest)) :
    argumentsFrom e close (fuel + 1) cs = .accepted (f :: fs, rest) := by
  rw [argumentsFrom, hread]
  simp only [Reply.bind_accepted, hafter, List.head?_cons, List.tail_cons, if_true, hothers]

theorem operandBody_default {c : Char} {cs : List Char}
    (hc : c ≠ '#' ∧ c ≠ '(' ∧ c ≠ '\'' ∧ c ≠ '"') :
    operandBody g e (c :: cs) =
      (token Cursor.number? (c :: cs)).resume
        (fun (value, rest) => .accepted (.constant value, rest))
        ((token Cursor.identifier? (c :: cs)).bind fun (name, rest) =>
          .accepted (wordFormula name, rest)) := by
  rw [operandBody, List.head?_cons]
  split
  · next heq => exact absurd (Option.some.inj heq) hc.1
  · next heq => exact absurd (Option.some.inj heq) hc.2.1
  · next heq => exact absurd (Option.some.inj heq) hc.2.2.1
  · next heq => exact absurd (Option.some.inj heq) hc.2.2.2
  · rfl

/-- Where no digit stands, there is no number. -/
theorem token_number_rejected (negative : Bool) {tail : List Char}
    (hsign : negative = false → tail.head? ≠ some '-')
    (htail : ∀ c ∈ tail.head?, c.isDigit = false) :
    token Cursor.number? (signChars negative ++ tail) = .rejected := by
  have hnegative : ((signChars negative ++ tail).head? == some '-') = negative := by
    cases negative with
    | true => rfl
    | false => exact beq_eq_false_iff_ne.mpr (hsign rfl)
  have hfold : (if negative = true then ['-'] else []) = signChars negative := rfl
  have hnone : tail.takeWhile Char.isDigit = [] :=
    takeWhile_append_stop (fun _ hc => absurd hc List.not_mem_nil) htail
  have hread : (⟨0, signChars negative ++ tail, 0⟩ : Cursor).number? = none := by
    simp only [Cursor.number?, ne_eq, not_true_eq_false, if_false]
    rw [hnegative, hfold, List.drop_left, hnone]
    rfl
  rw [token, hread]

theorem token_name_rejected {c : Char} {cs : List Char} (hc : isNameStart c = false) :
    token Cursor.identifier? (c :: cs) = .rejected := by
  have hread : (⟨0, c :: cs, 0⟩ : Cursor).identifier? = none := by
    simp only [Cursor.identifier?, Cursor.peek?, if_true, List.head?_cons, hc, Bool.false_eq_true,
      if_false]
  rw [token, hread]

theorem token_number_rejected_of_ne {c : Char} {cs : List Char} (hdigit : c.isDigit = false)
    (hminus : c ≠ '-') : token Cursor.number? (c :: cs) = .rejected := by
  refine token_number_rejected false (fun _ => ?_) ?_
  · rintro ⟨⟩
    exact hminus rfl
  · rintro d ⟨⟩
    exact hdigit

theorem ne_bracket_of_isNameStart {c : Char} (h : isNameStart c = true) :
    c ≠ '#' ∧ c ≠ '(' ∧ c ≠ '\'' ∧ c ≠ '"' := by
  refine ⟨?_, ?_, ?_, ?_⟩ <;> rintro rfl <;> exact absurd h (by decide)

theorem isDigit_of_isNameStart {c : Char} (h : isNameStart c = true) :
    c.isDigit = false ∧ c ≠ '-' := by
  constructor
  · refine Bool.of_not_eq_true fun hdigit => ?_
    -- Letters and the underscore come after the digits.
    have hletter : (decide (65 ≤ c.val ∧ c.val ≤ 90) || (decide (97 ≤ c.val) &&
        decide (c.val ≤ 122)) || c == '_') = true := h
    simp only [Bool.or_eq_true, Bool.and_eq_true, decide_eq_true_eq, beq_iff_eq] at hletter
    simp only [Char.isDigit, Bool.and_eq_true, decide_eq_true_eq] at hdigit
    have hbound : c.val.toNat ≤ 57 := UInt32.le_iff_toNat_le.mp hdigit.2
    rcases hletter with (hupper | hlower) | rfl
    · have : 65 ≤ c.val.toNat := UInt32.le_iff_toNat_le.mp hupper.1
      omega
    · have : 97 ≤ c.val.toNat := UInt32.le_iff_toNat_le.mp hlower.1
      omega
    · exact absurd hdigit (by decide)
  · rintro rfl
    exact absurd h (by decide)

/-- A name that stands by itself. -/
theorem operandBody_name {name : String} (hname : IsName name) (hrest : Bounded rest) :
    operandBody g e (name.toList ++ rest) = .accepted (wordFormula name, rest) := by
  have hread := token_name hname hrest.1
  obtain ⟨c, cs, hchars, hstart, -⟩ := hname
  obtain ⟨hdigit, hminus⟩ := isDigit_of_isNameStart hstart
  rw [hchars, List.cons_append] at hread ⊢
  rw [operandBody_default (ne_bracket_of_isNameStart hstart),
    token_number_rejected_of_ne hdigit hminus, hread]
  rfl

theorem operandBody_number {cs : List Char} {value : Value} {negative : Bool} {digits : List Char}
    (hdigits : IsDigits digits) (hcs : cs = signChars negative ++ (digits ++ rest))
    {tail : List Char} (hread : token Cursor.number? cs = .accepted (value, tail)) :
    operandBody g e cs = .accepted (.constant value, tail) := by
  have hhead : ∃ c ds, cs = c :: ds ∧ (c ≠ '#' ∧ c ≠ '(' ∧ c ≠ '\'' ∧ c ≠ '"') := by
    rw [hcs]
    cases negative with
    | true => exact ⟨'-', _, rfl, by decide⟩
    | false =>
        cases digits with
        | nil => exact absurd rfl hdigits.1
        | cons c digits =>
            have hc := hdigits.2 c List.mem_cons_self
            refine ⟨c, _, rfl, ?_, ?_, ?_, ?_⟩ <;> rintro rfl <;> exact absurd hc (by decide)
  obtain ⟨c, ds, rfl, hc⟩ := hhead
  rw [operandBody_default hc, hread]
  rfl

theorem integerValue_toDigits (i : Int64) :
    integerValue (decide (i.toInt < 0)) (Nat.toDigits 10 i.toInt.natAbs) = .int i := by
  have hmagnitude : (if decide (i.toInt < 0) = true then -(i.toInt.natAbs : Int)
      else i.toInt.natAbs) = i.toInt := by
    split
    · next h =>
      rw [decide_eq_true_eq] at h
      omega
    · next h =>
      rw [decide_eq_true_eq] at h
      omega
  simp only [integerValue, digitsValue_toDigits]
  rw [hmagnitude, if_pos ⟨i.minValue_le_toInt, i.toInt_le⟩, Int64.ofInt_toInt]

/-- The literal of a value. -/
theorem operandBody_constant {value : Value} (hvalue : value.IsWritable)
    (hexact : ∀ x, value = .float x → x.isFinite ∧ Decimal.Layout.ReadsBack x)
    (hrest : Bounded rest) :
    operandBody g e (value.literal.toList ++ rest) = .accepted (.constant value, rest) := by
  cases value with
  | unknown =>
      exact operandBody_name ⟨'u', "nknown".toList, rfl, rfl, List.all_eq_true.mp rfl⟩ hrest
  | null => exact operandBody_name ⟨'n', "ull".toList, rfl, rfl, List.all_eq_true.mp rfl⟩ hrest
  | bool b =>
      cases b with
      | false =>
          exact operandBody_name ⟨'f', "alse".toList, rfl, rfl, List.all_eq_true.mp rfl⟩ hrest
      | true => exact operandBody_name ⟨'t', "rue".toList, rfl, rfl, List.all_eq_true.mp rfl⟩ hrest
  | int i =>
      have hdigits := isDigits_toDigits i.toInt.natAbs
      have hread := token_whole (decide (i.toInt < 0)) hdigits hrest
      rw [integerValue_toDigits] at hread
      rw [Value.literal, toList_intText, List.append_assoc]
      exact operandBody_number hdigits rfl hread
  | float x =>
      obtain ⟨hfinite, hback⟩ := hexact x rfl
      obtain ⟨negative, whole, fraction, htext, hwhole, hfraction⟩ :=
        Decimal.Layout.literal_text_eq hfinite
      have hread := token_fraction negative hwhole hfraction hrest
      rw [Decimal.Layout.ReadsBack, htext, Decimal.Layout.readText_eq hwhole] at hback
      rw [hback] at hread
      rw [Value.literal, String.toList_ofList, htext]
      simp only [List.append_assoc, List.cons_append]
      exact operandBody_number hwhole rfl hread
  | string s =>
      have hquoted : ∀ quote, quote = '\'' ∨ quote = '"' → quote ∉ s.toList →
          operandBody g e (quote :: (s.toList ++ quote :: rest)) =
            .accepted (.constant (.string s), rest) := by
        rintro quote (rfl | rfl) hs
        · rw [operandBody, List.head?_cons]
          simp only
          rw [token_quoted (Or.inl rfl) hs]
          rfl
        · rw [operandBody, List.head?_cons]
          simp only
          rw [token_quoted (Or.inr rfl) hs]
          rfl
      rw [Value.literal, Value.stringLiteral]
      split
      · next hcontains =>
        rw [List.contains_iff_mem] at hcontains
        have hs : '\'' ∉ s.toList := hvalue.resolve_left fun habsent => habsent hcontains
        have hchars : ("'" ++ s ++ "'").toList ++ rest = '\'' :: (s.toList ++ '\'' :: rest) := by
          simp only [String.toList_append, List.append_assoc]
          rfl
        rw [hchars]
        exact hquoted _ (Or.inl rfl) hs
      · next hcontains =>
        have hs : '"' ∉ s.toList := by
          intro hmem
          exact hcontains (List.contains_iff_mem.mpr hmem)
        have hchars : ("\"" ++ s ++ "\"").toList ++ rest = '"' :: (s.toList ++ '"' :: rest) := by
          simp only [String.toList_append, List.append_assoc]
          rfl
        rw [hchars]
        exact hquoted _ (Or.inr rfl) hs
  | object handle => exact absurd hvalue id

/-- What stands after a prefix symbol neither makes it longer nor a part of a number. -/
theorem separator_head (op : Operator) {operand : Formula} {c : Char} {cs : List Char}
    (hchars : operand.chars = c :: cs) (rest : List Char) :
    ∃ d ds, Formula.separator op operand ++ (operand.chars ++ rest) = d :: ds ∧ d ≠ '@' ∧
      (op.symbol.toList.getLast? = some '-' → d.isDigit = false) := by
  rw [Formula.separator]
  split
  · exact ⟨' ', operand.chars ++ rest, rfl, by decide, fun _ => rfl⟩
  · next hseparator =>
    have htext : operand.text.toList = c :: cs := hchars
    simp only [Operator.needsSeparator, htext, Bool.or_eq_true, Bool.and_eq_true, Bool.not_eq_true',
      beq_iff_eq, not_or, not_and, Bool.not_eq_false] at hseparator
    obtain ⟨hpunctuation, hminus⟩ := hseparator
    refine ⟨c, cs ++ rest, by rw [hchars]; rfl, ?_, fun hlast => ?_⟩
    · rintro rfl
      exact absurd (hpunctuation rfl) (by decide)
    · exact Bool.of_not_eq_true (hminus hlast)

theorem operandBody_rejected_of_head {c : Char} {cs : List Char}
    (hbracket : c ≠ '#' ∧ c ≠ '(' ∧ c ≠ '\'' ∧ c ≠ '"')
    (hnumber : c.isDigit = false ∧ c ≠ '-') (hname : isNameStart c = false) :
    operandBody g e (c :: cs) = .rejected := by
  rw [operandBody_default hbracket, token_number_rejected_of_ne hnumber.1 hnumber.2,
    token_name_rejected hname]
  rfl

theorem operandBody_rejected {c : Char} {cs : List Char} (hc : c = '@' ∨ c = '!') :
    operandBody g e (c :: cs) = .rejected := by
  rcases hc with rfl | rfl
  all_goals exact operandBody_rejected_of_head (by decide) (by decide) rfl

theorem operandBody_minus {cs : List Char} (hcs : ∀ c ∈ cs.head?, c.isDigit = false) :
    operandBody g e ('-' :: cs) = .rejected := by
  have hnumber : token Cursor.number? ('-' :: cs) = .rejected :=
    token_number_rejected true (fun h => absurd h (by decide)) hcs
  rw [operandBody_default (by decide), hnumber, token_name_rejected rfl]
  rfl

theorem not_starts_longer {op : Operator} {a b c : Char} (hsymbol : op.symbol.toList = [a, b])
    (hc : c ≠ b) (tail : List Char) : op.starts (a :: c :: tail) = false := by
  rw [Operator.starts, hsymbol, List.isPrefixOf_cons_cons, List.isPrefixOf_cons_cons,
    beq_eq_false_iff_ne.mpr hc.symm, Bool.false_and, Bool.and_false]

/-- A prefix operator is not taken for an operand, nor for a longer operator. -/
theorem prefixed_symbol (hstandard : g.operators = .standard) {op : Operator}
    (hop : op ∈ prefixes) {c : Char} (hat : op.symbol = "@" → c ≠ '@')
    (hminus : op.symbol = "-" → c.isDigit = false) (cs : List Char) :
    prefixed g e (op.symbol.toList ++ c :: cs) =
      (e prefixPriority (c :: cs)).bind
        fun (operand, rest) => .accepted (.node op [operand], rest) := by
  have hreads : operandBody g e (skipped (op.symbol.toList ++ c :: cs)) = .rejected ∧
      OperatorTable.standard.matchPrefix? (skipped (op.symbol.toList ++ c :: cs)) = some op ∧
      skipped (op.symbol.toList ++ c :: cs) = op.symbol.toList ++ c :: cs := by
    simp only [prefixes, List.mem_cons, List.not_mem_nil, or_false] at hop
    rcases hop with rfl | rfl | rfl | rfl
    · exact ⟨operandBody_rejected (Or.inl rfl), rfl, rfl⟩
    · exact ⟨operandBody_rejected (Or.inr rfl), rfl, rfl⟩
    · -- The longer `@@` is tried first.
      have hlonger : Operator.dump.starts ('@' :: c :: cs) = false :=
        not_starts_longer rfl (hat rfl) cs
      refine ⟨operandBody_rejected (Or.inl rfl), ?_, rfl⟩
      change OperatorTable.standard.matchPrefix? ('@' :: c :: cs) = some .log
      rw [OperatorTable.matchPrefix?, standard_prefixCandidates, prefixes, List.find?_cons, hlonger]
      rfl
    · refine ⟨operandBody_minus ?_, rfl, rfl⟩
      rintro d ⟨⟩
      exact hminus rfl
  obtain ⟨hoperand, hmatch, hskipped⟩ := hreads
  rw [prefixed, hoperand, Reply.resume_rejected, hstandard, hmatch, hskipped]
  simp only [drop_symbol]

/-- A prefix operator before the text of a formula. -/
theorem prefixed_operator (hstandard : g.operators = .standard) {op : Operator}
    (hop : op ∈ prefixes) {operand : Formula} {c : Char} {cs : List Char}
    (hchars : operand.chars = c :: cs) (rest : List Char) :
    prefixed g e (op.symbol.toList ++ (Formula.separator op operand ++ (operand.chars ++ rest))) =
      (e prefixPriority (Formula.separator op operand ++ (operand.chars ++ rest))).bind
        fun (operand, rest) => .accepted (.node op [operand], rest) := by
  obtain ⟨d, ds, htail, hat, hminus⟩ := separator_head op hchars rest
  rw [htail]
  refine prefixed_symbol hstandard hop (fun _ => hat) (fun hsymbol => hminus ?_) ds
  rw [hsymbol]
  rfl

end Silent

namespace OperatorTable

/-- An infix symbol between blanks is taken whole. -/
theorem matchInfix?_symbol {op : Operator} (hop : op ∈ infixes) (rest : List Char) :
    skipped (op.symbol.toList ++ ' ' :: rest) = op.symbol.toList ++ ' ' :: rest ∧
      standard.matchInfix? (op.symbol.toList ++ ' ' :: rest) = some op := by
  simp only [infixes, List.mem_cons, List.not_mem_nil, or_false] at hop
  rcases hop with rfl | rfl | rfl | rfl | rfl | rfl | rfl | rfl | rfl | rfl | rfl | rfl | rfl | rfl
  all_goals exact ⟨rfl, rfl⟩

theorem matchInfix?_point (rest : List Char) :
    standard.matchInfix? ('.' :: rest) = some .memberAccess := rfl

end OperatorTable

namespace Grammar

variable {g : Grammar}

/-- Nothing but infix operators that the formula releases can follow it here. -/
structure Awaits (g : Grammar) (f : Formula) (rest : List Char) : Prop where
  call : (skipped rest).head? ≠ some '('
  indexing : (skipped rest).head? ≠ some '['
  releases : ∀ op, g.operators.matchInfix? (skipped rest) = some op →
    op.form ≠ .dot ∧ Releases op f

/-- Reading goes on from a formula as far as the limit allows. -/
theorem extend_stops {f : Formula} {rest : List Char} (h : Awaits g f rest) {limit : Int32}
    (hrefuses : ∀ op, g.operators.matchInfix? (skipped rest) = some op →
      Refuses limit f.chained? op) (depth : Nat) :
    Silent.extend g depth limit f f.chained? rest = .accepted (f, rest) := by
  have hfollow : Silent.follow g (Silent.expression g depth) limit f f.chained? rest =
      .rejected := by
    rw [Silent.follow]
    simp only
    rw [if_neg h.call, if_neg h.indexing]
    cases hop : g.operators.matchInfix? (skipped rest) with
    | none => rfl
    | some op =>
        simp only
        rw [if_neg (h.releases op hop).1]
        by_cases hlimit : limit < op.priority
        · rw [if_pos hlimit]
        · rw [if_neg hlimit, if_pos ((hrefuses op hop).resolve_left hlimit)]
  rw [Silent.extend_eq, hfollow]
  rfl

/-- What is left starts with a character that closes or separates, or nothing is left. -/
def Closes (rest : List Char) : Prop :=
  rest = [] ∨ ∃ c tail, rest = c :: tail ∧ (c = ')' ∨ c = ']' ∨ c = ',')

theorem closes_cons {close : Char} (hclose : close = ')' ∨ close = ']') (rest : List Char) :
    Closes (close :: rest) := by
  rcases hclose with rfl | rfl
  · exact Or.inr ⟨_, _, rfl, Or.inl rfl⟩
  · exact Or.inr ⟨_, _, rfl, Or.inr (Or.inl rfl)⟩

theorem closes_comma (rest : List Char) : Closes (',' :: rest) :=
  Or.inr ⟨_, _, rfl, Or.inr (Or.inr rfl)⟩

theorem ne_comma {close : Char} (hclose : close = ')' ∨ close = ']') : close ≠ ',' := by
  rcases hclose with rfl | rfl <;> decide

theorem Closes.skipped_eq {rest : List Char} (h : Closes rest) : skipped rest = rest := by
  rcases h with rfl | ⟨c, tail, rfl, rfl | rfl | rfl⟩ <;> rfl

theorem Closes.bounded {rest : List Char} (h : Closes rest) : Bounded rest := by
  rcases h with rfl | ⟨c, tail, rfl, rfl | rfl | rfl⟩
  · exact bounded_nil
  · exact bounded_cons rfl (by decide)
  · exact bounded_cons rfl (by decide)
  · exact bounded_cons rfl (by decide)

theorem Closes.matchInfix? {rest : List Char} (h : Closes rest) :
    OperatorTable.standard.matchInfix? (skipped rest) = none := by
  rcases h with rfl | ⟨c, tail, rfl, rfl | rfl | rfl⟩ <;> rfl

theorem Closes.awaits (hstandard : g.operators = .standard) {rest : List Char} (h : Closes rest)
    (f : Formula) : Awaits g f rest := by
  refine ⟨?_, ?_, fun op hop => ?_⟩
  · rcases h with rfl | ⟨c, tail, rfl, rfl | rfl | rfl⟩ <;> rintro ⟨⟩
  · rcases h with rfl | ⟨c, tail, rfl, rfl | rfl | rfl⟩ <;> rintro ⟨⟩
  · rw [hstandard, h.matchInfix?] at hop
    cases hop

/-- The text of a formula is read as the formula, and reading goes on from it. -/
def Completes (g : Grammar) : Rank → Formula → Prop
  | .primary, f => ∀ depth limit rest, f.depth ≤ depth + 1 → Bounded rest →
      Silent.expression g (depth + 1) limit (f.chars ++ rest) =
        Silent.extend g depth limit f none rest
  | .upTo bound, f => ∀ depth limit rest, f.depth ≤ depth + 1 → bound ≤ limit → Bounded rest →
      Awaits g f rest →
      Silent.expression g (depth + 1) limit (f.chars ++ rest) =
        Silent.extend g depth limit f f.chained? rest

/-- What is asked of the operands when a node is read. -/
theorem depth_le_of_mem {f operand : Formula} {depth : Nat} (hdepth : f.depth ≤ depth + 1)
    (hmem : operand ∈ f.operands) : operand.depth ≤ depth := by
  obtain ⟨i, hoperand⟩ := List.getElem?_of_mem hmem
  have hlt := Formula.depth_lt_of_operand hoperand
  omega

theorem depth_pos (f : Formula) : 0 < f.depth := by
  cases f <;> rw [Formula.depth] <;> omega

/-- An expression is read up to what closes it. -/
theorem Completes.closed (hstandard : g.operators = .standard) {f : Formula} {bound : Int32}
    (h : Completes g (.upTo bound) f) {depth : Nat} {limit : Int32} (hdepth : f.depth ≤ depth)
    (hlimit : bound ≤ limit) {rest : List Char} (hrest : Closes rest) :
    Silent.expression g depth limit (f.chars ++ rest) = .accepted (f, rest) := by
  have hpos := depth_pos f
  obtain ⟨depth, rfl⟩ : ∃ n, depth = n + 1 := ⟨depth - 1, by omega⟩
  rw [h depth limit rest hdepth hlimit hrest.bounded (hrest.awaits hstandard f)]
  refine extend_stops (hrest.awaits hstandard f) (fun op hop => ?_) depth
  rw [hstandard, hrest.matchInfix?] at hop
  cases hop

/-- What is asked of an operand that is read as an expression of its own. -/
structure Readable (g : Grammar) (depth : Nat) (f : Formula) : Prop where
  depth_le : f.depth ≤ depth
  completes : Completes g (.upTo topLimit) f
  head : ∃ c cs, f.chars = c :: cs ∧ isOperandStart c = true

section Lists

variable {close : Char} {fs : List Formula} {depth : Nat}

/-- The text of a list is read as the list. -/
theorem argumentsFrom_complete (hstandard : g.operators = .standard)
    (hclose : close = ')' ∨ close = ']') (hne : fs ≠ [])
    (hfs : ∀ f ∈ fs, Readable g depth f) {fuel : Nat}
    (hfuel : (Formula.listChars fs).length < fuel) (rest : List Char) :
    Silent.argumentsFrom (Silent.expression g depth) close fuel
      (Formula.listChars fs ++ close :: rest) = .accepted (fs, rest) := by
  have hcloses := closes_cons hclose rest
  induction fs generalizing fuel with
  | nil => exact absurd rfl hne
  | cons f others ih =>
      obtain ⟨hdepth, hcompletes, -⟩ := hfs f List.mem_cons_self
      obtain ⟨fuel, rfl⟩ : ∃ n, fuel = n + 1 := ⟨fuel - 1, by omega⟩
      cases others with
      | nil =>
          rw [Formula.listChars]
          exact Silent.argumentsFrom_last (ne_comma hclose)
            (hcompletes.closed hstandard hdepth (Int32.le_refl _) hcloses) hcloses.skipped_eq
      | cons next others =>
          rw [Formula.listChars, List.append_assoc, List.cons_append, List.cons_append]
          have hseparates := closes_comma (' ' :: (Formula.listChars (next :: others) ++
            close :: rest))
          have hfuel' : (Formula.listChars (next :: others)).length < fuel := by
            rw [Formula.listChars, List.length_append, List.length_cons, List.length_cons] at hfuel
            omega
          refine Silent.argumentsFrom_comma
            (hcompletes.closed hstandard hdepth (Int32.le_refl _) hseparates)
            hseparates.skipped_eq ?_
          rw [Silent.argumentsFrom_space]
          exact ih (List.cons_ne_nil _ _)
            (fun other hother => hfs other (List.mem_cons_of_mem f hother)) hfuel'

theorem arguments_complete (hstandard : g.operators = .standard)
    (hclose : close = ')' ∨ close = ']') {allowEmpty : Bool} (hne : allowEmpty = false → fs ≠ [])
    (hfs : ∀ f ∈ fs, Readable g depth f) (rest : List Char) :
    Silent.arguments (Silent.expression g depth) close allowEmpty
      (Formula.listChars fs ++ close :: rest) = .accepted (fs, rest) := by
  have hstart : isOperandStart close = false ∧ isBlank close = false := by
    rcases hclose with rfl | rfl <;> decide
  cases fs with
  | nil =>
      have hallow : allowEmpty = true := Bool.of_not_eq_false fun h => hne h rfl
      rw [Silent.arguments, Formula.listChars, List.nil_append, skipped_of_head hstart.2,
        if_pos ⟨hallow, rfl⟩]
      rfl
  | cons f others =>
      obtain ⟨c, cs, hhead, hc⟩ : ∃ c cs, Formula.listChars (f :: others) = c :: cs ∧
          isOperandStart c = true := by
        obtain ⟨c, cs, hchars, hc⟩ := (hfs f List.mem_cons_self).head
        cases others with
        | nil => exact ⟨c, cs, by rw [Formula.listChars, hchars], hc⟩
        | cons next others => exact ⟨c, _, by rw [Formula.listChars, hchars]; rfl, hc⟩
      have hblank : skipped (Formula.listChars (f :: others) ++ close :: rest) =
          Formula.listChars (f :: others) ++ close :: rest := by
        rw [hhead, List.cons_append, skipped_of_head (isBlank_of_isOperandStart hc)]
      -- The first formula does not start with the closing bracket, so the list is not empty.
      have hopen : ¬(allowEmpty = true ∧
          (Formula.listChars (f :: others) ++ close :: rest).head? = some close) := by
        rw [hhead]
        rintro ⟨-, ⟨⟩⟩
        rw [hc] at hstart
        cases hstart.1
      rw [Silent.arguments, hblank, if_neg hopen]
      refine argumentsFrom_complete hstandard hclose (List.cons_ne_nil _ _) hfs ?_ rest
      rw [List.length_append]
      omega

end Lists

theorem extend_grows {depth : Nat} {limit : Int32} {left f : Formula} {chained c : Option Int32}
    {cs rest : List Char}
    (h : Silent.Growth g (Silent.expression g depth) limit left chained cs f c rest) :
    Silent.extend g depth limit left chained cs = Silent.extend g depth limit f c rest := by
  rw [Silent.extend_eq, Silent.follow_eq_accepted_iff.mpr h]
  rfl

/-- An operand that is read before anything can follow it. -/
theorem expression_operand {f : Formula} {c : Char} {cs rest : List Char}
    (hchars : f.chars = c :: cs) (hc : isOperandStart c = true) {depth : Nat} (limit : Int32)
    (hbody : Silent.operandBody g (Silent.expression g depth) (f.chars ++ rest) =
      .accepted (f, rest)) :
    Silent.expression g (depth + 1) limit (f.chars ++ rest) =
      Silent.extend g depth limit f none rest := by
  have hblank : skipped (f.chars ++ rest) = f.chars ++ rest := by
    rw [hchars, List.cons_append, skipped_of_head (isBlank_of_isOperandStart hc)]
  rw [Silent.expression_succ, Silent.prefixed_eq_of_operandBody (by rw [hblank, hbody])]
  rfl

theorem bounded_point {name : String} (hname : IsName name) (rest : List Char) :
    Bounded ('.' :: (name.toList ++ rest)) := by
  obtain ⟨c, cs, hchars, hstart, -⟩ := hname
  refine ⟨?_, fun tail htail => ?_⟩
  · rintro d ⟨⟩
    rfl
  · obtain ⟨-, rfl⟩ := List.cons.inj htail
    rw [hchars]
    rintro d ⟨⟩
    exact (Silent.isDigit_of_isNameStart hstart).1

theorem bounded_member (cs : List Char) {name : String} (hname : IsName name) (rest : List Char) :
    Bounded ('.' :: (blanks cs ++ (name.toList ++ rest))) := by
  refine ⟨?_, fun tail htail => ?_⟩
  · rintro c ⟨⟩
    rfl
  · obtain ⟨-, rfl⟩ := List.cons.inj htail
    cases hblanks : blanks cs with
    | nil => exact (bounded_point hname rest).2 _ rfl
    | cons c tail =>
        rcases eq_of_blanks hblanks with rfl | rfl <;> rintro d ⟨⟩ <;> rfl

theorem skipped_name {name : String} (hname : IsName name) (rest : List Char) :
    skipped (name.toList ++ rest) = name.toList ++ rest := by
  obtain ⟨c, cs, hchars, hstart, -⟩ := hname
  rw [hchars, List.cons_append,
    skipped_of_head (isBlank_of_isOperandStart (isOperandStart_of_isNameStart hstart))]

/-- A point and a name follow any operand. -/
theorem growth_member (hstandard : g.operators = .standard) {e : Int32 → Silent Formula}
    {name : String} (hname : IsName name) (cs after : List Char) {rest : List Char}
    (hrest : Bounded rest) (limit : Int32) (left : Formula) (chained : Option Int32) :
    Silent.Growth g e limit left chained
      (blanks cs ++ '.' :: (blanks after ++ (name.toList ++ rest)))
      (.node .memberAccess [left, .identifier name]) chained rest := by
  have hskip := skipped_blanks_cons cs (c := '.') rfl (blanks after ++ (name.toList ++ rest))
  have hop : g.operators.matchInfix? (skipped (blanks cs ++ '.' :: (blanks after ++
      (name.toList ++ rest)))) = some .memberAccess := by rw [hskip, hstandard, matchInfix?_point]
  obtain ⟨hcall, hindex⟩ := head?_of_matchInfix? (hstandard ▸ hop)
  refine .member hcall hindex hop rfl ?_
  rw [hskip]
  change Silent.token Cursor.identifier? (skipped (blanks after ++ (name.toList ++ rest))) = _
  rw [skipped_blanks_append, skipped_name hname, Silent.token_name hname hrest.1]

/-- A member access takes the name after the point. -/
theorem extend_member (hstandard : g.operators = .standard) {target : Formula} {name : String}
    (hname : IsName name) {rest : List Char} (hrest : Bounded rest) (depth : Nat) (limit : Int32) :
    Silent.extend g depth limit target none ('.' :: (name.toList ++ rest)) =
      Silent.extend g depth limit (.node .memberAccess [target, .identifier name]) none rest :=
  extend_grows (growth_member hstandard hname [] [] hrest limit target none)

/-- A call takes the list up to the closing parenthesis. -/
theorem extend_call {depth : Nat} {callee f : Formula} {cs rest : List Char}
    (hcall : Silent.call g (Silent.expression g depth) callee cs = .accepted (f, rest))
    (limit : Int32) :
    Silent.extend g depth limit callee none ('(' :: cs) =
      Silent.extend g depth limit f none rest :=
  extend_grows (.call rfl hcall)

theorem extend_indexing {depth : Nat} {target f : Formula} {cs rest : List Char}
    (hindexing : Silent.indexing g (Silent.expression g depth) target cs = .accepted (f, rest))
    (limit : Int32) :
    Silent.extend g depth limit target none ('[' :: cs) =
      Silent.extend g depth limit f none rest :=
  extend_grows (.indexing rfl hindexing)

/-- An infix operator between blanks takes the operand on its right. -/
theorem extend_infix (hstandard : g.operators = .standard) {op : Operator} (hop : op ∈ infixes)
    {depth : Nat} {limit : Int32} (hlimit : op.priority ≤ limit) {left right : Formula}
    (hchained : ¬(op.associativity = .nonAssociative ∧ left.chained? = some op.priority))
    {cs rest : List Char}
    (hright : Silent.expression g depth op.rightLimit cs = .accepted (right, rest)) :
    Silent.extend g depth limit left left.chained? (' ' :: (op.symbol.toList ++ ' ' :: cs)) =
      Silent.extend g depth limit (.node op [left, right]) (Formula.node op [left, right]).chained?
        rest := by
  obtain ⟨hblank, hmatch⟩ := matchInfix?_symbol hop cs
  obtain ⟨hcall, hindex⟩ := head?_of_matchInfix? hmatch
  have hdot := form_ne_dot_of_mem_infixes hop
  rw [Formula.chained?_infix hop]
  refine extend_grows (.infixed ?_ ?_ ?_ hdot hlimit hchained ?_)
  · rw [skipped_space, hblank]
    exact hcall
  · rw [skipped_space, hblank]
    exact hindex
  · rw [skipped_space, hblank, hstandard, hmatch]
  · rw [skipped_space, hblank, drop_symbol, Silent.expression_space, hright]

namespace Completes

variable {rest : List Char}

theorem constant {value : Value} (hvalue : value.IsWritable)
    (hexact : (Formula.constant value).Exact) : Completes g .primary (.constant value) := by
  intro depth limit rest hdepth hrest
  have hexactly : ∀ x, value = .float x → x.isFinite ∧ Decimal.Layout.ReadsBack x := by
    rintro x rfl
    exact hexact [] x (Formula.descendant?_nil _)
  have hderives : Derives g .primary (.constant value) := .constant hvalue
  obtain ⟨c, cs, hchars, hc⟩ := hderives.chars_head hexact
  refine expression_operand hchars hc limit ?_
  rw [Formula.chars_constant]
  exact Silent.operandBody_constant hvalue hexactly hrest

theorem identifier {name : String} (hname : IsName name) (hkeyword : keyword? name = none) :
    Completes g .primary (.identifier name) := by
  intro depth limit rest hdepth hrest
  obtain ⟨c, cs, hchars, hstart, -⟩ := id hname
  have hhead : (Formula.identifier name).chars = c :: cs := by rw [Formula.chars_identifier, hchars]
  refine expression_operand hhead (isOperandStart_of_isNameStart hstart) limit ?_
  rw [Formula.chars_identifier, Silent.operandBody_name hname hrest, wordFormula, hkeyword]

theorem precompiled {found : Precompiled Formula}
    (hfound : g.functions.precompiled? found.name = some found) (hname : IsName found.name) :
    Completes g .primary (.precompiled found) := by
  intro depth limit rest hdepth hrest
  refine expression_operand (Formula.chars_precompiled found) rfl limit ?_
  rw [Formula.chars_precompiled, List.cons_append, Silent.operandBody, List.head?_cons]
  simp only [Silent.precompiled, List.head?_cons, if_true, List.tail_cons,
    Silent.token_name hname hrest.1, Reply.bind_accepted, hfound]

theorem parenthesis (hstandard : g.operators = .standard) {inner : Formula}
    (h : Completes g (.upTo topLimit) inner) : Completes g .primary (.node .grouping [inner]) := by
  intro depth limit rest hdepth hrest
  have hcloses : Closes (')' :: rest) := Or.inr ⟨_, _, rfl, Or.inl rfl⟩
  have hread :=
    h.closed hstandard (depth_le_of_mem hdepth List.mem_cons_self) (Int32.le_refl _) hcloses
  have hclose : skipped (')' :: rest) = ')' :: rest := rfl
  refine expression_operand Formula.chars_parenthesis rfl limit ?_
  rw [Formula.chars_parenthesis, List.cons_append, List.append_assoc, List.cons_append,
    List.nil_append, Silent.operandBody, List.head?_cons]
  simp only [Silent.parenthesis, hstandard, structural_parenthesis, List.head?_cons, if_true,
    List.tail_cons, hread, Reply.bind_accepted, hclose]

theorem member (hstandard : g.operators = .standard) {target : Formula} {name : String}
    (h : Completes g .primary target) (hname : IsName name) :
    Completes g .primary (.node .memberAccess [target, .identifier name]) := by
  intro depth limit rest hdepth hrest
  have htarget := depth_le_of_mem hdepth List.mem_cons_self
  rw [Formula.chars_member, List.append_assoc, List.cons_append,
    h depth limit _ (by omega) (bounded_point hname rest), extend_member hstandard hname hrest]

theorem functionCall (hstandard : g.operators = .standard) {name : String}
    {arguments : List Formula} (hname : IsName name) (hkeyword : keyword? name = none)
    (harguments : ∀ depth, (∀ argument ∈ arguments, argument.depth ≤ depth) →
      ∀ argument ∈ arguments, Readable g depth argument) :
    Completes g .primary
      (.apply .functionCall (g.functions.function? name) (.identifier name :: arguments)) := by
  intro depth limit rest hdepth hrest
  have hall := harguments depth fun argument hargument =>
    depth_le_of_mem hdepth (List.mem_cons_of_mem _ hargument)
  have hread : Silent.arguments (Silent.expression g depth) ')' true
      (Formula.listChars arguments ++ ')' :: rest) = .accepted (arguments, rest) :=
    arguments_complete hstandard (Or.inl rfl) (fun h => absurd h (by decide)) hall rest
  have hcall : Silent.call g (Silent.expression g depth) (.identifier name)
      (Formula.listChars arguments ++ ')' :: rest) =
        .accepted (.apply .functionCall (g.functions.function? name)
          (.identifier name :: arguments), rest) := by
    simp only [Silent.call, callShape, hstandard, structural_functionCall, hread,
      Reply.bind_accepted]
  have hcallee := depth_le_of_mem hdepth List.mem_cons_self
  rw [Formula.chars_functionCall, List.append_assoc, List.cons_append, List.append_assoc,
    List.cons_append, List.nil_append, ← Formula.chars_identifier,
    identifier hname hkeyword depth limit _ (by omega) (bounded_cons rfl (by decide)),
    extend_call hcall]

theorem methodCall (hstandard : g.operators = .standard) {target : Formula} {name : String}
    {arguments : List Formula} (h : Completes g .primary target) (hname : IsName name)
    (harguments : ∀ depth, (∀ argument ∈ arguments, argument.depth ≤ depth) →
      ∀ argument ∈ arguments, Readable g depth argument) :
    Completes g .primary (.node .methodCall (target :: .identifier name :: arguments)) := by
  intro depth limit rest hdepth hrest
  have hall := harguments depth fun argument hargument =>
    depth_le_of_mem hdepth (List.mem_cons_of_mem _ (List.mem_cons_of_mem _ hargument))
  have hread : Silent.arguments (Silent.expression g depth) ')' true
      (Formula.listChars arguments ++ ')' :: rest) = .accepted (arguments, rest) :=
    arguments_complete hstandard (Or.inl rfl) (fun h => absurd h (by decide)) hall rest
  have hcall : Silent.call g (Silent.expression g depth)
      (.node .memberAccess [target, .identifier name])
      (Formula.listChars arguments ++ ')' :: rest) =
        .accepted (.node .methodCall (target :: .identifier name :: arguments), rest) := by
    simp only [Silent.call, callShape, Formula.node, Operator.memberAccess, Operator.structural,
      if_true, hstandard, structural_methodCall, hread, Reply.bind_accepted]
    rfl
  have htarget := depth_le_of_mem hdepth List.mem_cons_self
  have hparenthesis : Bounded ('(' :: (Formula.listChars arguments ++ ')' :: rest)) :=
    bounded_cons rfl (by decide)
  rw [Formula.chars_methodCall, List.append_assoc, List.cons_append, List.append_assoc,
    List.cons_append, List.append_assoc, List.cons_append, List.nil_append,
    h depth limit _ (by omega) (bounded_point hname _),
    extend_member hstandard hname hparenthesis, extend_call hcall]

theorem indexing (hstandard : g.operators = .standard) {target : Formula} {indices : List Formula}
    (h : Completes g .primary target) (hne : indices ≠ [])
    (hindices : ∀ depth, (∀ index ∈ indices, index.depth ≤ depth) →
      ∀ index ∈ indices, Readable g depth index) :
    Completes g .primary (.node .indexing (target :: indices)) := by
  intro depth limit rest hdepth hrest
  have hall := hindices depth fun index hindex =>
    depth_le_of_mem hdepth (List.mem_cons_of_mem _ hindex)
  have hread : Silent.arguments (Silent.expression g depth) ']' false
      (Formula.listChars indices ++ ']' :: rest) = .accepted (indices, rest) :=
    arguments_complete hstandard (Or.inr rfl) (fun _ => hne) hall rest
  have hindexing : Silent.indexing g (Silent.expression g depth) target
      (Formula.listChars indices ++ ']' :: rest) =
        .accepted (.node .indexing (target :: indices), rest) := by
    simp only [Silent.indexing, hstandard, structural_indexer, hread, Reply.bind_accepted]
  have htarget := depth_le_of_mem hdepth List.mem_cons_self
  rw [Formula.chars_indexing, List.append_assoc, List.cons_append, List.append_assoc,
    List.cons_append, List.nil_append,
    h depth limit _ (by omega) (bounded_cons rfl (by decide)), extend_indexing hindexing]

/-- Whatever may follow an operand at the right edge may follow it by itself. -/
theorem awaits_last {f operand : Formula} {limit : Int32} {rest : List Char} (h : Awaits g f rest)
    (hlast : f.lastOperand? = some (limit, operand)) :
    Awaits g operand rest ∧ ∀ op, g.operators.matchInfix? (skipped rest) = some op →
      Refuses limit operand.chained? op := by
  have hreleases : ∀ op, g.operators.matchInfix? (skipped rest) = some op →
      Refuses limit operand.chained? op ∧ Releases op operand := by
    intro op hop
    cases (h.releases op hop).2 with
    | closed hclosed =>
        rw [hlast] at hclosed
        cases hclosed
    | last hlast' hrefuses hoperand =>
        rw [hlast] at hlast'
        cases hlast'
        exact ⟨hrefuses, hoperand⟩
  exact ⟨⟨h.call, h.indexing, fun op hop => ⟨(h.releases op hop).1, (hreleases op hop).2⟩⟩,
    fun op hop => (hreleases op hop).1⟩

/-- The operand at the right edge is read up to where the formula ends. -/
theorem last {f operand : Formula} {limit : Int32} (h : Completes g (.upTo limit) operand)
    {rest : List Char} (hrest : Bounded rest) (hawaits : Awaits g f rest)
    (hlast : f.lastOperand? = some (limit, operand)) {depth : Nat}
    (hdepth : operand.depth ≤ depth) :
    Silent.expression g depth limit (operand.chars ++ rest) = .accepted (operand, rest) := by
  obtain ⟨hoperand, hrefuses⟩ := awaits_last hawaits hlast
  have hpos := depth_pos operand
  obtain ⟨depth, rfl⟩ : ∃ n, depth = n + 1 := ⟨depth - 1, by omega⟩
  rw [h depth limit rest hdepth (Int32.le_refl _) hrest hoperand, extend_stops hoperand hrefuses]

theorem prefixed (hstandard : g.operators = .standard) {op : Operator} {operand : Formula}
    {bound : Int32} (hop : op ∈ prefixes) (h : Completes g (.upTo prefixPriority) operand)
    {c : Char} {cs : List Char} (hchars : operand.chars = c :: cs) :
    Completes g (.upTo bound) (.node op [operand]) := by
  intro depth limit rest hdepth hlimit hrest hawaits
  have hread := h.last hrest hawaits (Formula.lastOperand?_prefix hop)
    (depth_le_of_mem hdepth List.mem_cons_self)
  have hseparated : Silent.expression g depth prefixPriority
      (Formula.separator op operand ++ (operand.chars ++ rest)) = .accepted (operand, rest) := by
    rw [Formula.separator]
    split
    · rw [List.singleton_append, Silent.expression_space, hread]
    · rw [List.nil_append, hread]
  rw [Formula.chars_prefix hop, Formula.chained?_prefix hop, List.append_assoc, List.append_assoc,
    Silent.expression_succ, Silent.prefixed_operator hstandard hop hchars, hseparated]
  rfl

theorem infixed (hstandard : g.operators = .standard) {op : Operator} {left right : Formula}
    {bound : Int32} (hop : op ∈ infixes) (hbound : op.priority ≤ bound)
    (hleft : Completes g (.upTo bound) left)
    (hchained : ¬(op.associativity = .nonAssociative ∧ left.chained? = some op.priority))
    (hreleases : Releases op left) (hright : Completes g (.upTo op.rightLimit) right) :
    Completes g (.upTo bound) (.node op [left, right]) := by
  intro depth limit rest hdepth hlimit hrest hawaits
  have hread := hright.last hrest hawaits (Formula.lastOperand?_infix hop)
    (depth_le_of_mem hdepth (List.mem_cons_of_mem _ List.mem_cons_self))
  have hdepthleft := depth_le_of_mem hdepth (List.mem_cons_self (a := left))
  obtain ⟨hblank, hmatch⟩ := matchInfix?_symbol hop (right.chars ++ rest)
  obtain ⟨hcall, hindex⟩ := head?_of_matchInfix? hmatch
  -- The operator is what follows the operand on the left, and it is released there.
  have hnext : Awaits g left (' ' :: (op.symbol.toList ++ ' ' :: (right.chars ++ rest))) := by
    refine ⟨?_, ?_, fun next hnext => ?_⟩
    · rw [skipped_space, hblank]
      exact hcall
    · rw [skipped_space, hblank]
      exact hindex
    · rw [skipped_space, hblank, hstandard, hmatch] at hnext
      cases hnext
      exact ⟨form_ne_dot_of_mem_infixes hop, hreleases⟩
  have hreadleft := hleft depth limit _ (by omega) hlimit
    (bounded_cons rfl (by decide)) hnext
  rw [Formula.chars_infix hop, List.append_assoc, List.cons_append, List.append_assoc,
    List.cons_append, hreadleft,
    extend_infix hstandard hop (Int32.le_trans hbound hlimit) hchained hread]

end Completes

/-- The text of every derived formula is read as the formula. -/
theorem Derives.completes (hstandard : g.operators = .standard) {rank : Rank} {f : Formula}
    (h : Derives g rank f) (hexact : f.Exact) : Completes g rank f := by
  induction h with
  | constant hvalue => exact .constant hvalue hexact
  | identifier hname hkeyword => exact .identifier hname hkeyword
  | precompiled hfound hname => exact .precompiled hfound hname
  | parenthesis hinner ih => exact .parenthesis hstandard (ih (hexact.operand List.mem_cons_self))
  | member htarget hname ih =>
      exact .member hstandard (ih (hexact.operand List.mem_cons_self)) hname
  | functionCall hname hkeyword harguments ih =>
      refine .functionCall hstandard hname hkeyword fun depth hdepth argument hmem => ?_
      have hargument := hexact.operand (List.mem_cons_of_mem _ hmem)
      exact ⟨hdepth argument hmem, ih argument hmem hargument,
        (harguments argument hmem).chars_head hargument⟩
  | methodCall htarget hname harguments ihtarget ih =>
      refine .methodCall hstandard (ihtarget (hexact.operand List.mem_cons_self)) hname
        fun depth hdepth argument hmem => ?_
      have hargument := hexact.operand (List.mem_cons_of_mem _ (List.mem_cons_of_mem _ hmem))
      exact ⟨hdepth argument hmem, ih argument hmem hargument,
        (harguments argument hmem).chars_head hargument⟩
  | indexing htarget hne hall ihtarget ih =>
      refine .indexing hstandard (ihtarget (hexact.operand List.mem_cons_self)) hne
        fun depth hdepth index hmem => ?_
      have hindex := hexact.operand (List.mem_cons_of_mem _ hmem)
      exact ⟨hdepth index hmem, ih index hmem hindex, (hall index hmem).chars_head hindex⟩
  | atom hf ih =>
      intro depth limit rest hdepth hlimit hrest hawaits
      rw [hf.chained?_eq_none]
      exact ih hexact depth limit rest hdepth hrest
  | prefixed hop hoperand ih =>
      have hoperandexact := hexact.operand List.mem_cons_self
      obtain ⟨c, cs, hchars, -⟩ := hoperand.chars_head hoperandexact
      exact .prefixed hstandard hop (ih hoperandexact) hchars
  | infixed hop hlimit hleft hchained hreleases hright ihleft ihright =>
      exact .infixed hstandard hop hlimit (ihleft (hexact.operand List.mem_cons_self)) hchained
        hreleases (ihright (hexact.operand (List.mem_cons_of_mem _ List.mem_cons_self)))

/-- The text of a derived formula holds that formula. -/
theorem Derives.read_text (hstandard : g.operators = .standard) {f : Formula}
    (h : Derives g (.upTo topLimit) f) (hexact : f.Exact) : g.read f.text = .ok f := by
  obtain ⟨c, cs, hchars, hc⟩ := h.chars_head hexact
  have hblank : skipped f.chars = f.chars := by
    rw [hchars, skipped_of_head (isBlank_of_isOperandStart hc)]
  have hdepth : f.depth ≤ f.chars.length + 1 := Nat.le_succ_of_le (h.depth_le_length hexact)
  have hread :=
    (h.completes hstandard hexact).closed hstandard hdepth (Int32.le_refl _) (Or.inl rfl)
  refine g.read_eq_ok_iff.mpr ⟨?_, [], rfl, ?_⟩
  · change skipped f.chars ≠ []
    rw [hblank, hchars]
    exact List.cons_ne_nil _ _
  · change Silent.expression g (f.chars.length + 1) topLimit (skipped f.chars) = _
    rw [hblank, ← hread, List.append_nil]

/-- The text of every formula that is read holds the same formula again: the same tree with the
same operators, names, bindings and constants. Of the doubles in it that are finite it is asked that
their literals read back as them. -/
theorem read_text_of_read (hstandard : g.operators = .standard) {text : String} {f : Formula}
    (h : g.read text = .ok f) (hexact : f.Exact) :
    g.read f.text = .ok f ∧ ∀ again, g.read f.text = .ok again → again.text = f.text := by
  have hread := (derives_of_read hstandard h).read_text hstandard hexact
  refine ⟨hread, fun again hagain => ?_⟩
  rw [hread] at hagain
  cases hagain
  rfl

theorem exact_sum : Formula.Exact (.node .addition [.constant (.float 2.5), .identifier "a"]) := by
  have hfloat : Formula.Exact (.constant (.float 2.5)) := by
    refine Formula.exact_constant ?_
    rintro x ⟨⟩
    unfold Decimal.Layout.ReadsBack
    decide +kernel
  exact Formula.exact_apply (List.forall_mem_cons.mpr
    ⟨hfloat, List.forall_mem_singleton.mpr (Formula.exact_identifier "a")⟩)

theorem read_sum :
    standard.read "2.5 + a" = .ok (.node .addition [.constant (.float 2.5), .identifier "a"]) := by
  have hname : IsName "a" := ⟨'a', [], rfl, rfl, fun _ hc => by cases hc⟩
  have hleft : Derives standard .primary (.constant (.float 2.5)) := .constant trivial
  have hright : Derives standard .primary (.identifier "a") := .identifier hname rfl
  have hderives : Derives standard (.upTo topLimit)
      (.node .addition [.constant (.float 2.5), .identifier "a"]) :=
    .infixed (by simp [infixes]) (by decide) (.atom hleft) (fun hnon => absurd hnon.1 (by decide))
      (hleft.releases _) (.atom hright)
  have htext : (Formula.node .addition [.constant (.float 2.5), .identifier "a"]).text =
      "2.5 + a" := by decide +kernel
  rw [← htext]
  exact hderives.read_text rfl exact_sum

theorem read_text_of_sum :
    let f : Formula := .node .addition [.constant (.float 2.5), .identifier "a"]
    standard.operators = .standard ∧ standard.read "2.5 + a" = .ok f ∧ f.Exact ∧
      standard.read f.text = .ok f :=
  ⟨rfl, read_sum, exact_sum, (read_text_of_read rfl read_sum exact_sum).1⟩

end Grammar

end Formulary
