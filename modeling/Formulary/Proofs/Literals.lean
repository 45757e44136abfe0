import Formulary.Decimal.Layout
import Formulary.Proofs.Precedence

/-! # Literals and names read back

A token is taken as long as it can be, so that it reads back wherever the character after it cannot
belong to it. That the shortest digits of a double read back as the double is a property of the
conversion alone, stated for each double as `Layout.ReadsBack`.
-/

namespace Formulary

theorem takeWhile_append_stop {p : Char → Bool} {cs rest : List Char} (hcs : ∀ c ∈ cs, p c = true)
    (hrest : ∀ c ∈ rest.head?, p c = false) : (cs ++ rest).takeWhile p = cs := by
  rw [List.takeWhile_append_of_pos hcs]
  cases rest with
  | nil => rw [List.takeWhile_nil, List.append_nil]
  | cons c rest =>
      have hc : ¬p c = true := by simp only [hrest c rfl, Bool.false_eq_true, not_false_iff]
      rw [List.takeWhile_cons_of_neg hc, List.append_nil]

/-- What stands before the first occurrence of a character. -/
theorem takeWhile_ne {quote : Char} {content rest : List Char} (h : quote ∉ content) :
    (content ++ quote :: rest).takeWhile (· != quote) = content := by
  refine takeWhile_append_stop (fun c hc => ?_) ?_
  · rw [bne_iff_ne]
    rintro rfl
    exact h hc
  · rintro c ⟨⟩
    exact bne_self_eq_false _

/-- Digits, at least one of them. -/
def IsDigits (cs : List Char) : Prop := cs ≠ [] ∧ ∀ c ∈ cs, c.isDigit = true

theorem isDigits_toDigits (n : Nat) : IsDigits (Nat.toDigits 10 n) :=
  ⟨Nat.toDigits_ne_nil, fun _ => Nat.isDigit_of_mem_toDigits (by decide) (by decide)⟩

theorem digitsValue_toDigits (n : Nat) : digitsValue (Nat.toDigits 10 n) = n := by
  have h := Nat.ofDigitChars_ten_toDigits (n := n)
  rw [Nat.ofDigitChars_eq_foldl] at h
  exact h

/-- A minus sign, if there is one. -/
def signChars (negative : Bool) : List Char := if negative then ['-'] else []

theorem toList_intText (i : Int64) :
    (Value.intText i).toList =
      signChars (decide (i.toInt < 0)) ++ Nat.toDigits 10 i.toInt.natAbs := by
  rw [Value.intText]
  change (Int.repr i.toInt).toList = _
  cases i.toInt with
  | ofNat n => exact Nat.toList_repr
  | negSucc n =>
      rw [Int.repr, String.toList_append, Nat.toList_repr, signChars,
        decide_eq_true (Int.negSucc_lt_zero n), if_pos rfl]
      rfl

namespace Decimal.Layout

/-- The double that the digits of a text stand for. -/
def readText (text : List Char) : Float :=
  let negative := text.head? == some '-'
  let digits := if negative then text.drop 1 else text
  readDecimal negative (digits.takeWhile (· != '.')) ((digits.dropWhile (· != '.')).drop 1)

/-- Whether the literal of a double reads back as the double. -/
def ReadsBack (x : Float) : Prop := readText (literal.text x) = x

theorem isDigits_append {cs ds : List Char} (hcs : IsDigits cs) (hds : ∀ c ∈ ds, c.isDigit = true) :
    IsDigits (cs ++ ds) :=
  ⟨List.append_ne_nil_of_left_ne_nil hcs.1 _, List.forall_mem_append.mpr ⟨hcs.2, hds⟩⟩

theorem positionalText_eq {digits : List Char} (hdigits : IsDigits digits) (point : Int) :
    ∃ whole fraction, positionalText true digits point = whole ++ '.' :: fraction ∧
      IsDigits whole ∧ IsDigits fraction := by
  have hzeros : ∀ n, ∀ c ∈ List.replicate n '0', c.isDigit = true := by
    intro n c hc
    rw [List.eq_of_mem_replicate hc]
    rfl
  have hzero : IsDigits ['0'] := ⟨List.cons_ne_nil _ _, List.forall_mem_singleton.mpr rfl⟩
  rw [positionalText]
  split
  · refine ⟨['0'], List.replicate (-point).toNat '0' ++ digits, rfl, hzero, ?_⟩
    exact ⟨List.append_ne_nil_of_right_ne_nil _ hdigits.1,
      List.forall_mem_append.mpr ⟨hzeros _, hdigits.2⟩⟩
  next hpoint =>
  split
  · exact ⟨digits ++ List.replicate (point - digits.length).toNat '0', ['0'], rfl,
      isDigits_append hdigits (hzeros _), hzero⟩
  · next hsize =>
    refine ⟨digits.take point.toNat, digits.drop point.toNat, rfl, ⟨?_, ?_⟩, ⟨?_, ?_⟩⟩
    · rw [← List.length_pos_iff, List.length_take]
      omega
    · exact fun c hc => hdigits.2 c (List.mem_of_mem_take hc)
    · rw [← List.length_pos_iff, List.length_drop]
      omega
    · exact fun c hc => hdigits.2 c (List.mem_of_mem_drop hc)

open Float.Model.UnpackedFloat in
theorem unpackExponent_eq_ones_iff {x : Float} :
    @unpackExponent .binary64 x.toBits.toBitVec = -1#_ ↔
      x.toBits.toNat / Nat.pow 2 52 % Nat.pow 2 11 = Nat.pow 2 11 - 1 := by
  rw [← BitVec.toNat_inj]
  simp only [unpackExponent, BitVec.toNat_cast, BitVec.extractLsb_toNat, UInt64.toNat_toBitVec,
    Nat.shiftRight_eq_div_pow]
  rfl

open Float.Model.UnpackedFloat in
/-- An exponent of ones belongs to an infinity or to a NaN. -/
theorem isFinite_iff {x : Float} : x.isFinite = true ↔
    x.toBits.toNat / Nat.pow 2 52 % Nat.pow 2 11 ≠ Nat.pow 2 11 - 1 := by
  rw [ne_eq, ← unpackExponent_eq_ones_iff]
  change (unpack .binary64 x.toBits.toBitVec).isFinite = true ↔ _
  unfold unpack
  by_cases hones : @unpackExponent .binary64 x.toBits.toBitVec = -1#_
  · rw [if_pos hones]
    refine iff_of_false ?_ (not_not_intro hones)
    split <;> exact Bool.false_ne_true
  · rw [if_neg hones]
    refine iff_of_true ?_ hones
    by_cases hzeros : @unpackExponent .binary64 x.toBits.toBitVec = 0#_
    · rw [if_pos hzeros]
      by_cases hmantissa : @unpackMantissa .binary64 x.toBits.toBitVec = 0#_
      · rw [dif_pos hmantissa]
        rfl
      · rw [dif_neg hmantissa]
        rfl
    · rw [if_neg hzeros]
      rfl

theorem ofFloat?_of_isFinite {x : Float} (h : x.isFinite) : ∃ b, Binary.ofFloat? x = some b := by
  simp only [Binary.ofFloat?]
  rw [if_neg (isFinite_iff.mp h)]
  split <;> exact ⟨_, rfl⟩

theorem ofFloat?_eq_none {x : Float} (h : ¬x.isFinite = true) : Binary.ofFloat? x = none := by
  rw [isFinite_iff, not_not] at h
  simp only [Binary.ofFloat?]
  rw [if_pos h]

/-- The literal of a finite double: a sign, digits, a point and digits. -/
theorem literal_text_eq {x : Float} (h : x.isFinite) :
    ∃ negative whole fraction, literal.text x = signChars negative ++ (whole ++ '.' :: fraction) ∧
      IsDigits whole ∧ IsDigits fraction := by
  have hzero : IsDigits ['0'] := ⟨List.cons_ne_nil _ _, List.forall_mem_singleton.mpr rfl⟩
  obtain ⟨b, hb⟩ := ofFloat?_of_isFinite h
  rw [text, hb]
  simp only
  split
  · exact ⟨b.negative, ['0'], ['0'], rfl, hzero, hzero⟩
  · obtain ⟨whole, fraction, htext, hwhole, hfraction⟩ := positionalText_eq
      (isDigits_toDigits (shortest literal.tie b).significand)
      ((shortest literal.tie b).scientificExponent + 1)
    refine ⟨b.negative, whole, fraction, ?_, hwhole, hfraction⟩
    rw [← htext]
    rfl

end Decimal.Layout

theorem ne_point_of_isDigit {cs : List Char} (h : ∀ c ∈ cs, c.isDigit = true) {c : Char}
    (hc : c ∈ cs) :
    (c != '.') = true := by
  rw [bne_iff_ne]
  rintro rfl
  exact absurd (h _ hc) (by decide)

theorem head?_digits {whole rest : List Char} (h : IsDigits whole) :
    ((whole ++ rest).head? == some '-') = false := by
  obtain ⟨hne, hall⟩ := h
  cases whole with
  | nil => exact absurd rfl hne
  | cons c whole =>
      rw [List.cons_append, List.head?_cons, beq_eq_false_iff_ne]
      rintro ⟨⟩
      exact absurd (hall '-' List.mem_cons_self) (by decide)

theorem head?_sign {negative : Bool} {whole rest : List Char} (h : IsDigits whole) :
    ((signChars negative ++ (whole ++ rest)).head? == some '-') = negative := by
  cases negative with
  | true => rfl
  | false =>
      change ((whole ++ rest).head? == some '-') = false
      exact head?_digits h

namespace Decimal.Layout

theorem readText_eq {negative : Bool} {whole fraction : List Char} (hwhole : IsDigits whole) :
    readText (signChars negative ++ (whole ++ '.' :: fraction)) =
      readDecimal negative whole fraction := by
  have hdigits : (if negative then
      (signChars negative ++ (whole ++ '.' :: fraction)).drop 1
    else signChars negative ++ (whole ++ '.' :: fraction)) = whole ++ '.' :: fraction := by
    cases negative <;> rfl
  have hall : ∀ c ∈ whole, (c != '.') = true := fun c hc => ne_point_of_isDigit hwhole.2 hc
  simp only [readText, head?_sign hwhole]
  rw [hdigits, List.takeWhile_append_of_pos hall, List.dropWhile_append_of_pos hall]
  simp only [List.takeWhile_cons, List.dropWhile_cons, bne_self_eq_false, Bool.false_eq_true,
    if_false, List.append_nil, List.drop_one, List.tail_cons]

end Decimal.Layout

/-- Nothing that follows could belong to a number or a name. -/
def Bounded (rest : List Char) : Prop :=
  (∀ c ∈ rest.head?, isNamePart c = false) ∧
    ∀ tail, rest = '.' :: tail → ∀ c ∈ tail.head?, c.isDigit = false

theorem isDigit_eq_false {c : Char} (h : isNamePart c = false) : c.isDigit = false := by
  simp only [isNamePart, Char.isAlphanum, Bool.or_eq_false_iff] at h
  exact h.1.2

theorem Bounded.isDigit_eq_false {rest : List Char} (h : Bounded rest) :
    ∀ c ∈ rest.head?, c.isDigit = false :=
  fun c hc => Formulary.isDigit_eq_false (h.1 c hc)

namespace Silent

variable {rest : List Char}

theorem token_eq {α : Type} {read? : Cursor → Option (α × Cursor)} {cs : List Char} {a : α}
    {next : Cursor} (h : read? ⟨0, cs, 0⟩ = some (a, next)) :
    token read? cs = .accepted (a, next.rest) := by
  rw [token, h]

theorem past_rest (p : Nat) (cs rest : List Char) :
    ((⟨p, cs ++ rest, 0⟩ : Cursor).past cs).rest = rest := List.drop_left

/-- The digits of a fraction at the start of a text. -/
def fractionChars : List Char → List Char
  | '.' :: rest => rest.takeWhile Char.isDigit
  | _ => []

/-- How a number is read off its sign and its digits. -/
theorem number?_eq (negative : Bool) {whole tail cs : List Char} (hwhole : IsDigits whole)
    (htail : ∀ c ∈ tail.head?, c.isDigit = false)
    (hcs : cs = signChars negative ++ (whole ++ tail)) :
    (⟨0, cs, 0⟩ : Cursor).number? =
      if fractionChars tail = [] then
        some (integerValue negative whole, (⟨0, cs, 0⟩ : Cursor).past (signChars negative ++ whole))
      else
        some (.float (readDecimal negative whole (fractionChars tail)),
          (⟨0, cs, 0⟩ : Cursor).past
            (signChars negative ++ whole ++ '.' :: fractionChars tail)) := by
  have hsign : (cs.head? == some '-') = negative := by
    rw [hcs]
    exact head?_sign hwhole
  have hfold : (if negative = true then ['-'] else []) = signChars negative := rfl
  have hdigits : (cs.drop (signChars negative).length).takeWhile Char.isDigit = whole := by
    rw [hcs, List.drop_left, takeWhile_append_stop hwhole.2 htail]
  have hrest : cs.drop ((signChars negative).length + whole.length) = tail := by
    rw [hcs, ← List.drop_drop, List.drop_left, List.drop_left]
  have hne : ¬whole.isEmpty = true := by
    rw [List.isEmpty_iff]
    exact hwhole.1
  simp only [Cursor.number?, ne_eq, not_true_eq_false, if_false]
  rw [hsign, hfold, hdigits, if_neg hne, hrest]
  split
  · simp only [fractionChars, List.isEmpty_iff]
  · next hpoint =>
    have hnone : fractionChars tail = [] := by
      unfold fractionChars
      split
      · next rest => exact absurd rfl (hpoint rest)
      · rfl
    rw [if_pos hnone]

/-- A number without a fraction. -/
theorem token_whole (negative : Bool) {whole : List Char} (hwhole : IsDigits whole)
    (hrest : Bounded rest) :
    token Cursor.number? (signChars negative ++ (whole ++ rest)) =
      .accepted (integerValue negative whole, rest) := by
  have hnone : fractionChars rest = [] := by
    unfold fractionChars
    split
    · next tail =>
      have hstop := hrest.2 tail rfl
      exact takeWhile_append_stop (fun _ hc => absurd hc List.not_mem_nil) hstop
    · rfl
  have hread := number?_eq negative hwhole hrest.isDigit_eq_false rfl
  rw [if_pos hnone] at hread
  rw [token_eq hread, ← List.append_assoc, past_rest]

/-- A number with a fraction. -/
theorem token_fraction (negative : Bool) {whole fraction : List Char} (hwhole : IsDigits whole)
    (hfraction : IsDigits fraction) (hrest : Bounded rest) :
    token Cursor.number? (signChars negative ++ (whole ++ '.' :: (fraction ++ rest))) =
      .accepted (.float (readDecimal negative whole fraction), rest) := by
  have hpoint : ∀ c ∈ ('.' :: (fraction ++ rest)).head?, c.isDigit = false := by
    rintro c ⟨⟩
    rfl
  have hchars : fractionChars ('.' :: (fraction ++ rest)) = fraction :=
    takeWhile_append_stop hfraction.2 hrest.isDigit_eq_false
  have hread := number?_eq negative hwhole hpoint rfl
  rw [if_neg (by rw [hchars]; exact hfraction.1), hchars] at hread
  rw [token_eq hread]
  -- Grouped as the token and what follows it.
  have hcs : signChars negative ++ (whole ++ '.' :: (fraction ++ rest)) =
      signChars negative ++ whole ++ '.' :: fraction ++ rest := by
    simp only [List.append_assoc, List.cons_append]
  rw [hcs, past_rest]

/-- A name that nothing after it continues. -/
theorem token_name {name : String} (hname : Grammar.IsName name)
    (hrest : ∀ c ∈ rest.head?, isNamePart c = false) :
    token Cursor.identifier? (name.toList ++ rest) = .accepted (name, rest) := by
  obtain ⟨c, cs, hchars, hstart, hparts⟩ := hname
  have htaken : (c :: cs ++ rest).takeWhile isNamePart = c :: cs :=
    takeWhile_append_stop (List.forall_mem_cons.mpr ⟨isNamePart_of_isNameStart hstart, hparts⟩)
      hrest
  have hread : (⟨0, c :: cs ++ rest, 0⟩ : Cursor).identifier? =
      some (name, (⟨0, c :: cs ++ rest, 0⟩ : Cursor).past (c :: cs)) := by
    simp only [Cursor.identifier?, Cursor.peek?, if_true, List.cons_append, List.head?_cons, hstart]
    rw [← List.cons_append, htaken, ← hchars, String.ofList_toList]
  rw [hchars, token_eq hread, past_rest]

/-- How a string is read off its quotes. -/
theorem quotedString?_eq {quote : Char} (hquote : quote = '\'' ∨ quote = '"') {content : List Char}
    (hcontent : quote ∉ content) (rest : List Char) :
    (⟨0, quote :: (content ++ quote :: rest), 0⟩ : Cursor).quotedString? =
      some (String.ofList content, (⟨0, quote :: (content ++ quote :: rest), 0⟩ : Cursor).past
        (quote :: (content ++ [quote]))) := by
  simp only [Cursor.quotedString?, Cursor.peek?, if_true, List.head?_cons, hquote, List.drop_one,
    List.tail_cons, takeWhile_ne hcontent]
  rw [Nat.add_comm, List.drop_succ_cons, List.drop_left]
  rfl

/-- Characters between quotes that do not occur among them. -/
theorem token_content {quote : Char} (hquote : quote = '\'' ∨ quote = '"') {content : List Char}
    (hcontent : quote ∉ content) :
    token Cursor.quotedString? (quote :: (content ++ quote :: rest)) =
      .accepted (String.ofList content, rest) := by
  have hcs : quote :: (content ++ quote :: rest) = quote :: (content ++ [quote]) ++ rest := by
    simp only [List.cons_append, List.append_assoc, List.nil_append]
  rw [token_eq (quotedString?_eq hquote hcontent rest), hcs, past_rest]

/-- A string between quotes that do not occur in it. -/
theorem token_quoted {quote : Char} (hquote : quote = '\'' ∨ quote = '"') {s : String}
    (hs : quote ∉ s.toList) :
    token Cursor.quotedString? (quote :: (s.toList ++ quote :: rest)) = .accepted (s, rest) := by
  rw [token_content hquote hs, String.ofList_toList]

end Silent

end Formulary
