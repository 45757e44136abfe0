import Formulary.Proofs.Replay

/-! # Tokens are as long as they can be

What the characters of a number, a string in quotes or a name look like, and which value belongs to
them, is said here without reading. A reader of tokens takes the longest start of what is left that
looks like that. Where there is none it leaves the cursor in its place.
-/

namespace Formulary

/-- The whole number that digits stand for, with a sign. -/
def decimalValue (negative : Bool) (digits : List Char) : Int :=
  let magnitude : Int := Nat.ofDigitChars 10 digits 0
  if negative then -magnitude else magnitude

/-- The characters of a number, with its value: exactly the one they stand for if that is whole and
has sixty-four bits, and a double otherwise. -/
inductive IsNumeral : List Char → Value → Prop where
  | int {negative : Bool} {digits : List Char} {i : Int64} (hdigits : IsDigits digits)
      (hvalue : i.toInt = decimalValue negative digits) :
      IsNumeral (signChars negative ++ digits) (.int i)
  | large {negative : Bool} {digits : List Char} (hdigits : IsDigits digits)
      (hvalue : ∀ i : Int64, i.toInt ≠ decimalValue negative digits) :
      IsNumeral (signChars negative ++ digits) (.float (readDecimal negative digits []))
  | fraction {negative : Bool} {whole fraction : List Char} (hwhole : IsDigits whole)
      (hfraction : IsDigits fraction) :
      IsNumeral (signChars negative ++ (whole ++ '.' :: fraction))
        (.float (readDecimal negative whole fraction))

/-- The characters of a string, with the text between its quotes. -/
inductive IsQuoted : List Char → String → Prop where
  | quoted {quote : Char} {content : List Char} (hquote : quote = '\'' ∨ quote = '"')
      (hcontent : quote ∉ content) :
      IsQuoted (quote :: (content ++ [quote])) (String.ofList content)

/-- The characters of a name, with the name. -/
inductive IsWord : List Char → String → Prop where
  | word {first : Char} {cs : List Char} (hfirst : isNameStart first)
      (hparts : ∀ c ∈ cs, isNamePart c) : IsWord (first :: cs) (String.ofList (first :: cs))

/-- The longest beginning of a text that is a token. -/
structure IsLongest {α : Type} (IsToken : List Char → α → Prop) (cs taken : List Char) : Prop where
  starts : taken <+: cs
  longest : ∀ other b, IsToken other b → other <+: cs → other <+: taken

/-- There is a token under the cursor if `starts` holds. Then the longest one is read, with the
value that belongs to it, and otherwise the cursor is not moved. -/
structure Scans {α : Type} (read? : Cursor → Option (α × Cursor)) (s : ReadState) (starts : Prop)
    (IsToken : List Char → α → Prop) : Prop where
  accepted : starts → ∃ taken a, IsToken taken a ∧ IsLongest IsToken s.cursor.rest taken ∧
    Reading.token read? s = (.accepted a, { s with cursor := s.cursor.past taken })
  rejected : ¬starts → Reading.token read? s = (.rejected, s)

/-- What a reader that does not look at the position takes from the start of a text it takes
anywhere. -/
theorem Cursor.Local.scans {α : Type} {read? : Cursor → Option (α × Cursor)}
    (hlocal : Local read?) {cs : List Char} {starts : Prop} {IsToken : List Char → α → Prop}
    (haccepted : starts → ∃ taken a, IsToken taken a ∧ IsLongest IsToken cs taken ∧
      read? ⟨0, cs, 0⟩ = some (a, (⟨0, cs, 0⟩ : Cursor).past taken))
    (hrejected : ¬starts → read? ⟨0, cs, 0⟩ = none) (p : Nat) (failures : List ParseError) :
    Scans read? ⟨⟨p, cs, 0⟩, failures⟩ starts IsToken := by
  have hshift := hlocal p cs
  refine ⟨fun hstarts => ?_, fun hstarts => ?_⟩
  · obtain ⟨taken, a, htoken, hlongest, hread⟩ := haccepted hstarts
    refine ⟨taken, a, htoken, hlongest, ?_⟩
    rw [hread] at hshift
    simp only [Option.map_some] at hshift
    rw [← past_shift] at hshift
    rw [Reading.token, Reading.cursor_bind, hshift]
    rfl
  · rw [hrejected hstarts, Option.map_none] at hshift
    rw [Reading.token, Reading.cursor_bind, hshift]
    rfl

theorem prefix_takeWhile {p : Char → Bool} {taken cs : List Char} (htaken : ∀ c ∈ taken, p c = true)
    (h : taken <+: cs) : taken <+: cs.takeWhile p := by
  obtain ⟨rest, rfl⟩ := h
  rw [List.takeWhile_append_of_pos htaken]
  exact List.prefix_append _ _

/-! ## Numbers -/

open Silent

theorem isNumeral_integerValue (negative : Bool) {digits : List Char} (hdigits : IsDigits digits) :
    IsNumeral (signChars negative ++ digits) (integerValue negative digits) := by
  have hvalue : (if negative = true then -(digitsValue digits : Int) else digitsValue digits) =
      decimalValue negative digits := by
    rw [decimalValue, Nat.ofDigitChars_eq_foldl]
    rfl
  simp only [integerValue]
  rw [hvalue]
  split
  · next hrange =>
    obtain ⟨hlow, hhigh⟩ := hrange
    refine .int hdigits (Int64.toInt_ofInt_of_le hlow ?_)
    exact Int.lt_of_le_of_lt hhigh (by decide)
  · next hrange =>
    refine .large hdigits fun i hi => hrange ?_
    rw [← hi]
    exact ⟨i.minValue_le_toInt, i.toInt_le⟩

section Numerals

variable {negative : Bool} {whole tail : List Char} (hwhole : IsDigits whole)
  (htail : ∀ c ∈ tail.head?, c.isDigit = false)

include hwhole in
/-- The sign and the characters after it are told apart by the first character. -/
theorem signChars_append_inj {other : Bool} {digits rest : List Char} (hdigits : IsDigits digits)
    (h : signChars other ++ (digits ++ rest) = signChars negative ++ (whole ++ tail)) :
    other = negative ∧ digits ++ rest = whole ++ tail := by
  have hsign : other = negative := by
    rw [← @head?_sign other digits rest hdigits, h, head?_sign hwhole]
  subst hsign
  exact ⟨rfl, List.append_cancel_left h⟩

/-- The digits after a point are the fraction or the beginning of it. -/
theorem prefix_fractionChars {fraction : List Char} (hfraction : IsDigits fraction)
    (h : '.' :: fraction <+: tail) : fraction <+: fractionChars tail := by
  obtain ⟨rest, rfl⟩ := h
  exact prefix_takeWhile hfraction.2 (List.prefix_append _ _)

include hwhole htail in
/-- A number at the start of a text ends inside the digits of the whole part, or has all of them and
a fraction. -/
theorem IsNumeral.cases_begins {other : List Char} {value : Value} (h : IsNumeral other value)
    (hbegins : other <+: signChars negative ++ (whole ++ tail)) :
    other <+: signChars negative ++ whole ∨ ∃ fraction, IsDigits fraction ∧
      '.' :: fraction <+: tail ∧ other = signChars negative ++ whole ++ '.' :: fraction := by
  obtain ⟨rest, hrest⟩ := hbegins
  have hinteger : ∀ {sign digits}, IsDigits digits →
      signChars sign ++ digits ++ rest = signChars negative ++ (whole ++ tail) →
      signChars sign ++ digits <+: signChars negative ++ whole := by
    intro sign digits hdigits heq
    rw [List.append_assoc] at heq
    obtain ⟨rfl, hchars⟩ := signChars_append_inj hwhole hdigits heq
    have hdigits := prefix_takeWhile hdigits.2 ⟨rest, hchars⟩
    rw [takeWhile_append_stop hwhole.2 htail] at hdigits
    exact (List.prefix_append_right_inj _).mpr hdigits
  cases h with
  | int hdigits => exact Or.inl (hinteger hdigits hrest)
  | large hdigits => exact Or.inl (hinteger hdigits hrest)
  | @fraction sign digits fraction hdigits hfraction =>
      right
      rw [List.append_assoc, List.append_assoc] at hrest
      obtain ⟨rfl, heq⟩ := signChars_append_inj hwhole hdigits hrest
      -- No digit stands before the point, so that both whole parts end there.
      have hpoint : ∀ c ∈ ('.' :: fraction ++ rest).head?, c.isDigit = false := by
        rintro c ⟨⟩
        rfl
      obtain rfl : digits = whole := by
        rw [← takeWhile_append_stop hdigits.2 hpoint, heq, takeWhile_append_stop hwhole.2 htail]
      refine ⟨fraction, hfraction, ⟨rest, List.append_cancel_left heq⟩, ?_⟩
      rw [List.append_assoc]

end Numerals

/-- What a number can start with. -/
def StartsNumber (cs : List Char) : Prop :=
  ∃ negative digit tail, digit.isDigit = true ∧ cs = signChars negative ++ digit :: tail

theorem startsNumber_of_digits {negative : Bool} {whole tail : List Char} (h : IsDigits whole) :
    StartsNumber (signChars negative ++ (whole ++ tail)) := by
  obtain ⟨hne, hdigits⟩ := h
  cases whole with
  | nil => exact absurd rfl hne
  | cons digit whole =>
      exact ⟨negative, digit, whole ++ tail, hdigits _ List.mem_cons_self, rfl⟩

/-- The sign and all digits of the whole part. -/
theorem StartsNumber.digits {cs : List Char} (h : StartsNumber cs) :
    ∃ negative whole tail, IsDigits whole ∧ (∀ c ∈ tail.head?, c.isDigit = false) ∧
      cs = signChars negative ++ (whole ++ tail) := by
  obtain ⟨negative, digit, tail, hdigit, rfl⟩ := h
  have hne : (digit :: tail).takeWhile Char.isDigit ≠ [] := by
    rw [List.takeWhile_cons_of_pos hdigit]
    exact List.cons_ne_nil _ _
  refine ⟨negative, _, _, ⟨hne, List.all_eq_true.mp List.all_takeWhile⟩,
    not_isDigit_of_dropWhile (digit :: tail), ?_⟩
  rw [List.takeWhile_append_dropWhile]

theorem number?_longest {cs : List Char} (h : StartsNumber cs) :
    ∃ taken value, IsNumeral taken value ∧ IsLongest IsNumeral cs taken ∧
      (⟨0, cs, 0⟩ : Cursor).number? = some (value, (⟨0, cs, 0⟩ : Cursor).past taken) := by
  obtain ⟨negative, whole, tail, hwhole, htail, hcs⟩ := h.digits
  have hstarts : signChars negative ++ whole <+: cs :=
    ⟨tail, by rw [hcs, List.append_assoc]⟩
  rw [number?_eq negative hwhole htail hcs]
  by_cases hfraction : fractionChars tail = []
  · rw [if_pos hfraction]
    refine ⟨_, _, isNumeral_integerValue negative hwhole, ⟨hstarts, ?_⟩, rfl⟩
    intro other value hother hbegins
    rw [hcs] at hbegins
    rcases hother.cases_begins hwhole htail hbegins with hother | ⟨fraction, hdigits, hpoint, -⟩
    · exact hother
    · have hnone := prefix_fractionChars hdigits hpoint
      rw [hfraction, List.prefix_nil] at hnone
      exact absurd hnone hdigits.1
  · rw [if_neg hfraction]
    obtain ⟨hdigits, rest, hrest⟩ := fraction_eq hfraction
    refine ⟨_, _, ?_, ⟨?_, ?_⟩, rfl⟩
    · rw [List.append_assoc]
      exact .fraction hwhole hdigits
    · refine ⟨rest, ?_⟩
      rw [hcs]
      conv_rhs => rw [hrest]
      simp only [List.append_assoc, List.cons_append]
    · intro other value hother hbegins
      rw [hcs] at hbegins
      rcases hother.cases_begins hwhole htail hbegins with hother | ⟨fraction, hf, hpoint, rfl⟩
      · exact hother.trans (List.prefix_append _ _)
      · exact (List.prefix_append_right_inj _).mpr
          (List.cons_prefix_cons.mpr ⟨rfl, prefix_fractionChars hf hpoint⟩)

theorem number?_eq_none {cs : List Char} (h : ¬StartsNumber cs) :
    (⟨0, cs, 0⟩ : Cursor).number? = none := by
  by_contra hsome
  obtain ⟨negative, whole, tail, hwhole, -, rfl⟩ := digits_of_number hsome
  exact h (startsNumber_of_digits hwhole)

/-! ## Strings -/

/-- What a string can start with: a quote that occurs again. -/
def StartsQuoted (cs : List Char) : Prop :=
  ∃ quote content tail, (quote = '\'' ∨ quote = '"') ∧ cs = quote :: (content ++ quote :: tail)

theorem quotedString?_longest {cs : List Char} (h : StartsQuoted cs) :
    ∃ taken text, IsQuoted taken text ∧ IsLongest IsQuoted cs taken ∧
      (⟨0, cs, 0⟩ : Cursor).quotedString? = some (text, (⟨0, cs, 0⟩ : Cursor).past taken) := by
  obtain ⟨quote, inner, tail, hquote, rfl⟩ := h
  have hmem : quote ∈ inner ++ quote :: tail :=
    List.mem_append_right inner List.mem_cons_self
  obtain ⟨content, rest, hsplit, hcontent⟩ := List.eq_append_cons_of_mem hmem
  rw [hsplit]
  refine ⟨_, _, .quoted hquote hcontent, ⟨⟨rest, ?_⟩, ?_⟩, quotedString?_eq hquote hcontent rest⟩
  · rw [List.cons_append, List.append_assoc, List.singleton_append]
  · intro other text hother hbegins
    cases hother with
    | @quoted other content' hother hcontent' =>
        obtain ⟨more, hmore⟩ := hbegins
        rw [List.cons_append, List.append_assoc, List.singleton_append, List.cons.injEq] at hmore
        obtain ⟨rfl, hmore⟩ := hmore
        -- Both end at the first quote after the opening one.
        obtain rfl : content' = content := by
          rw [← takeWhile_ne hcontent', hmore, takeWhile_ne hcontent]
        exact List.prefix_rfl

theorem quotedString?_eq_none {cs : List Char} (h : ¬StartsQuoted cs) :
    (⟨0, cs, 0⟩ : Cursor).quotedString? = none := by
  cases cs with
  | nil => rfl
  | cons quote inner =>
      simp only [Cursor.quotedString?, Cursor.peek?, if_true, List.head?_cons]
      split
      · next hquote =>
        split
        · rfl
        · next last rest hclose =>
          rw [Nat.add_comm, List.drop_succ_cons] at hclose
          exact absurd
            ⟨quote, _, rest, hquote, congrArg _ (Cursor.content_append_quote hclose).symm⟩ h
      · rfl

/-! ## Names -/

/-- What a name can start with. -/
def StartsWord (cs : List Char) : Prop :=
  ∃ first tail, isNameStart first = true ∧ cs = first :: tail

theorem identifier?_longest {cs : List Char} (h : StartsWord cs) :
    ∃ taken name, IsWord taken name ∧ IsLongest IsWord cs taken ∧
      (⟨0, cs, 0⟩ : Cursor).identifier? = some (name, (⟨0, cs, 0⟩ : Cursor).past taken) := by
  obtain ⟨first, tail, hfirst, rfl⟩ := h
  have htaken : (first :: tail).takeWhile isNamePart = first :: tail.takeWhile isNamePart :=
    List.takeWhile_cons_of_pos (isNamePart_of_isNameStart hfirst)
  have hparts : ∀ c ∈ tail.takeWhile isNamePart, isNamePart c = true :=
    List.all_eq_true.mp List.all_takeWhile
  refine ⟨_, _, .word hfirst hparts, ⟨?_, ?_⟩, ?_⟩
  · exact List.cons_prefix_cons.mpr ⟨rfl, List.takeWhile_prefix _⟩
  · intro other name hother hbegins
    cases hother with
    | word hstart hother =>
        obtain ⟨rfl, hrest⟩ := List.cons_prefix_cons.mp hbegins
        exact List.cons_prefix_cons.mpr ⟨rfl, prefix_takeWhile hother hrest⟩
  · simp only [Cursor.identifier?, Cursor.peek?, if_true, List.head?_cons, hfirst, htaken]

theorem identifier?_eq_none {cs : List Char} (h : ¬StartsWord cs) :
    (⟨0, cs, 0⟩ : Cursor).identifier? = none := by
  cases cs with
  | nil => rfl
  | cons first tail =>
      have hfirst : ¬isNameStart first = true := fun hfirst => h ⟨first, tail, hfirst, rfl⟩
      simp only [Cursor.identifier?, Cursor.peek?, if_true, List.head?_cons]
      rw [if_neg hfirst]

/-- With the cursor outside of characters, anywhere in any text, each reader of tokens takes the
longest token under the cursor, and leaves the cursor in its place exactly if there is none. -/
theorem token_takes_longest (p : Nat) (cs : List Char) (failures : List ParseError) :
    let s : ReadState := ⟨⟨p, cs, 0⟩, failures⟩
    Scans Cursor.number? s (StartsNumber cs) IsNumeral ∧
      Scans Cursor.quotedString? s (StartsQuoted cs) IsQuoted ∧
      Scans Cursor.identifier? s (StartsWord cs) IsWord :=
  ⟨Cursor.number?_local.scans number?_longest number?_eq_none p failures,
    Cursor.quotedString?_local.scans quotedString?_longest quotedString?_eq_none p failures,
    Cursor.identifier?_local.scans identifier?_longest identifier?_eq_none p failures⟩

end Formulary
