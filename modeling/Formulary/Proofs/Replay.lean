import Formulary.Proofs.RoundTrip

/-! # Read again with another end

What was read is read again when something else follows it, as long as that cannot continue the last
token. Symbols look one character ahead: they are found again before the character that followed
them, and before a name.
-/

namespace Formulary

open OperatorTable Grammar

/-- What was read after blanks still comes after the blanks. -/
theorem skipped_again {cs taken rest : List Char} (htaken : taken ++ rest = skipped cs)
    (hlength : rest.length < (skipped cs).length) (rest' : List Char) :
    skipped (blanks cs ++ (taken ++ rest')) = taken ++ rest' ∧
      (taken ++ rest').head? = (skipped cs).head? := by
  cases taken with
  | nil => exact absurd (congrArg List.length htaken) (Nat.ne_of_lt hlength)
  | cons c taken =>
      have hblank : isBlank c = false := by
        have hstop := List.head?_dropWhile_not isBlank cs
        rw [show cs.dropWhile isBlank = c :: (taken ++ rest) from htaken.symm] at hstop
        exact hstop
      rw [skipped_blanks_append, List.cons_append, skipped_of_head hblank, ← htaken]
      exact ⟨rfl, rfl⟩

theorem Bounded.blanks_append (cs : List Char) {u : List Char} (h : Bounded u) :
    Bounded (blanks cs ++ u) := by
  cases hblanks : blanks cs with
  | nil => exact h
  | cons c tail =>
      rcases eq_of_blanks hblanks with rfl | rfl
      · exact bounded_cons rfl (by decide)
      · exact bounded_cons rfl (by decide)

namespace Silent

variable {α : Type}

/-- Whatever is read from these characters is read again before anything that `P` allows. -/
def Replays (P : List Char → Prop) (silent : Silent α) (cs : List Char) : Prop :=
  ∀ a rest, silent cs = .accepted (a, rest) → ∃ taken, taken ++ rest = cs ∧
    ∀ rest', P rest' → silent (taken ++ rest') = .accepted (a, rest')

/-- Whatever takes characters away starts with the same character when it is read again. -/
theorem Replays.starts {P : List Char → Prop} {silent : Silent α} {cs rest : List Char} {a : α}
    (h : Replays P silent cs) (hshrinks : Shrinks silent)
    (hread : silent cs = .accepted (a, rest)) :
    ∃ taken, taken ++ rest = cs ∧ ∀ rest', P rest' →
      (taken ++ rest').head? = cs.head? ∧ silent (taken ++ rest') = .accepted (a, rest') := by
  obtain ⟨taken, rfl, hagain⟩ := h a rest hread
  refine ⟨taken, rfl, fun rest' hrest' => ⟨?_, hagain rest' hrest'⟩⟩
  have hlength := hshrinks hread
  cases taken with
  | nil => exact absurd hlength (Nat.lt_irrefl _)
  | cons c taken => rfl

/-! ## Tokens -/

theorem chars_of_name {cs rest : List Char} {name : String}
    (h : token Cursor.identifier? cs = .accepted (name, rest)) : name.toList ++ rest = cs := by
  obtain ⟨next, hread, rfl⟩ := token_eq_accepted h
  cases cs with
  | nil => cases hread
  | cons x cs =>
      simp only [Cursor.identifier?, Cursor.peek?, if_true, List.head?_cons] at hread
      split at hread
      · cases hread
        rw [String.toList_ofList]
        exact (Cursor.past_prefix (List.takeWhile_prefix _)).1
      · cases hread

theorem name_replays (cs : List Char) : Replays Bounded (token Cursor.identifier?) cs :=
  fun name _ hname => ⟨name.toList, chars_of_name hname,
    fun _ hrest' => token_name (isName_of_token hname) hrest'.1⟩

theorem not_isDigit_of_dropWhile (cs : List Char) :
    ∀ c ∈ (cs.dropWhile Char.isDigit).head?, c.isDigit = false := by
  intro c hc
  have hstop := List.head?_dropWhile_not Char.isDigit cs
  rw [hc] at hstop
  simpa using hstop

/-- A number is a sign, if there is one, and digits. -/
theorem digits_of_number {cs : List Char} (h : (⟨0, cs, 0⟩ : Cursor).number? ≠ none) :
    ∃ negative whole tail, IsDigits whole ∧ (∀ c ∈ tail.head?, c.isDigit = false) ∧
      cs = signChars negative ++ (whole ++ tail) := by
  generalize hnegative : (cs.head? == some '-') = negative
  have hcs : signChars negative ++ cs.drop (signChars negative).length = cs := by
    cases negative with
    | true => exact cons_tail_of_head? (beq_iff_eq.mp hnegative) ▸ rfl
    | false => rfl
  have hwhole : (cs.drop (signChars negative).length).takeWhile Char.isDigit ≠ [] := by
    intro hnone
    have hfold : (if negative = true then ['-'] else []) = signChars negative := rfl
    simp only [Cursor.number?, ne_eq, not_true_eq_false, if_false] at h
    rw [hnegative, hfold, hnone] at h
    exact h rfl
  refine ⟨negative, _, (cs.drop (signChars negative).length).dropWhile Char.isDigit,
    ⟨hwhole, List.all_eq_true.mp List.all_takeWhile⟩, not_isDigit_of_dropWhile _, ?_⟩
  rw [List.takeWhile_append_dropWhile, hcs]

theorem fraction_eq {tail : List Char} (h : fractionChars tail ≠ []) :
    IsDigits (fractionChars tail) ∧ ∃ rest, tail = '.' :: (fractionChars tail ++ rest) := by
  unfold fractionChars at h ⊢
  split at h
  · next fraction =>
    exact ⟨⟨h, List.all_eq_true.mp List.all_takeWhile⟩, fraction.dropWhile Char.isDigit,
      by rw [List.takeWhile_append_dropWhile]⟩
  · exact absurd rfl h

theorem number_replays (cs : List Char) : Replays Bounded (token Cursor.number?) cs := by
  intro value rest hvalue
  obtain ⟨next, hread, rfl⟩ := token_eq_accepted hvalue
  have hsome : (⟨0, cs, 0⟩ : Cursor).number? ≠ none := by
    rw [hread]
    exact Option.some_ne_none _
  obtain ⟨negative, whole, tail, hwhole, htail, rfl⟩ := digits_of_number hsome
  have hnumber := number?_eq negative hwhole htail rfl
  rw [hread] at hnumber
  split at hnumber
  · cases hnumber
    refine ⟨signChars negative ++ whole, ?_, fun rest' hrest' => ?_⟩
    · rw [← List.append_assoc, past_rest]
    · rw [List.append_assoc]
      exact token_whole negative hwhole hrest'
  · next hne =>
    cases hnumber
    obtain ⟨hfraction, rest, hrest⟩ := fraction_eq hne
    generalize fractionChars tail = fraction at *
    -- Grouped as the token and what follows it.
    have hcs : ∀ rest', signChars negative ++ (whole ++ '.' :: (fraction ++ rest')) =
        signChars negative ++ whole ++ '.' :: fraction ++ rest' := by
      intro rest'
      simp only [List.append_assoc, List.cons_append]
    rw [hrest, hcs, past_rest]
    refine ⟨_, rfl, fun rest' hrest' => ?_⟩
    rw [← hcs]
    exact token_fraction negative hwhole hfraction hrest'

theorem quoted_replays (cs : List Char) :
    Replays (fun _ => True) (token Cursor.quotedString?) cs := by
  intro text rest htext
  obtain ⟨next, hread, rfl⟩ := token_eq_accepted htext
  cases cs with
  | nil => cases hread
  | cons quote cs =>
      simp only [Cursor.quotedString?, Cursor.peek?, if_true, List.head?_cons, List.drop_one,
        List.tail_cons] at hread
      split at hread
      · next hquote =>
        split at hread
        · cases hread
        · next last rest hclose =>
          cases hread
          rw [Nat.add_comm, List.drop_succ_cons] at hclose
          have hcs := Cursor.content_append_quote hclose
          have habsent : quote ∉ cs.takeWhile (· != quote) := by
            intro hmem
            simpa using List.all_eq_true.mp List.all_takeWhile quote hmem
          generalize cs.takeWhile (· != quote) = content at *
          have htext : quote ∉ (String.ofList content).toList := by rwa [String.toList_ofList]
          have hgroup : ∀ rest', quote :: content ++ [quote] ++ rest' =
              quote :: (content ++ quote :: rest') := by
            intro rest'
            rw [List.append_assoc, List.cons_append, List.singleton_append]
          refine ⟨quote :: content ++ [quote], ?_, fun rest' _ => ?_⟩
          · rw [← hcs, ← hgroup, past_rest]
          · have hagain : token Cursor.quotedString? _ = .accepted (_, rest') :=
              token_quoted hquote htext
            rwa [String.toList_ofList, ← hgroup] at hagain
      · cases hread

/-! ## Operands -/

variable {g : Grammar} {e : Int32 → Silent Formula}

theorem precompiled_replays (cs : List Char) : Replays Bounded (precompiled g) cs := by
  intro f rest hf
  rw [precompiled] at hf
  split at hf
  · next hhash =>
    obtain ⟨⟨name, after⟩, hname, hf⟩ := Reply.bind_eq_accepted.mp hf
    simp only at hf
    split at hf
    · next found hfound =>
      cases hf
      obtain ⟨taken, htaken, hagain⟩ := name_replays _ _ _ hname
      refine ⟨'#' :: taken, ?_, fun rest' hrest' => ?_⟩
      · rw [List.cons_append, htaken, cons_tail_of_head? hhash]
      · simp only [precompiled, List.cons_append, List.head?_cons, if_true, List.tail_cons,
          hagain rest' hrest', Reply.bind_accepted, hfound]
    · cases hf
  · cases hf

/-- What is left ends expressions: a closing character or a comma comes next, or nothing at all. -/
def Ended (rest : List Char) : Prop := Closes (skipped rest)

theorem ended_of_skipped {cs rest : List Char} (hcs : skipped cs = rest) (h : Closes rest) :
    Ended cs := by
  rwa [Ended, hcs]

theorem ended_of_closes {rest : List Char} (h : Closes rest) : Ended rest :=
  ended_of_skipped h.skipped_eq h

theorem parenthesis_replays {cs : List Char} (h : Replays Ended (e topLimit) cs.tail) :
    Replays (fun _ => True) (parenthesis g e) cs := by
  intro f rest hf
  rw [parenthesis] at hf
  split at hf
  · cases hf
  next operator hoperator =>
  split at hf
  · next hopen =>
    obtain ⟨⟨inner, after⟩, hinner, hf⟩ := Reply.bind_eq_accepted.mp hf
    simp only at hf
    split at hf
    · next hclose =>
      cases hf
      obtain ⟨taken, htaken, hagain⟩ := h _ _ hinner
      refine ⟨'(' :: (taken ++ (blanks after ++ [')'])), ?_, fun rest' _ => ?_⟩
      · rw [List.cons_append, List.append_assoc, List.append_assoc, List.singleton_append,
          blanks_append_cons hclose, htaken, cons_tail_of_head? hopen]
      · have hskip := skipped_blanks_cons after (c := ')') rfl rest'
        have hread := hagain _ (ended_of_skipped hskip (closes_cons (Or.inl rfl) rest'))
        rw [List.cons_append, List.append_assoc, List.append_assoc, List.singleton_append]
        simp only [parenthesis, hoperator, List.head?_cons, if_true, List.tail_cons, hread,
          Reply.bind_accepted, hskip]
    · cases hf
  · cases hf

/-- A string in quotes, which the first character decides. -/
theorem quoted_operand_replays {cs rest : List Char} {text : String}
    (hquote : cs.head? = some '\'' ∨ cs.head? = some '"')
    (htext : token Cursor.quotedString? cs = .accepted (text, rest)) :
    ∃ taken, taken ++ rest = cs ∧ ∀ rest',
      operandBody g e (taken ++ rest') = .accepted (.constant (.string text), rest') := by
  obtain ⟨taken, htaken, hagain⟩ :=
    (quoted_replays cs).starts quotedString?_consumes.token_shrinks htext
  refine ⟨taken, htaken, fun rest' => ?_⟩
  obtain ⟨hhead, hread⟩ := hagain rest' trivial
  rcases hquote with hquote | hquote
  all_goals
    rw [operandBody, hhead, hquote]
    simp only
    rw [hread]
    rfl

theorem operandBody_replays (hshrinks : ∀ limit, Shrinks (e limit)) {cs : List Char}
    (h : Replays Ended (e topLimit) cs.tail) : Replays Bounded (operandBody g e) cs := by
  intro f rest hf
  -- What the first character decides is decided again.
  rw [operandBody] at hf
  split at hf
  · next hhash =>
    obtain ⟨taken, htaken, hagain⟩ := (precompiled_replays cs).starts precompiled_shrinks hf
    refine ⟨taken, htaken, fun rest' hrest' => ?_⟩
    obtain ⟨hhead, hread⟩ := hagain rest' hrest'
    rw [operandBody, hhead, hhash]
    exact hread
  · next hopen =>
    obtain ⟨taken, htaken, hagain⟩ :=
      (parenthesis_replays h).starts (parenthesis_shrinks hshrinks) hf
    refine ⟨taken, htaken, fun rest' _ => ?_⟩
    obtain ⟨hhead, hread⟩ := hagain rest' trivial
    rw [operandBody, hhead, hopen]
    exact hread
  · next hquote =>
    obtain ⟨⟨text, after⟩, htext, hf⟩ := Reply.bind_eq_accepted.mp hf
    cases hf
    obtain ⟨taken, htaken, hagain⟩ := quoted_operand_replays (Or.inl hquote) htext
    exact ⟨taken, htaken, fun rest' _ => hagain rest'⟩
  · next hquote =>
    obtain ⟨⟨text, after⟩, htext, hf⟩ := Reply.bind_eq_accepted.mp hf
    cases hf
    obtain ⟨taken, htaken, hagain⟩ := quoted_operand_replays (Or.inr hquote) htext
    exact ⟨taken, htaken, fun rest' _ => hagain rest'⟩
  · next hhash hopen hsingle hdouble =>
    rcases Reply.resume_eq_accepted.mp hf with ⟨⟨value, after⟩, hvalue, hf⟩ | ⟨-, hf⟩
    · cases hf
      obtain ⟨taken, htaken, hagain⟩ :=
        (number_replays cs).starts number?_consumes.token_shrinks hvalue
      refine ⟨taken, htaken, fun rest' hrest' => ?_⟩
      obtain ⟨hhead, hread⟩ := hagain rest' hrest'
      rw [operandBody]
      split
      · next heq => exact absurd (hhead.symm.trans heq) hhash
      · next heq => exact absurd (hhead.symm.trans heq) hopen
      · next heq => exact absurd (hhead.symm.trans heq) hsingle
      · next heq => exact absurd (hhead.symm.trans heq) hdouble
      · rw [hread]
        rfl
    · obtain ⟨⟨name, after⟩, hname, hf⟩ := Reply.bind_eq_accepted.mp hf
      cases hf
      exact ⟨name.toList, chars_of_name hname, fun rest' hrest' =>
        operandBody_name (isName_of_token hname) hrest'⟩

/-! ## Lists -/

section Lists

variable (hshrinks : ∀ limit, Shrinks (e limit)) {n : Nat}
  (h : ∀ cs, cs.length < n → Replays Ended (e topLimit) cs)
include hshrinks h

theorem argumentsFrom_replays {close : Char} (hclose : close = ')' ∨ close = ']') {fuel : Nat}
    {cs rest : List Char} {arguments : List Formula} (hcs : cs.length < n)
    (harguments : argumentsFrom e close fuel cs = .accepted (arguments, rest)) :
    ∃ taken, taken ++ rest = cs ∧ ∀ rest' fuel', (taken ++ rest').length < fuel' →
      argumentsFrom e close fuel' (taken ++ rest') = .accepted (arguments, rest') := by
  have hblank : isBlank close = false := by
    rcases hclose with rfl | rfl <;> rfl
  induction fuel generalizing cs arguments with
  | zero => cases harguments
  | succ fuel ih =>
      rw [argumentsFrom] at harguments
      obtain ⟨⟨argument, after⟩, hargument, hread⟩ := Reply.bind_eq_accepted.mp harguments
      obtain ⟨taken, rfl, hagain⟩ := h cs hcs _ _ hargument
      have hlength := hshrinks _ hargument
      have hskipped := length_skipped_le after
      simp only at hread
      split at hread
      · next hhead =>
        obtain ⟨⟨others, last⟩, hothers, hread⟩ := Reply.bind_eq_accepted.mp hread
        cases hread
        have htail := length_tail_of_head? hhead
        obtain ⟨tail, htaken, hagain'⟩ := ih (by omega) hothers
        refine ⟨taken ++ (blanks after ++ ',' :: tail), ?_, fun rest' fuel' hfuel => ?_⟩
        · rw [List.append_assoc, List.append_assoc, List.cons_append, htaken,
            blanks_append_cons hhead]
        · obtain ⟨fuel', rfl⟩ : ∃ n, fuel' = n + 1 := ⟨fuel' - 1, by omega⟩
          have hskip := skipped_blanks_cons after (c := ',') rfl (tail ++ rest')
          have hroom : (tail ++ rest').length < fuel' := by
            simp only [List.length_append, List.length_cons] at hfuel ⊢
            omega
          rw [List.append_assoc, List.append_assoc, List.cons_append]
          exact argumentsFrom_comma (hagain _ (ended_of_skipped hskip (closes_comma _))) hskip
            (hagain' rest' fuel' hroom)
      split at hread
      · next hother hhead =>
        cases hread
        refine ⟨taken ++ (blanks after ++ [close]), ?_, fun rest' fuel' hfuel => ?_⟩
        · rw [List.append_assoc, List.append_assoc, List.singleton_append,
            blanks_append_cons hhead]
        · obtain ⟨fuel', rfl⟩ : ∃ n, fuel' = n + 1 := ⟨fuel' - 1, by omega⟩
          have hskip := skipped_blanks_cons after hblank rest'
          rw [List.append_assoc, List.append_assoc, List.singleton_append]
          exact argumentsFrom_last (ne_comma hclose)
            (hagain _ (ended_of_skipped hskip (closes_cons hclose rest'))) hskip
      · cases hread

theorem arguments_replays {close : Char} (hclose : close = ')' ∨ close = ']') (allowEmpty : Bool)
    {cs : List Char} (hcs : cs.length < n) :
    Replays (fun _ => True) (arguments e close allowEmpty) cs := by
  intro fs rest hfs
  rw [arguments] at hfs
  have hblank : isBlank close = false := by
    rcases hclose with rfl | rfl <;> rfl
  split at hfs
  · next hempty =>
    obtain ⟨hallow, hhead⟩ := hempty
    cases hfs
    refine ⟨blanks cs ++ [close], ?_, fun rest' _ => ?_⟩
    · rw [List.append_assoc, List.singleton_append, blanks_append_cons hhead]
    · rw [arguments, List.append_assoc, List.singleton_append, skipped_blanks_cons cs hblank,
        if_pos ⟨hallow, rfl⟩]
      rfl
  · next hnonempty =>
    have hskipped := length_skipped_le cs
    obtain ⟨taken, htaken, hagain⟩ := argumentsFrom_replays hshrinks h hclose (by omega) hfs
    refine ⟨blanks cs ++ taken, ?_, fun rest' _ => ?_⟩
    · rw [List.append_assoc, htaken, blanks_append_skipped]
    · obtain ⟨hskip, hhead⟩ :=
        skipped_again htaken (argumentsFrom_shrinks hshrinks close _ hfs) rest'
      rw [arguments, List.append_assoc, hskip, hhead, if_neg hnonempty]
      exact hagain rest' _ (Nat.lt_succ_self _)

theorem call_replays (callee : Formula) {cs : List Char} (hcs : cs.length < n) :
    Replays (fun _ => True) (call g e callee) cs := by
  intro f rest hf
  rw [call] at hf
  split at hf
  · cases hf
  next form operands native hshape =>
  simp only at hf
  split at hf
  · cases hf
  next operator hoperator =>
  obtain ⟨⟨fs, after⟩, hfs, hf⟩ := Reply.bind_eq_accepted.mp hf
  cases hf
  obtain ⟨taken, htaken, hagain⟩ :=
    arguments_replays hshrinks h (Or.inl rfl) true hcs _ _ hfs
  refine ⟨taken, htaken, fun rest' _ => ?_⟩
  simp only [call, hshape, hoperator, hagain rest' trivial, Reply.bind_accepted]

theorem indexing_replays (target : Formula) {cs : List Char} (hcs : cs.length < n) :
    Replays (fun _ => True) (indexing g e target) cs := by
  intro f rest hf
  rw [indexing] at hf
  split at hf
  · cases hf
  next operator hoperator =>
  obtain ⟨⟨fs, after⟩, hfs, hf⟩ := Reply.bind_eq_accepted.mp hf
  cases hf
  obtain ⟨taken, htaken, hagain⟩ :=
    arguments_replays hshrinks h (Or.inr rfl) false hcs _ _ hfs
  refine ⟨taken, htaken, fun rest' _ => ?_⟩
  simp only [indexing, hoperator, hagain rest' trivial, Reply.bind_accepted]

end Lists

/-! ## Symbols -/

/-- Whether a text starts with the character that another one starts with, or with a name. -/
def Resembles (t after : List Char) : Prop :=
  ∃ c tail, t = c :: tail ∧ (c = 'x' ∨ after.head? = some c)

theorem ne_of_resembles {b c : Char} {after : List Char} (hc : c = 'x' ∨ after.head? = some c)
    (hb : b ≠ 'x') (hafter : after.head? ≠ some b) : c ≠ b := by
  rintro rfl
  exact hc.elim hb hafter

/-- A minus sign before a digit belongs to a number. -/
theorem operandBody_minus_ne_rejected {c : Char} {cs : List Char} (hc : c.isDigit = true) :
    operandBody g e ('-' :: c :: cs) ≠ .rejected := by
  have hwhole : IsDigits ((c :: cs).takeWhile Char.isDigit) := by
    refine ⟨?_, List.all_eq_true.mp List.all_takeWhile⟩
    rw [List.takeWhile_cons_of_pos hc]
    exact List.cons_ne_nil _ _
  have hcs : '-' :: c :: cs = signChars true ++
      ((c :: cs).takeWhile Char.isDigit ++ (c :: cs).dropWhile Char.isDigit) := by
    rw [List.takeWhile_append_dropWhile]
    rfl
  have hnumber : ∃ read, (⟨0, '-' :: c :: cs, 0⟩ : Cursor).number? = some read := by
    rw [number?_eq true hwhole (not_isDigit_of_dropWhile (c :: cs)) hcs]
    split <;> exact ⟨_, rfl⟩
  obtain ⟨read, hread⟩ := hnumber
  rw [operandBody_default (by decide), token, hread]
  rintro ⟨⟩

/-- A prefix operator is found again, unless its symbol is continued. -/
theorem prefixed_again (hstandard : g.operators = .standard) {cs : List Char} {op : Operator}
    (hoperand : operandBody g e cs = .rejected) (hop : g.operators.matchPrefix? cs = some op)
    {e' : Int32 → Silent Formula} {t : List Char} (ht : Resembles t (cs.drop op.symbol.length)) :
    prefixed g e' (op.symbol.toList ++ t) =
      (e' prefixPriority t).bind fun (operand, rest) => .accepted (.node op [operand], rest) := by
  rw [hstandard] at hop
  have hmem : op ∈ prefixes := List.mem_of_find?_eq_some hop
  obtain ⟨after, rfl⟩ := List.isPrefixOf_iff_prefix.mp (matchPrefix?_starts hop)
  rw [drop_symbol] at ht
  obtain ⟨c, tail, rfl, hc⟩ := ht
  refine prefixed_symbol hstandard hmem (fun hat => ?_) (fun hminus => ?_) tail
  · refine ne_of_resembles hc (by decide) fun hhead => ?_
    rw [← cons_tail_of_head? hhead, hat] at hop
    exact absurd ((congrArg Operator.symbol (Option.some.inj hop)).trans hat) (by decide)
  · rcases hc with rfl | hc
    · rfl
    · rw [← cons_tail_of_head? hc, hminus] at hoperand
      exact Bool.of_not_eq_true fun hdigit => operandBody_minus_ne_rejected hdigit hoperand

end Silent

/-- What follows a symbol does not continue it. -/
theorem OperatorTable.head?_ne_of_matchInfix? {short long : Operator} {c : Char}
    {after : List Char}
    (hlong : ∀ rest, standard.matchInfix? (short.symbol.toList ++ c :: rest) = some long)
    (hne : long.symbol ≠ short.symbol)
    (h : standard.matchInfix? (short.symbol.toList ++ after) = some short) :
    after.head? ≠ some c := by
  intro hhead
  rw [← cons_tail_of_head? hhead, hlong] at h
  exact hne (congrArg Operator.symbol (Option.some.inj h))

/-- An infix operator is found again, unless its symbol is continued. -/
theorem OperatorTable.matchInfix?_again {cs : List Char} {op : Operator}
    (hop : standard.matchInfix? cs = some op) {t : List Char}
    (ht : Silent.Resembles t (cs.drop op.symbol.length)) :
    standard.matchInfix? (op.symbol.toList ++ t) = some op ∧
      skipped (op.symbol.toList ++ t) = op.symbol.toList ++ t := by
  have hmem : op ∈ standard.infixCandidates := List.mem_of_find?_eq_some hop
  obtain ⟨after, rfl⟩ := List.isPrefixOf_iff_prefix.mp (matchInfix?_starts hop)
  rw [drop_symbol] at ht
  obtain ⟨c, tail, rfl, hc⟩ := ht
  simp only [standard_infixCandidates, List.mem_cons, List.not_mem_nil, or_false] at hmem
  -- Only `<` and `>` start longer symbols, and these are tried first.
  rcases hmem with rfl | rfl | rfl | rfl | rfl | rfl | rfl | rfl | rfl | rfl | rfl | rfl | rfl |
    rfl | rfl
  all_goals try exact ⟨rfl, rfl⟩
  · have hlonger : Operator.lessOrEqual.starts ('<' :: c :: tail) = false :=
      Silent.not_starts_longer rfl (Silent.ne_of_resembles hc (by decide)
        (head?_ne_of_matchInfix? (fun _ => rfl) (by decide) hop)) tail
    refine ⟨?_, rfl⟩
    change standard.matchInfix? ('<' :: c :: tail) = some .less
    rw [matchInfix?, standard_infixCandidates, List.find?_cons, hlonger]
    rfl
  · have hlonger : Operator.greaterOrEqual.starts ('>' :: c :: tail) = false :=
      Silent.not_starts_longer rfl (Silent.ne_of_resembles hc (by decide)
        (head?_ne_of_matchInfix? (fun _ => rfl) (by decide) hop)) tail
    refine ⟨?_, rfl⟩
    change standard.matchInfix? ('>' :: c :: tail) = some .greater
    rw [matchInfix?, standard_infixCandidates, List.find?_cons, List.find?_cons, hlonger]
    rfl

end Formulary
