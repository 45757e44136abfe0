import Mathlib.Data.List.Find
import Formulary.Proofs.Scanning
import Formulary.Proofs.Spines

/-! # Blanks only separate

Two texts that differ only in how many blanks stand where there are some, and in those at the ends,
are read alike. Between tokens every reader skips blanks or stops before them; inside of tokens,
strings apart, there are none. So two readings of such texts go side by side, through all
alternatives that are given up, although they stand at different places.
-/

namespace Formulary

open OperatorTable

/-- A quote of either kind. -/
def isQuote (c : Char) : Bool := c == '\'' || c == '"'

/-- Neither a blank nor a quote. -/
def isSolid (c : Char) : Bool := !isBlank c && !isQuote c

/-- One text is the other with every run of blanks outside of strings replaced by another run, and
with blanks added to the end or removed from it. -/
inductive Respaced : List Char → List Char → Prop where
  /-- Nothing but blanks is left. -/
  | ended {cs ds : List Char} (hcs : skipped cs = []) (hds : skipped ds = []) : Respaced cs ds
  /-- Two runs, each with at least one blank. -/
  | blanks {b c : Char} {cs ds : List Char} (hb : isBlank b = true) (hc : isBlank c = true)
      (h : Respaced (skipped cs) (skipped ds)) : Respaced (b :: cs) (c :: ds)
  | character {c : Char} {cs ds : List Char} (hc : isSolid c = true) (h : Respaced cs ds) :
      Respaced (c :: cs) (c :: ds)
  | quoted {quote : Char} {content cs ds : List Char} (hquote : isQuote quote = true)
      (hcontent : quote ∉ content) (h : Respaced cs ds) :
      Respaced (quote :: (content ++ quote :: cs)) (quote :: (content ++ quote :: ds))
  /-- A quote without a partner: what follows it is inside of a string that has no end. -/
  | unclosed {quote : Char} {cs : List Char} (hquote : isQuote quote = true) (hcs : quote ∉ cs) :
      Respaced (quote :: cs) (quote :: cs)

theorem isBlank_of_isSolid {c : Char} (h : isSolid c = true) : isBlank c = false := by
  rw [isSolid, Bool.and_eq_true, Bool.not_eq_true'] at h
  exact h.1

theorem isQuote_of_isSolid {c : Char} (h : isSolid c = true) : isQuote c = false := by
  rw [isSolid, Bool.and_eq_true, Bool.not_eq_true', Bool.not_eq_true'] at h
  exact h.2

theorem isBlank_of_isQuote {c : Char} (h : isQuote c = true) : isBlank c = false := by
  rw [isQuote, Bool.or_eq_true, beq_iff_eq, beq_iff_eq] at h
  rcases h with rfl | rfl <;> rfl

namespace Respaced

variable {cs ds : List Char}

/-- Every text has a spacing: its own. -/
theorem refl (cs : List Char) : Respaced cs cs := by
  induction hn : cs.length using Nat.strong_induction_on generalizing cs with
  | _ n ih =>
      subst hn
      cases cs with
      | nil => exact .ended rfl rfl
      | cons c cs =>
          by_cases hblank : isBlank c = true
          · refine .blanks hblank hblank (ih _ ?_ _ rfl)
            exact Nat.lt_succ_of_le (Silent.length_skipped_le cs)
          rw [Bool.not_eq_true] at hblank
          by_cases hquote : isQuote c = true
          · by_cases hmem : c ∈ cs
            · obtain ⟨content, rest, rfl, habsent⟩ := List.eq_append_cons_of_mem hmem
              refine .quoted hquote habsent (ih _ ?_ _ rfl)
              simp only [List.length_cons, List.length_append]
              omega
            · exact .unclosed hquote hmem
          · have hsolid : isSolid c = true := by simp [isSolid, hblank, hquote]
            exact .character hsolid (ih _ (Nat.lt_succ_self _) _ rfl)

theorem symm (h : Respaced cs ds) : Respaced ds cs := by
  induction h with
  | ended hcs hds => exact .ended hds hcs
  | blanks hb hc _ ih => exact .blanks hc hb ih
  | character hc _ ih => exact .character hc ih
  | quoted hquote hcontent _ ih => exact .quoted hquote hcontent ih
  | unclosed hquote hcs => exact .unclosed hquote hcs

theorem skipped_cons {b : Char} (hb : isBlank b = true) (cs : List Char) :
    skipped (b :: cs) = skipped cs := List.dropWhile_cons_of_pos hb

/-- After blanks both texts begin with the same character. -/
theorem skips (h : Respaced cs ds) :
    Respaced (skipped cs) (skipped ds) ∧ (skipped cs).head? = (skipped ds).head? := by
  induction h with
  | ended hcs hds =>
      rw [hcs, hds]
      exact ⟨.ended rfl rfl, rfl⟩
  | @blanks b c cs ds hb hc h ih =>
      rw [skipped_cons hb, skipped_cons hc]
      rw [skipped_skipped, skipped_skipped] at ih
      exact ⟨h, ih.2⟩
  | character hc h _ =>
      have hblank := isBlank_of_isSolid hc
      rw [skipped_of_head hblank, skipped_of_head hblank]
      exact ⟨.character hc h, rfl⟩
  | quoted hquote hcontent h _ =>
      have hblank := isBlank_of_isQuote hquote
      rw [skipped_of_head hblank, skipped_of_head hblank]
      exact ⟨.quoted hquote hcontent h, rfl⟩
  | unclosed hquote hcs =>
      rw [skipped_of_head (isBlank_of_isQuote hquote)]
      exact ⟨.unclosed hquote hcs, rfl⟩

theorem skipped_eq_nil (h : Respaced cs ds) (hcs : skipped cs = []) : skipped ds = [] := by
  have hhead := h.skips.2
  rw [hcs, List.head?_nil] at hhead
  exact List.head?_eq_none_iff.mp hhead.symm

/-- A character outside of strings that is no blank stands in both texts. -/
theorem solid_cons {c : Char} (hc : isSolid c = true) (h : Respaced (c :: cs) ds) :
    ∃ rest, ds = c :: rest ∧ Respaced cs rest := by
  have hblank := isBlank_of_isSolid hc
  have hquote := isQuote_of_isSolid hc
  cases h with
  | ended hcs hds =>
      rw [skipped_of_head hblank] at hcs
      cases hcs
  | blanks hb _ _ =>
      rw [hblank] at hb
      cases hb
  | character _ h => exact ⟨_, rfl, h⟩
  | quoted hq _ _ | unclosed hq _ =>
      rw [hquote] at hq
      cases hq

theorem solid {taken : List Char} (htaken : ∀ c ∈ taken, isSolid c = true)
    (h : Respaced (taken ++ cs) ds) : ∃ rest, ds = taken ++ rest ∧ Respaced cs rest := by
  induction taken generalizing ds with
  | nil => exact ⟨ds, rfl, h⟩
  | cons c taken ih =>
      obtain ⟨hc, htaken⟩ := List.forall_mem_cons.mp htaken
      obtain ⟨tail, rfl, htail⟩ := solid_cons hc h
      obtain ⟨rest, rfl, hrest⟩ := ih htaken htail
      exact ⟨rest, rfl, hrest⟩

/-- A character outside of strings that is no blank is under both cursors or under none. -/
theorem tail {c : Char} (hc : isSolid c = true) (h : Respaced cs ds) (hcs : cs.head? = some c) :
    ds.head? = some c ∧ Respaced cs.tail ds.tail := by
  rw [← cons_tail_of_head? hcs] at h
  obtain ⟨rest, rfl, hrest⟩ := solid_cons hc h
  exact ⟨rfl, hrest⟩

theorem head?_eq_iff {c : Char} (hc : isSolid c = true) (h : Respaced cs ds) :
    cs.head? = some c ↔ ds.head? = some c :=
  ⟨fun hcs => (h.tail hc hcs).1, fun hds => (h.symm.tail hc hds).1⟩

/-- What a class of characters without blanks and quotes takes is the same. -/
theorem takeWhile {p : Char → Bool} (hp : ∀ c, p c = true → isSolid c = true)
    (h : Respaced cs ds) :
    cs.takeWhile p = ds.takeWhile p ∧ Respaced (cs.dropWhile p) (ds.dropWhile p) := by
  have htaken : ∀ c ∈ cs.takeWhile p, p c = true := List.all_eq_true.mp List.all_takeWhile
  rw [← List.takeWhile_append_dropWhile (p := p) (l := cs)] at h
  obtain ⟨rest, rfl, hrest⟩ := h.solid fun c hc => hp c (htaken c hc)
  have hstop : ∀ c ∈ rest.head?, p c = false := by
    intro c hc
    by_contra hpart
    rw [Bool.not_eq_false] at hpart
    have hhead := (hrest.head?_eq_iff (hp c hpart)).mpr hc
    have hfirst := List.head?_dropWhile_not p cs
    rw [hhead] at hfirst
    simp [hpart] at hfirst
  rw [takeWhile_append_stop htaken hstop, List.dropWhile_append_of_pos htaken]
  refine ⟨rfl, ?_⟩
  cases rest with
  | nil => exact hrest
  | cons c rest =>
      rw [List.dropWhile_cons_of_neg (by simp [hstop c rfl])]
      exact hrest

end Respaced

/-- What two readers answer that are to read alike: the same result with the same characters left
but for blanks, unless one of them meets a bound. -/
inductive Agrees {α : Type} : Reply (α × List Char) → Reply (α × List Char) → Prop where
  | accepted (a : α) {cs ds : List Char} (h : Respaced cs ds) :
      Agrees (.accepted (a, cs)) (.accepted (a, ds))
  | rejected : Agrees .rejected .rejected
  | exhaustedLeft (reply : Reply (α × List Char)) : Agrees .exhausted reply
  | exhaustedRight (reply : Reply (α × List Char)) : Agrees reply .exhausted

namespace Agrees

variable {α β : Type} {x y : Reply (α × List Char)}
  {accept accept' : α × List Char → Reply (β × List Char)}

theorem resume (h : Agrees x y) {reject reject' : Reply (β × List Char)}
    (haccept : ∀ a cs ds, Respaced cs ds → Agrees (accept (a, cs)) (accept' (a, ds)))
    (hreject : Agrees reject reject') :
    Agrees (x.resume accept reject) (y.resume accept' reject') := by
  cases h with
  | accepted a h => exact haccept a _ _ h
  | rejected => exact hreject
  | exhaustedLeft => exact .exhaustedLeft _
  | exhaustedRight => exact .exhaustedRight _

theorem bind (h : Agrees x y)
    (haccept : ∀ a cs ds, Respaced cs ds → Agrees (accept (a, cs)) (accept' (a, ds))) :
    Agrees (x.bind accept) (y.bind accept') := h.resume haccept .rejected

end Agrees

namespace OperatorTable

/-- No symbol has a blank or a quote in it. -/
def SolidSymbols (table : OperatorTable) : Prop :=
  ∀ op ∈ table.infixCandidates ++ table.prefixCandidates, ∀ c ∈ op.symbol.toList,
    isSolid c = true

theorem standard_solidSymbols : standard.SolidSymbols := by
  have hall : ∀ op ∈ standard.infixCandidates ++ standard.prefixCandidates,
      op.symbol.toList.all isSolid = true := by decide +kernel
  exact fun op hop => List.all_eq_true.mp (hall op hop)

/-- A symbol stands in both texts or in none. -/
theorem starts_eq {op : Operator} (hop : ∀ c ∈ op.symbol.toList, isSolid c = true)
    {cs ds : List Char} (h : Respaced cs ds) : op.starts cs = op.starts ds := by
  have hboth : ∀ {cs ds : List Char}, Respaced cs ds → op.starts cs → op.starts ds := by
    intro cs ds h hstarts
    obtain ⟨rest, rfl⟩ := List.isPrefixOf_iff_prefix.mp hstarts
    obtain ⟨rest, rfl, -⟩ := h.solid hop
    exact List.isPrefixOf_iff_prefix.mpr (List.prefix_append _ _)
  exact Bool.eq_iff_iff.mpr ⟨hboth h, hboth h.symm⟩

theorem drop_respaced {op : Operator} (hop : ∀ c ∈ op.symbol.toList, isSolid c = true)
    {cs ds : List Char} (h : Respaced cs ds) (hstarts : op.starts cs) :
    Respaced (cs.drop op.symbol.length) (ds.drop op.symbol.length) := by
  obtain ⟨rest, rfl⟩ := List.isPrefixOf_iff_prefix.mp hstarts
  obtain ⟨rest', rfl, hrest⟩ := h.solid hop
  rw [drop_symbol, drop_symbol]
  exact hrest

namespace SolidSymbols

variable {table : OperatorTable} (hsolid : table.SolidSymbols) {cs ds : List Char}
  (h : Respaced cs ds)
include hsolid h

theorem matchInfix?_eq : table.matchInfix? cs = table.matchInfix? ds :=
  List.find?_congr fun op hop => starts_eq (hsolid op (List.mem_append_left _ hop)) h

theorem matchPrefix?_eq : table.matchPrefix? cs = table.matchPrefix? ds :=
  List.find?_congr fun op hop => starts_eq (hsolid op (List.mem_append_right _ hop)) h

theorem after_matchInfix? {op : Operator} (hop : table.matchInfix? ds = some op) :
    Respaced (cs.drop op.symbol.length) (ds.drop op.symbol.length) := by
  have hmem := hsolid op (List.mem_append_left _ (List.mem_of_find?_eq_some hop))
  refine drop_respaced hmem h ?_
  rw [starts_eq hmem h]
  exact matchInfix?_starts hop

theorem after_matchPrefix? {op : Operator} (hop : table.matchPrefix? ds = some op) :
    Respaced (cs.drop op.symbol.length) (ds.drop op.symbol.length) := by
  have hmem := hsolid op (List.mem_append_right _ (List.mem_of_find?_eq_some hop))
  refine drop_respaced hmem h ?_
  rw [starts_eq hmem h]
  exact matchPrefix?_starts hop

end SolidSymbols

end OperatorTable

namespace Silent

/-- Two readers answer alike to texts that differ only in blanks. -/
def Alike {α : Type} (silent other : Silent α) : Prop :=
  ∀ cs ds, Respaced cs ds → Agrees (silent cs) (other ds)

/-! ## Tokens -/

theorem isSolid_of_isNamePart {c : Char} (h : isNamePart c = true) : isSolid c = true := by
  have hne : c ≠ ' ' ∧ c ≠ '\t' ∧ c ≠ '\'' ∧ c ≠ '"' := by
    refine ⟨?_, ?_, ?_, ?_⟩ <;> rintro rfl <;> exact absurd h (by decide)
  simp [isSolid, isBlank, isQuote, hne]

theorem isSolid_of_isDigit {c : Char} (h : c.isDigit = true) : isSolid c = true :=
  isSolid_of_isNamePart (by simp only [isNamePart, Char.isAlphanum, h, Bool.or_true, Bool.true_or])

/-- How a name is read. -/
theorem token_identifier_eq (cs : List Char) : token Cursor.identifier? cs =
    if cs.head?.any isNameStart then
      .accepted (String.ofList (cs.takeWhile isNamePart), cs.dropWhile isNamePart)
    else .rejected := by
  cases cs with
  | nil => rfl
  | cons c cs =>
      have hfirst : (c :: cs).head?.any isNameStart = isNameStart c := rfl
      rw [hfirst]
      split
      · next hc =>
        have hread : (⟨0, c :: cs, 0⟩ : Cursor).identifier? =
            some (_, (⟨0, c :: cs, 0⟩ : Cursor).past ((c :: cs).takeWhile isNamePart)) := if_pos hc
        rw [token_eq hread, Cursor.past, drop_length_takeWhile]
      · next hc =>
        have hread : (⟨0, c :: cs, 0⟩ : Cursor).identifier? = none := if_neg hc
        rw [token, hread]

theorem any_head?_eq {cs ds : List Char} {p : Char → Bool} (hp : ∀ c, p c = true → isSolid c = true)
    (h : Respaced cs ds) : cs.head?.any p = ds.head?.any p := by
  rw [Bool.eq_iff_iff, Option.any_eq_true, Option.any_eq_true]
  constructor
  · rintro ⟨c, hhead, hc⟩
    exact ⟨c, (h.head?_eq_iff (hp c hc)).mp hhead, hc⟩
  · rintro ⟨c, hhead, hc⟩
    exact ⟨c, (h.head?_eq_iff (hp c hc)).mpr hhead, hc⟩

theorem name_alike : Alike (token Cursor.identifier?) (token Cursor.identifier?) := by
  intro cs ds h
  obtain ⟨htaken, hrest⟩ := h.takeWhile fun c => isSolid_of_isNamePart
  have hstart : cs.head?.any isNameStart = ds.head?.any isNameStart :=
    any_head?_eq (fun c hc => isSolid_of_isNamePart (isNamePart_of_isNameStart hc)) h
  rw [token_identifier_eq, token_identifier_eq, hstart, htaken]
  split
  · exact .accepted _ hrest
  · exact .rejected

theorem isSolid_signChars (negative : Bool) : ∀ c ∈ signChars negative, isSolid c = true := by
  cases negative with
  | false => exact List.forall_mem_nil _
  | true => exact List.forall_mem_singleton.mpr rfl

/-- The characters of a number stand in both texts. -/
theorem number_parts {negative : Bool} {whole tail ds : List Char} (hwhole : IsDigits whole)
    (htail : ∀ c ∈ tail.head?, c.isDigit = false)
    (h : Respaced (signChars negative ++ (whole ++ tail)) ds) :
    ∃ rest, ds = signChars negative ++ (whole ++ rest) ∧ Respaced tail rest ∧
      ∀ c ∈ rest.head?, c.isDigit = false := by
  obtain ⟨ds, rfl, hds⟩ := h.solid (isSolid_signChars negative)
  obtain ⟨rest, rfl, hrest⟩ := hds.solid fun c hc => isSolid_of_isDigit (hwhole.2 c hc)
  refine ⟨rest, rfl, hrest, fun c hc => ?_⟩
  by_contra hdigit
  rw [Bool.not_eq_false] at hdigit
  have hhead := (hrest.head?_eq_iff (isSolid_of_isDigit hdigit)).mpr hc
  rw [htail c hhead] at hdigit
  cases hdigit

theorem startsNumber_of_respaced {cs ds : List Char} (h : Respaced cs ds) (hcs : StartsNumber cs) :
    StartsNumber ds := by
  obtain ⟨negative, whole, tail, hwhole, htail, rfl⟩ := hcs.digits
  obtain ⟨rest, rfl, -, -⟩ := number_parts hwhole htail h
  exact startsNumber_of_digits hwhole

theorem fractionChars_eq (cs : List Char) :
    fractionChars cs = if cs.head? = some '.' then cs.tail.takeWhile Char.isDigit else [] := by
  unfold fractionChars
  split
  · rfl
  · next hpoint =>
    rw [if_neg]
    exact fun hhead => hpoint cs.tail (cons_tail_of_head? hhead).symm

/-- The same fraction follows, and what is left after it differs in blanks alone. -/
theorem fraction_respaced {cs ds : List Char} (h : Respaced cs ds) :
    fractionChars cs = fractionChars ds ∧
      (fractionChars cs ≠ [] → Respaced (cs.tail.dropWhile Char.isDigit)
        (ds.tail.dropWhile Char.isDigit)) := by
  have hpoint := h.head?_eq_iff (c := '.') rfl
  rw [fractionChars_eq, fractionChars_eq]
  by_cases hcs : cs.head? = some '.'
  · obtain ⟨hds, htail⟩ := h.tail rfl hcs
    rw [if_pos hcs, if_pos hds]
    obtain ⟨htaken, hrest⟩ := htail.takeWhile fun c => isSolid_of_isDigit
    exact ⟨htaken, fun _ => hrest⟩
  · rw [if_neg hcs, if_neg (hpoint.not.mp hcs)]
    exact ⟨rfl, fun hne => absurd rfl hne⟩

/-- How a number is read. -/
theorem token_number_eq (negative : Bool) {whole tail : List Char} (hwhole : IsDigits whole)
    (htail : ∀ c ∈ tail.head?, c.isDigit = false) :
    token Cursor.number? (signChars negative ++ (whole ++ tail)) =
      if fractionChars tail = [] then .accepted (integerValue negative whole, tail)
      else .accepted (.float (readDecimal negative whole (fractionChars tail)),
        tail.tail.dropWhile Char.isDigit) := by
  have hread := number?_eq negative hwhole htail rfl
  by_cases hfraction : fractionChars tail = []
  · rw [if_pos hfraction] at hread ⊢
    rw [token_eq hread, ← List.append_assoc, past_rest]
  · rw [if_neg hfraction] at hread ⊢
    obtain ⟨-, rest, hrest⟩ := fraction_eq hfraction
    have hchars : fractionChars tail = tail.tail.takeWhile Char.isDigit := by
      rw [fractionChars_eq, if_pos (by rw [hrest]; rfl)]
    have htaken : signChars negative ++ (whole ++ tail) =
        signChars negative ++ whole ++ '.' :: fractionChars tail ++
          tail.tail.dropWhile Char.isDigit := by
      have hpoint : '.' :: tail.tail = tail := by
        rw [hrest]
        rfl
      rw [hchars, List.append_assoc _ ('.' :: _), List.cons_append,
        List.takeWhile_append_dropWhile, hpoint, List.append_assoc]
    rw [token_eq hread, htaken, past_rest]

theorem number_alike : Alike (token Cursor.number?) (token Cursor.number?) := by
  intro cs ds h
  by_cases hcs : StartsNumber cs
  · obtain ⟨negative, whole, tail, hwhole, htail, rfl⟩ := hcs.digits
    obtain ⟨rest, rfl, hrest, hstop⟩ := number_parts hwhole htail h
    obtain ⟨hfraction, hafter⟩ := fraction_respaced hrest
    rw [token_number_eq negative hwhole htail, token_number_eq negative hwhole hstop, ← hfraction]
    split
    · exact .accepted _ hrest
    · next hne => exact .accepted _ (hafter hne)
  · have hds : ¬StartsNumber ds := fun hds => hcs (startsNumber_of_respaced h.symm hds)
    rw [token, number?_eq_none hcs, token, number?_eq_none hds]
    exact .rejected

theorem eq_quote_of_isQuote {c : Char} (h : isQuote c = true) : c = '\'' ∨ c = '"' := by
  rwa [isQuote, Bool.or_eq_true, beq_iff_eq, beq_iff_eq] at h

/-- A quote without a partner starts no string. -/
theorem token_unclosed_rejected {quote : Char} {cs : List Char} (h : quote ∉ cs) :
    token Cursor.quotedString? (quote :: cs) = .rejected := by
  have hnone : ¬StartsQuoted (quote :: cs) := by
    rintro ⟨quote, content, tail, -, heq⟩
    obtain ⟨rfl, rfl⟩ := List.cons.inj heq
    exact h (List.mem_append_right _ List.mem_cons_self)
  rw [token, quotedString?_eq_none hnone]

theorem string_agrees {quote : Char} (hquote : isQuote quote = true) {cs ds : List Char}
    (h : Respaced cs ds) (hcs : cs.head? = some quote) :
    Agrees (token Cursor.quotedString? cs) (token Cursor.quotedString? ds) := by
  have hblank := isBlank_of_isQuote hquote
  obtain ⟨tail, rfl⟩ : ∃ tail, cs = quote :: tail := ⟨cs.tail, (cons_tail_of_head? hcs).symm⟩
  cases h with
  | ended hcs hds =>
      rw [skipped_of_head hblank] at hcs
      cases hcs
  | blanks hb _ _ =>
      rw [hblank] at hb
      cases hb
  | character hc _ =>
      rw [isQuote_of_isSolid hc] at hquote
      cases hquote
  | quoted _ hcontent h =>
      rw [token_content (eq_quote_of_isQuote hquote) hcontent,
        token_content (eq_quote_of_isQuote hquote) hcontent]
      exact .accepted _ h
  | unclosed _ hcs =>
      rw [token_unclosed_rejected hcs]
      exact .rejected

/-! ## Productions -/

variable {g : Grammar}

theorem precompiled_alike : Alike (precompiled g) (precompiled g) := by
  intro cs ds h
  rw [precompiled, precompiled]
  by_cases hcs : cs.head? = some '#'
  · obtain ⟨hds, htail⟩ := h.tail rfl hcs
    rw [if_pos hcs, if_pos hds]
    refine (name_alike _ _ htail).bind fun name cs ds hrest => ?_
    simp only
    cases g.functions.precompiled? name with
    | none => exact .rejected
    | some found => exact .accepted _ hrest
  · rw [if_neg hcs, if_neg ((h.head?_eq_iff rfl).not.mp hcs)]
    exact .rejected

section Productions

variable {e e' : Int32 → Silent Formula} (halike : ∀ limit, Alike (e limit) (e' limit))
include halike

theorem parenthesis_alike : Alike (parenthesis g e) (parenthesis g e') := by
  intro cs ds h
  rw [parenthesis, parenthesis]
  cases g.operators.structural .parenthesis with
  | none => exact .rejected
  | some operator =>
      simp only
      by_cases hcs : cs.head? = some '('
      · obtain ⟨hds, htail⟩ := h.tail rfl hcs
        rw [if_pos hcs, if_pos hds]
        refine (halike _ _ _ htail).bind fun inner cs ds hrest => ?_
        obtain ⟨hrest, hhead⟩ := hrest.skips
        simp only [hhead]
        by_cases hclose : (skipped ds).head? = some ')'
        · rw [if_pos hclose, if_pos hclose]
          exact .accepted _ (hrest.tail rfl (hhead.trans hclose)).2
        · rw [if_neg hclose, if_neg hclose]
          exact .rejected
      · rw [if_neg hcs, if_neg ((h.head?_eq_iff rfl).not.mp hcs)]
        exact .rejected

theorem operandBody_agrees {cs ds : List Char} (h : Respaced cs ds) (hhead : cs.head? = ds.head?) :
    Agrees (operandBody g e cs) (operandBody g e' ds) := by
  rw [operandBody, operandBody, ← hhead]
  split
  · exact precompiled_alike cs ds h
  · exact parenthesis_alike halike cs ds h
  · next hquote => exact (string_agrees rfl h hquote).bind fun _ _ _ hrest => .accepted _ hrest
  · next hquote => exact (string_agrees rfl h hquote).bind fun _ _ _ hrest => .accepted _ hrest
  · refine (number_alike cs ds h).resume (fun _ _ _ hrest => .accepted _ hrest) ?_
    exact (name_alike cs ds h).bind fun _ _ _ hrest => .accepted _ hrest

variable (hsolid : g.operators.SolidSymbols)

include hsolid in
theorem prefixed_alike : Alike (prefixed g e) (prefixed g e') := by
  intro cs ds h
  obtain ⟨hskipped, hhead⟩ := h.skips
  rw [prefixed, prefixed, hsolid.matchPrefix?_eq hskipped]
  refine (operandBody_agrees halike hskipped hhead).resume (fun _ _ _ h => .accepted _ h) ?_
  split
  · exact .rejected
  · next operator hoperator =>
    refine (halike _ _ _ (hsolid.after_matchPrefix? hskipped hoperator)).bind fun _ _ _ hrest => ?_
    exact .accepted _ hrest

theorem argumentsFrom_alike {close : Char} (hclose : isSolid close = true) (fuel fuel' : Nat) :
    Alike (argumentsFrom e close fuel) (argumentsFrom e' close fuel') := by
  intro cs ds h
  induction fuel generalizing fuel' cs ds with
  | zero => exact .exhaustedLeft _
  | succ fuel ih =>
      cases fuel' with
      | zero => exact .exhaustedRight _
      | succ fuel' =>
          rw [argumentsFrom, argumentsFrom]
          refine (halike _ _ _ h).bind fun argument cs ds hrest => ?_
          obtain ⟨hrest, hhead⟩ := hrest.skips
          simp only [hhead]
          split
          · next hcomma =>
            refine (ih fuel' _ _ (hrest.tail rfl (hhead.trans hcomma)).2).bind fun _ _ _ h => ?_
            exact .accepted _ h
          split
          · next hlast => exact .accepted _ (hrest.tail hclose (hhead.trans hlast)).2
          · exact .rejected

theorem arguments_alike {close : Char} (hclose : isSolid close = true) (allowEmpty : Bool) :
    Alike (arguments e close allowEmpty) (arguments e' close allowEmpty) := by
  intro cs ds h
  obtain ⟨hskipped, hhead⟩ := h.skips
  rw [arguments, arguments, hhead]
  split
  · next hempty => exact .accepted _ (hskipped.tail hclose (hhead.trans hempty.2)).2
  · exact argumentsFrom_alike halike hclose _ _ _ _ hskipped

theorem call_alike (callee : Formula) : Alike (call g e callee) (call g e' callee) := by
  intro cs ds h
  rw [call, call]
  split
  · exact .rejected
  · next form operands native _ =>
    simp only
    split
    · exact .rejected
    · refine (arguments_alike halike rfl true _ _ h).bind fun _ _ _ hrest => ?_
      exact .accepted _ hrest

theorem indexing_alike (target : Formula) : Alike (indexing g e target) (indexing g e' target) := by
  intro cs ds h
  rw [indexing, indexing]
  split
  · exact .rejected
  · exact (arguments_alike halike rfl false _ _ h).bind fun _ _ _ hrest => .accepted _ hrest

include hsolid

theorem follow_alike (limit : Int32) (left : Formula) (chained : Option Int32) :
    Alike (follow g e limit left chained) (follow g e' limit left chained) := by
  intro cs ds h
  obtain ⟨hskipped, hhead⟩ := h.skips
  rw [follow, follow]
  simp only [hhead, hsolid.matchInfix?_eq hskipped]
  split
  · next hopen =>
    have htail := (hskipped.tail rfl (hhead.trans hopen)).2
    exact (call_alike halike left _ _ htail).bind fun _ _ _ hrest => .accepted _ hrest
  split
  · next hopen =>
    have htail := (hskipped.tail rfl (hhead.trans hopen)).2
    exact (indexing_alike halike left _ _ htail).bind fun _ _ _ hrest => .accepted _ hrest
  split
  · exact .rejected
  next operator hoperator =>
  have hafter := hsolid.after_matchInfix? hskipped hoperator
  split
  · exact (name_alike _ _ hafter.skips.1).bind fun _ _ _ hrest => .accepted _ hrest
  split
  · exact .rejected
  split
  · exact .rejected
  · exact (halike _ _ _ hafter).bind fun _ _ _ hrest => .accepted _ hrest

theorem chain_alike (limit : Int32) (fuel fuel' : Nat) (left : Formula) (chained : Option Int32) :
    Alike (chain g e limit fuel left chained) (chain g e' limit fuel' left chained) := by
  intro cs ds h
  induction fuel generalizing fuel' left chained cs ds with
  | zero => exact .exhaustedLeft _
  | succ fuel ih =>
      cases fuel' with
      | zero => exact .exhaustedRight _
      | succ fuel' =>
          rw [chain, chain]
          refine (follow_alike halike hsolid limit left chained cs ds h).resume ?_ (.accepted _ h)
          rintro ⟨f, c⟩ cs ds hrest
          exact ih fuel' f c cs ds hrest

theorem expressionBody_alike (limit : Int32) :
    Alike (expressionBody g e limit) (expressionBody g e' limit) := by
  intro cs ds h
  rw [expressionBody, expressionBody]
  refine (prefixed_alike halike hsolid cs ds h).bind fun left cs ds hrest => ?_
  exact chain_alike halike hsolid limit _ _ left none cs ds hrest

end Productions

theorem expression_alike (hsolid : g.operators.SolidSymbols) (depth depth' : Nat) (limit : Int32) :
    Alike (expression g depth limit) (expression g depth' limit) := by
  induction depth generalizing depth' limit with
  | zero => exact fun cs ds _ => .exhaustedLeft _
  | succ depth ih =>
      cases depth' with
      | zero => exact fun cs ds _ => .exhaustedRight _
      | succ depth' => exact expressionBody_alike (ih depth') hsolid limit

end Silent

namespace Grammar

variable {g : Grammar}

/-- A text and one that differs from it only in how long its runs of blanks outside of strings are,
and in the blanks at its ends, hold the same formula or both none. -/
theorem read_respaced (hstandard : g.operators = .standard) {text other : String}
    (h : Respaced (skipped text.toList) (skipped other.toList)) (f : Formula) :
    g.read text = .ok f ↔ g.read other = .ok f := by
  have hsolid : g.operators.SolidSymbols := hstandard ▸ standard_solidSymbols
  have hread : ∀ {text other : String}, Respaced (skipped text.toList) (skipped other.toList) →
      g.read text = .ok f → g.read other = .ok f := by
    intro text other h hread
    rw [read_eq_ok_iff] at hread ⊢
    obtain ⟨hne, rest, hrest, haccepted⟩ := hread
    refine ⟨fun hnil => hne ?_, ?_⟩
    · have hskipped := h.symm.skipped_eq_nil (by rw [skipped_skipped, hnil])
      rwa [skipped_skipped] at hskipped
    have hagrees := Silent.expression_alike hsolid (text.toList.length + 1)
      (other.toList.length + 1) topLimit _ _ h
    have hroom : Silent.expression g (other.toList.length + 1) topLimit (skipped other.toList) ≠
        .exhausted :=
      Silent.expression_ample (prefixesShow hstandard) _ topLimit _
        (Nat.lt_succ_of_le (Silent.length_skipped_le other.toList))
    rw [haccepted] at hagrees
    generalize Silent.expression g _ topLimit (skipped other.toList) = reply at hagrees hroom
    cases hagrees with
    | accepted a hrespaced => exact ⟨_, hrespaced.skipped_eq_nil hrest, rfl⟩
    | exhaustedRight => exact absurd rfl hroom
  exact ⟨hread h, hread h.symm⟩

/-- Blanks between tokens and at the ends make no difference; those inside of a string stay. -/
theorem read_respaced_of_sum :
    let f : Formula := .node .addition [.constant (.string "a  b"), .identifier "x"]
    standard.operators = .standard ∧
      Respaced (skipped "'a  b' + x".toList) (skipped "\t'a  b'  +\tx ".toList) ∧
      standard.read "'a  b' + x" = .ok f ∧ standard.read "\t'a  b'  +\tx " = .ok f := by
  have hsum : Respaced " + x".toList "  +\tx ".toList :=
    .blanks rfl rfl (.character rfl (.blanks rfl rfl (.character rfl (.ended rfl rfl))))
  have hrespaced : Respaced (skipped "'a  b' + x".toList) (skipped "\t'a  b'  +\tx ".toList) := by
    have hquoted := @Respaced.quoted '\'' "a  b".toList _ _ rfl (by decide) hsum
    exact hquoted
  have hread : standard.read "'a  b' + x" =
      .ok (.node .addition [.constant (.string "a  b"), .identifier "x"]) := by rfl
  exact ⟨rfl, hrespaced, hread, (read_respaced rfl hrespaced _).mp hread⟩

end Grammar

end Formulary
