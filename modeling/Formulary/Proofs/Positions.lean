import Formulary.Proofs.Silent

/-! # Where readers stand

A reader that accepts has moved past whole characters, and most readers that reject stand where
they stood. A failure is noted behind a beginning of what was ahead, while something was being
read there; `Stumbles` lists what that can be. The silent reader says which of these happens.
-/

namespace Formulary

/-- The blanks that come first. -/
def blanks (cs : List Char) : List Char := cs.takeWhile isBlank

theorem blanks_append_skipped (cs : List Char) : blanks cs ++ skipped cs = cs :=
  List.takeWhile_append_dropWhile

theorem isBlank_iff {c : Char} : isBlank c = true ↔ c = ' ' ∨ c = '\t' := by
  rw [isBlank, Bool.or_eq_true, beq_iff_eq, beq_iff_eq]

theorem eq_of_blanks {cs tail : List Char} {c : Char} (h : blanks cs = c :: tail) :
    c = ' ' ∨ c = '\t' :=
  isBlank_iff.mp (List.all_eq_true.mp List.all_takeWhile c (h ▸ List.mem_cons_self))

theorem skipped_blanks_append (cs u : List Char) : skipped (blanks cs ++ u) = skipped u :=
  List.dropWhile_append_of_pos fun c hc => List.all_eq_true.mp List.all_takeWhile c hc

theorem skipped_blanks_cons (cs : List Char) {c : Char} (hc : isBlank c = false)
    (rest : List Char) : skipped (blanks cs ++ c :: rest) = c :: rest := by
  rw [skipped_blanks_append, skipped_of_head hc]

theorem cons_tail_of_head? {cs : List Char} {x : Char} (h : cs.head? = some x) :
    x :: cs.tail = cs := by
  cases cs with
  | nil => cases h
  | cons y cs =>
      cases h
      rfl

theorem blanks_append_cons {cs : List Char} {c : Char} (h : (skipped cs).head? = some c) :
    blanks cs ++ c :: (skipped cs).tail = cs := by
  rw [cons_tail_of_head? h, blanks_append_skipped]

theorem Operator.symbol_append_drop {op : Operator} {cs : List Char} (h : op.starts cs) :
    op.symbol.toList ++ cs.drop op.symbol.length = cs := by
  obtain ⟨rest, rfl⟩ := List.isPrefixOf_iff_prefix.mp h
  rw [drop_symbol]

namespace Cursor

/-- A reader of tokens that moves past whole characters. -/
def Passes {α : Type} (read? : Cursor → Option (α × Cursor)) : Prop :=
  ∀ {cs a next}, read? ⟨0, cs, 0⟩ = some (a, next) →
    ∃ taken, taken ++ next.rest = cs ∧ next.position = byteLength taken

theorem past_prefix {taken cs : List Char} (h : taken <+: cs) :
    taken ++ ((⟨0, cs, 0⟩ : Cursor).past taken).rest = cs ∧
      ((⟨0, cs, 0⟩ : Cursor).past taken).position = byteLength taken := by
  obtain ⟨rest, rfl⟩ := h
  exact ⟨congrArg _ List.drop_left, Nat.zero_add _⟩

theorem identifier?_passes : Passes identifier? := by
  intro cs name next h
  cases cs with
  | nil => cases h
  | cons x cs =>
      simp only [identifier?, peek?, if_true, List.head?_cons] at h
      split at h
      · cases h
        exact ⟨_, past_prefix (List.takeWhile_prefix _)⟩
      · cases h

theorem number?_passes : Passes number? := by
  intro cs value next h
  simp only [number?, ne_eq, not_true_eq_false, if_false] at h
  have hsign : (if (cs.head? == some '-') = true then ['-'] else []) <+: cs := by
    split
    · next hminus =>
      rw [← cons_tail_of_head? (beq_iff_eq.mp hminus)]
      exact List.prefix_append ['-'] _
    · exact List.nil_prefix
  generalize (if (cs.head? == some '-') = true then ['-'] else []) = sign at h hsign
  obtain ⟨unsigned, rfl⟩ := hsign
  rw [List.drop_left] at h
  have hwhole : sign ++ unsigned.takeWhile Char.isDigit <+: sign ++ unsigned :=
    (List.prefix_append_right_inj sign).mpr (List.takeWhile_prefix _)
  split at h
  · cases h
  · split at h
    · next fraction hpoint =>
      split at h
      · cases h
        exact ⟨_, past_prefix hwhole⟩
      · cases h
        refine ⟨_, past_prefix ?_⟩
        -- The point and what follows it are what the digits leave.
        rw [← List.drop_drop, List.drop_left, drop_length_takeWhile] at hpoint
        have htail :
            '.' :: fraction.takeWhile Char.isDigit <+: unsigned.dropWhile Char.isDigit := by
          rw [hpoint, List.cons_prefix_cons]
          exact ⟨rfl, List.takeWhile_prefix _⟩
        have hunsigned := (List.prefix_append_right_inj (unsigned.takeWhile Char.isDigit)).mpr htail
        rw [List.takeWhile_append_dropWhile] at hunsigned
        rw [List.append_assoc]
        exact (List.prefix_append_right_inj sign).mpr hunsigned
    · cases h
      exact ⟨_, past_prefix hwhole⟩

/-- The first character that is no part of the content of a string is its closing quote. -/
theorem content_append_quote {quote last : Char} {cs rest : List Char}
    (h : cs.drop (cs.takeWhile (· != quote)).length = last :: rest) :
    cs.takeWhile (· != quote) ++ quote :: rest = cs := by
  rw [drop_length_takeWhile] at h
  have hlast : last = quote := by
    have hstop := List.head?_dropWhile_not (· != quote) cs
    rw [h] at hstop
    simpa using hstop
  calc cs.takeWhile (· != quote) ++ quote :: rest
    _ = cs.takeWhile (· != quote) ++ cs.dropWhile (· != quote) := by rw [h, hlast]
    _ = cs := List.takeWhile_append_dropWhile

theorem quotedString?_passes : Passes quotedString? := by
  intro cs text next h
  cases cs with
  | nil => cases h
  | cons quote cs =>
      simp only [quotedString?, peek?, if_true, List.head?_cons, List.drop_one,
        List.tail_cons] at h
      split at h
      · split at h
        · cases h
        · next last rest hclose =>
          cases h
          rw [Nat.add_comm, List.drop_succ_cons] at hclose
          refine ⟨_, past_prefix ?_⟩
          rw [List.cons_append, List.cons_prefix_cons]
          refine ⟨rfl, rest, ?_⟩
          rw [List.append_assoc, List.singleton_append, content_append_quote hclose]
      · cases h

end Cursor

/-- The failures were noted behind beginnings of what is ahead at byte `p`, such as `P` allows. -/
def Noted (P : List Char → Prop) (p : Nat) (cs : List Char) (noted : List ParseError) : Prop :=
  ∀ error ∈ noted, ∃ before, before <+: cs ∧ P before ∧
    error.position? = some (p + byteLength before)

/-- How a reader ends that starts outside of characters at byte `p`, with `cs` ahead, and answers
what a silent one does: on acceptance it has moved past whole characters, on rejection the cursor is
in a place that `home` allows, and failures are noted as `P` allows. -/
inductive Tracked {α : Type} (P : List Char → Prop) (home : Cursor → Prop) (p : Nat)
    (cs : List Char) (failures : List ParseError) :
    Reply α × ReadState → Reply (α × List Char) → Prop where
  | accepted {a : α} {taken rest : List Char} {noted : List ParseError}
      (hcs : taken ++ rest = cs) (hnoted : Noted P p cs noted) :
      Tracked P home p cs failures
        (.accepted a, ⟨⟨p + byteLength taken, rest, 0⟩, noted ++ failures⟩) (.accepted (a, rest))
  | rejected {cursor : Cursor} {noted : List ParseError} (hhome : home cursor)
      (hnoted : Noted P p cs noted) :
      Tracked P home p cs failures (.rejected, ⟨cursor, noted ++ failures⟩) .rejected
  | exhausted {s : ReadState} : Tracked P home p cs failures (.exhausted, s) .exhausted

theorem Noted.nil {P : List Char → Prop} {p : Nat} {cs : List Char} : Noted P p cs [] :=
  fun _ hmem => absurd hmem List.not_mem_nil

theorem Noted.append {P : List Char → Prop} {p : Nat} {cs : List Char}
    {later earlier : List ParseError} (hlater : Noted P p cs later)
    (hearlier : Noted P p cs earlier) : Noted P p cs (later ++ earlier) := by
  intro error hmem
  rcases List.mem_append.mp hmem with hmem | hmem
  · exact hlater error hmem
  · exact hearlier error hmem

theorem Noted.after {P P' : List Char → Prop} {p : Nat} {cs taken rest : List Char}
    {noted : List ParseError} (h : Noted P' (p + byteLength taken) rest noted)
    (hcs : taken ++ rest = cs) (hP : ∀ before, P' before → P (taken ++ before)) :
    Noted P p cs noted := by
  intro error hmem
  obtain ⟨before, hbefore, hallowed, hposition⟩ := h error hmem
  refine ⟨taken ++ before, ?_, hP before hallowed, ?_⟩
  · rw [← hcs]
    exact (List.prefix_append_right_inj taken).mpr hbefore
  · rw [hposition, byteLength_append, Nat.add_assoc]

namespace Tracked

theorem mirrors {α : Type} {P : List Char → Prop} {home : Cursor → Prop} {p : Nat}
    {cs : List Char} {failures : List ParseError} {result : Reply α × ReadState}
    {reply : Reply (α × List Char)} (h : Tracked P home p cs failures result reply) :
    Mirrors result reply := by
  cases h with
  | accepted => exact .accepted ..
  | rejected => exact .rejected _
  | exhausted => exact .exhausted _

variable {α β : Type} {P P' : List Char → Prop} {home home' : Cursor → Prop} {p : Nat}
  {cs taken rest : List Char} {failures noted : List ParseError} {c : Cursor}

/-- What comes after something else that was taken. -/
theorem after {result : Reply α × ReadState} {reply : Reply (α × List Char)}
    (h : Tracked P' home (p + byteLength taken) rest failures result reply)
    (hcs : taken ++ rest = cs) (hP : ∀ before, P' before → P (taken ++ before)) :
    Tracked P home p cs failures result reply := by
  cases h with
  | accepted hrest hmore =>
      rw [Nat.add_assoc, ← byteLength_append]
      refine .accepted ?_ (hmore.after hcs hP)
      rw [List.append_assoc, hrest, hcs]
  | rejected hhome hmore => exact .rejected hhome (hmore.after hcs hP)
  | exhausted => exact .exhausted

/-- What comes after other failures that were noted. -/
theorem noting {result : Reply α × ReadState} {reply : Reply (α × List Char)}
    (h : Tracked P home p cs (noted ++ failures) result reply) (hnoted : Noted P p cs noted) :
    Tracked P home p cs failures result reply := by
  cases h with
  | accepted hrest hmore =>
      rw [← List.append_assoc]
      exact .accepted hrest (hmore.append hnoted)
  | rejected hhome hmore =>
      rw [← List.append_assoc]
      exact .rejected hhome (hmore.append hnoted)
  | exhausted => exact .exhausted

theorem mono {result : Reply α × ReadState} {reply : Reply (α × List Char)}
    (h : Tracked P home p cs failures result reply) (hhome : ∀ c, home c → home' c)
    (hP : ∀ before, P before → P' before) : Tracked P' home' p cs failures result reply := by
  have hnoted : ∀ {noted}, Noted P p cs noted → Noted P' p cs noted :=
    fun hnoted error hmem => (hnoted error hmem).imp fun _ hb => ⟨hb.1, hP _ hb.2.1, hb.2.2⟩
  cases h with
  | accepted hcs hmore => exact .accepted hcs (hnoted hmore)
  | rejected hplace hmore => exact .rejected (hhome _ hplace) (hnoted hmore)
  | exhausted => exact .exhausted

theorem accept (a : α) :
    Tracked P home p cs failures (Reading.accept a ⟨⟨p, cs, 0⟩, failures⟩) (.accepted (a, cs)) :=
  @Tracked.accepted α P home p cs failures a [] cs [] rfl .nil

theorem reject (hhome : home c) :
    Tracked P home p cs failures ((Reading.reject : Reading α) ⟨c, failures⟩) .rejected :=
  @Tracked.rejected α P home p cs failures _ [] hhome .nil

theorem giveUp {start : Cursor} (hhome : home start) :
    Tracked P home p cs failures ((Reading.giveUp start : Reading α) ⟨c, failures⟩) .rejected :=
  @Tracked.rejected α P home p cs failures _ [] hhome .nil

theorem noteBehind {error : ParseError} {before : List Char} {next : Unit → Reading α}
    {reply : Reply (α × List Char)} (hbefore : before <+: cs) (hallowed : P before)
    (hposition : error.position? = some (p + byteLength before))
    (h : Tracked P home p cs (error :: failures) (next () ⟨c, error :: failures⟩) reply) :
    Tracked P home p cs failures ((Reading.note error >>= next) ⟨c, failures⟩) reply := by
  refine @noting _ _ _ _ _ _ [error] _ _ h ?_
  intro other hmem
  obtain rfl := List.mem_singleton.mp hmem
  exact ⟨before, hbefore, hallowed, hposition⟩

/-- A failure is noted where the reader started. -/
theorem note {error : ParseError} {next : Unit → Reading α} {reply : Reply (α × List Char)}
    (hposition : error.position? = some p) (hallowed : P [])
    (h : Tracked P home p cs (error :: failures) (next () ⟨c, error :: failures⟩) reply) :
    Tracked P home p cs failures ((Reading.note error >>= next) ⟨c, failures⟩) reply :=
  noteBehind List.nil_prefix hallowed hposition h

theorem skipBlanks {next : Unit → Reading α} {reply : Reply (α × List Char)}
    (h : Tracked (fun before => P (blanks cs ++ before)) home (p + byteLength (blanks cs))
      (skipped cs) failures (next () ⟨⟨p + byteLength (blanks cs), skipped cs, 0⟩, failures⟩)
      reply) :
    Tracked P home p cs failures ((Reading.skipBlanks >>= next) ⟨⟨p, cs, 0⟩, failures⟩) reply := by
  rw [Reading.skipBlanks_bind]
  exact after h (blanks_append_skipped cs) fun _ hb => hb

/-- A character was taken. -/
theorem eaten {x : Char} (hx : cs.head? = some x) {result : Reply α × ReadState}
    {reply : Reply (α × List Char)}
    (h : Tracked (fun before => P (x :: before)) home (p + byteLength [x]) cs.tail failures result
      reply) : Tracked P home p cs failures result reply :=
  @after _ _ _ _ _ _ [x] _ _ _ _ h (cons_tail_of_head? hx) fun _ hb => hb

/-- The symbol of an operator was passed. -/
theorem passed {op : Operator} (hstarts : op.starts cs) {next : Unit → Reading α}
    {reply : Reply (α × List Char)}
    (h : Tracked (fun before => P (op.symbol.toList ++ before)) home
      (p + byteLength op.symbol.toList) (cs.drop op.symbol.length) failures
      (next () ⟨⟨p + byteLength op.symbol.toList, cs.drop op.symbol.length, 0⟩, failures⟩) reply) :
    Tracked P home p cs failures
      ((Reading.moveTo ((⟨p, cs, 0⟩ : Cursor).advance op.width) >>= next) ⟨⟨p, cs, 0⟩, failures⟩)
      reply := by
  rw [Reading.moveTo_bind, Cursor.advance_eq hstarts, Operator.width, utf8ByteSize_eq_byteLength]
  exact after h (Operator.symbol_append_drop hstarts) fun _ hb => hb

variable {reader : Reading α} {reply : Reply (α × List Char)} {s : ReadState}

theorem bind (h : Tracked P home' p cs failures (reader s) reply) (hhome : ∀ c, home' c → home c)
    {next : α → Reading β} {silent : α × List Char → Reply (β × List Char)}
    (hnext : ∀ a taken rest failures, reply = .accepted (a, rest) → taken ++ rest = cs →
      Tracked (fun before => P (taken ++ before)) home (p + byteLength taken) rest failures
        (next a ⟨⟨p + byteLength taken, rest, 0⟩, failures⟩) (silent (a, rest))) :
    Tracked P home p cs failures ((reader >>= next) s) (reply.bind silent) := by
  rw [Reading.bind_eq, Reading.andThen]
  cases hreader : reader s with
  | mk answer t =>
      rw [hreader] at h
      cases h with
      | accepted hcs hnoted =>
        exact .noting (after (hnext _ _ _ _ rfl hcs) hcs fun _ hb => hb) hnoted
      | rejected hplace hnoted => exact .rejected (hhome _ hplace) hnoted
      | exhausted => exact .exhausted

/-- An alternative that is tried after something was taken; what comes after its rejection starts
wherever the rejecting reader stopped. -/
theorem attemptAfter {ahead : List Char} (hcs : taken ++ ahead = cs)
    (h : Tracked P' home' (p + byteLength taken) ahead failures (reader s) reply)
    (hP : ∀ before, P' before → P (taken ++ before))
    {next : Option α → Reading β} {accept : α × List Char → Reply (β × List Char)}
    {reject : Reply (β × List Char)}
    (haccept : ∀ a more rest failures, reply = .accepted (a, rest) → more ++ rest = ahead →
      Tracked P home p cs failures
        (next (some a) ⟨⟨p + byteLength taken + byteLength more, rest, 0⟩, failures⟩)
        (accept (a, rest)))
    (hreject : ∀ c failures, reply = .rejected → home' c →
      Tracked P home p cs failures (next none ⟨c, failures⟩) reject) :
    Tracked P home p cs failures ((Reading.attempt reader >>= next) s)
      (reply.resume accept reject) := by
  rw [Reading.bind_eq, Reading.andThen, Reading.attempt]
  cases hreader : reader s with
  | mk answer t =>
      rw [hreader] at h
      cases h with
      | accepted hrest hnoted =>
          exact .noting (haccept _ _ _ _ rfl hrest) (hnoted.after hcs hP)
      | rejected hplace hnoted =>
          exact .noting (hreject _ _ rfl hplace) (hnoted.after hcs hP)
      | exhausted => exact .exhausted

theorem attempt (h : Tracked P home' p cs failures (reader s) reply)
    {next : Option α → Reading β} {accept : α × List Char → Reply (β × List Char)}
    {reject : Reply (β × List Char)}
    (haccept : ∀ a taken rest failures, reply = .accepted (a, rest) → taken ++ rest = cs →
      Tracked (fun before => P (taken ++ before)) home (p + byteLength taken) rest failures
        (next (some a) ⟨⟨p + byteLength taken, rest, 0⟩, failures⟩) (accept (a, rest)))
    (hreject : ∀ c failures, reply = .rejected → home' c →
      Tracked P home p cs failures (next none ⟨c, failures⟩) reject) :
    Tracked P home p cs failures ((Reading.attempt reader >>= next) s)
      (reply.resume accept reject) :=
  @attemptAfter _ _ _ _ _ _ _ _ [] _ _ _ _ _ rfl h (fun _ hb => hb) _ _ _
    (fun a taken rest failures ha hcs => after (haccept a taken rest failures ha hcs) hcs
      fun _ hb => hb) hreject

theorem token {read? : Cursor → Option (α × Cursor)} (hlocal : Cursor.Local read?)
    (hpasses : Cursor.Passes read?) :
    Tracked P (· = ⟨p, cs, 0⟩) p cs failures (Reading.token read? ⟨⟨p, cs, 0⟩, failures⟩)
      (Silent.token read? cs) := by
  rw [Reading.token, Reading.cursor_bind]
  simp only
  rw [hlocal, Silent.token]
  cases hread : read? ⟨0, cs, 0⟩ with
  | none => exact .reject rfl
  | some read =>
      obtain ⟨a, next⟩ := read
      obtain ⟨taken, hcs, hposition⟩ := hpasses hread
      simp only [Option.map_some]
      rw [hposition]
      exact @Tracked.accepted _ _ _ _ _ failures _ _ _ [] hcs .nil

end Tracked

end Formulary
