import Formulary.Proofs.Failures

/-! # Parts of the text that are cut out

Tokens, and the text that operators are looked for in, are cut out of the text by bytes, which is
possible between characters only. The readers here are those of formulas, and list what they cut out
besides.
-/

namespace Formulary

/-- A part of a text, by bytes. -/
inductive Slice where
  | fromByte (first : Nat)
  | between (first last : Nat)
deriving DecidableEq, Repr

namespace Slice

/-- The part can be cut out: it begins and ends between characters of the text, in this order. -/
def Fits (text : String) : Slice → Prop
  | fromByte first => String.Pos.Raw.IsValid text ⟨first⟩
  | between first last => first ≤ last ∧ String.Pos.Raw.IsValid text ⟨first⟩ ∧
      String.Pos.Raw.IsValid text ⟨last⟩

/-- What is left. -/
def rest (c : Cursor) : List Slice := [fromByte c.position]

/-- A whole token, if there is one. -/
def token {α : Type} (read? : Cursor → Option (α × Cursor)) (c : Cursor) : List Slice :=
  match read? c with
  | some (_, next) => [between c.position next.position]
  | none => []

/-- What stands between two quotes. -/
def content (c : Cursor) : List Slice :=
  match c.quotedString? with
  | some (_, next) => [between (c.position + 1) (next.position - 1)]
  | none => []

/-- Everything after a quote, where its partner is looked for, and what stands between the two. -/
def quoted (c : Cursor) : List Slice :=
  match c.peek? with
  | some '\'' | some '"' => fromByte (c.position + 1) :: content c
  | _ => []

end Slice

/-- A reader of an `α` that lists what it cuts out, the first part first. -/
def Slicing (α : Type) : Type := ReadState → (Reply α × ReadState) × List Slice

namespace Slicing

variable {α β : Type}

/-- A reader that cuts out nothing. -/
def ofReading (reader : Reading α) : Slicing α := fun s => (reader s, [])

/-- One reader after another; the second is not tried if the first does not accept. -/
def andThen (first : Slicing α) (second : α → Slicing β) : Slicing β := fun s =>
  match first s with
  | ((.accepted a, s), slices) => ((second a s).1, slices ++ (second a s).2)
  | ((.rejected, s), slices) => ((.rejected, s), slices)
  | ((.exhausted, s), slices) => ((.exhausted, s), slices)

instance : Monad Slicing where
  pure a := ofReading (Reading.accept a)
  bind := andThen

instance : MonadLift Reading Slicing where
  monadLift := ofReading

/-- Turns rejection into a result. -/
def attempt (reader : Slicing α) : Slicing (Option α) := fun s =>
  match reader s with
  | ((.accepted a, s), slices) => ((.accepted (some a), s), slices)
  | ((.rejected, s), slices) => ((.accepted none, s), slices)
  | ((.exhausted, s), slices) => ((.exhausted, s), slices)

/-- Cuts out parts that depend on where the cursor stands. -/
def slice (slices : Cursor → List Slice) : Slicing Unit := fun s =>
  ((.accepted (), s), slices s.cursor)

/-- A name; a number; both are cut out when there is one. -/
def token (read? : Cursor → Option (α × Cursor)) : Slicing α := do
  slice (Slice.token read?)
  Reading.token read?

/-- A string between quotes. -/
def quotedString : Slicing String := do
  slice Slice.quoted
  Reading.token Cursor.quotedString?

section Productions

open Reading (cursor moveTo note skipBlanks eat giveUp)
open Grammar (topLimit wordFormula)

variable (g : Grammar) (expression : Int32 → Slicing Formula)

def precompiled : Slicing Formula := do
  let start ← cursor
  if !(← eat '#') then Reading.reject
  match ← attempt (token Cursor.identifier?) with
  | none => giveUp start
  | some name =>
    match g.functions.precompiled? name with
    | some found => pure (.precompiled found)
    | none =>
      note (.unknownPrecompiled name start.position)
      giveUp start

def parenthesis : Slicing Formula := do
  let start ← cursor
  match g.operators.structural .parenthesis with
  | none => Reading.reject
  | some operator =>
    if !(← eat '(') then Reading.reject
    let inner ← attempt (expression topLimit)
    skipBlanks
    let closed ← if inner.isSome then eat ')' else Reading.accept false
    match inner, closed with
    | some inner, true => pure (.node operator [inner])
    | _, _ =>
      note (.expected ')' (← cursor).position)
      giveUp start

def operandBody : Slicing Formula := do
  let start ← cursor
  match start.peek? with
  | some '#' => precompiled g
  | some '(' => parenthesis g expression
  | some '\'' | some '"' =>
    match ← attempt quotedString with
    | some text => pure (.constant (.string text))
    | none =>
      note (.unterminatedString start.position)
      Reading.reject
  | _ =>
    match ← attempt (token Cursor.number?) with
    | some value => pure (.constant value)
    | none => do
      let name ← token Cursor.identifier?
      pure (wordFormula name)

def operand : Slicing Formula := do
  let start ← cursor
  skipBlanks
  let position := (← cursor).position
  match ← attempt (operandBody g expression) with
  | some operand => pure operand
  | none =>
    note (.expectedOperand position)
    giveUp start

def prefixed : Slicing Formula := do
  match ← attempt (operand g expression) with
  | some operand => pure operand
  | none =>
    let start ← cursor
    skipBlanks
    let here ← cursor
    slice Slice.rest
    match g.operators.matchPrefix? here.rest with
    | none => giveUp start
    | some operator =>
      moveTo (here.advance operator.width)
      match ← attempt (expression prefixPriority) with
      | some operand => pure (.node operator [operand])
      | none => giveUp start

def argumentsFrom (close : Char) : Nat → Slicing (List Formula)
  | 0 => Reading.exhaust
  | fuel + 1 => do
    let argument ← expression topLimit
    skipBlanks
    if ← eat ',' then
      let rest ← argumentsFrom close fuel
      pure (argument :: rest)
    else if ← eat close then pure [argument]
    else
      note (.expected close (← cursor).position)
      Reading.reject

def arguments (close : Char) (allowEmpty : Bool) : Slicing (List Formula) := do
  skipBlanks
  let empty ← if allowEmpty then eat close else Reading.accept false
  if empty then pure []
  else argumentsFrom expression close ((← cursor).rest.length + 1)

def call (callee : Formula) : Slicing Formula := do
  match g.callShape callee with
  | none => Reading.reject
  | some (form, operands, native) =>
    match g.operators.structural form with
    | none => Reading.reject
    | some operator =>
      let _ ← eat '('
      let arguments ← arguments expression ')' true
      pure (.apply operator native (operands arguments))

def indexing (target : Formula) : Slicing Formula := do
  match g.operators.structural .indexer with
  | none => Reading.reject
  | some operator =>
    let _ ← eat '['
    let indices ← arguments expression ']' false
    pure (.node operator (target :: indices))

def chain (limit : Int32) : Nat → Formula → Option Int32 → Slicing Formula
  | 0, _, _ => Reading.exhaust
  | fuel + 1, left, chained => do
    let checkpoint ← cursor
    let stop : Slicing Formula := do
      moveTo checkpoint
      pure left
    skipBlanks
    let here ← cursor
    if here.peek? = some '(' then
      match ← attempt (call g expression left) with
      | some call => chain limit fuel call chained
      | none => stop
    else if here.peek? = some '[' then
      match ← attempt (indexing g expression left) with
      | some indexing => chain limit fuel indexing chained
      | none => stop
    else
      slice Slice.rest
      match g.operators.matchInfix? here.rest with
      | none => stop
      | some operator =>
        if operator.form = .dot then
          moveTo (here.advance operator.width)
          skipBlanks
          match ← attempt (token Cursor.identifier?) with
          | some member => chain limit fuel (.node operator [left, .identifier member]) chained
          | none =>
            note (.expectedMember (← cursor).position)
            stop
        else if limit < operator.priority then stop
        else if operator.associativity = .nonAssociative ∧ chained = some operator.priority then
          note (.nonAssociative operator.symbol here.position)
          stop
        else
          moveTo (here.advance operator.width)
          match ← attempt (expression operator.rightLimit) with
          | none => stop
          | some right =>
            chain limit fuel (.node operator [left, right]) (some operator.priority)

def expressionBody (limit : Int32) : Slicing Formula := do
  let left ← prefixed g expression
  chain g expression limit ((← cursor).rest.length + 1) left none

end Productions

def expression (g : Grammar) : Nat → Int32 → Slicing Formula
  | 0, _ => Reading.exhaust
  | depth + 1, limit => expressionBody g (expression g depth) limit

/-- A whole text; what is left in the end is shown by the error. -/
def read (g : Grammar) (text : String) : Except ParseError Formula × List Slice :=
  if (Cursor.start text).skipBlanks.atEnd then (.error .emptyExpression, [])
  else
    let ((reply, s), slices) :=
      expression g (text.toList.length + 1) Grammar.topLimit ⟨(Cursor.start text).skipBlanks, []⟩
    let s := { s with cursor := s.cursor.skipBlanks }
    let error := (furthest? (Grammar.finalFailures s)).getD (.expectedOperand 0)
    let last := if s.cursor.atEnd then [] else Slice.rest s.cursor
    match reply with
    | .accepted formula => (if s.cursor.atEnd then .ok formula else .error error, slices ++ last)
    | _ => (.error error, slices ++ last)

end Slicing

/-! ## Where the cursor stands -/

/-- A string ends with a partner of the quote before it. -/
theorem Cursor.quotedString?_position {p : Nat} {quote : Char} {cs : List Char} {text : String}
    {next : Cursor} (h : quotedString? ⟨p, quote :: cs, 0⟩ = some (text, next))
    (hquote : quote.utf8Size = 1) :
    ∃ content, content <+: cs ∧ next.position = p + byteLength (quote :: content) + 1 := by
  simp only [quotedString?, peek?, if_true, List.head?_cons, List.drop_one, List.tail_cons] at h
  split at h
  · split at h
    · cases h
    · cases h
      refine ⟨cs.takeWhile (· != quote), List.takeWhile_prefix _, ?_⟩
      simp only [past]
      rw [byteLength_append, Nat.add_assoc, ← hquote]
      rfl
  · cases h

/-- The cursor stands between characters of the text. -/
def Cursor.StandsIn (text : String) (c : Cursor) : Prop :=
  ∃ before after, before ++ after = text.toList ∧ c = ⟨byteLength before, after, 0⟩

namespace Cursor.StandsIn

variable {text : String} {c : Cursor}

theorem isValid (h : c.StandsIn text) : String.Pos.Raw.IsValid text ⟨c.position⟩ := by
  obtain ⟨before, after, hsplit, rfl⟩ := h
  exact byteLength_isValid ⟨after, hsplit⟩

theorem start : (Cursor.start text).StandsIn text := ⟨[], text.toList, rfl, rfl⟩

theorem past (h : c.StandsIn text) {taken : List Char} (htaken : taken <+: c.rest) :
    (c.past taken).StandsIn text := by
  obtain ⟨before, after, hsplit, rfl⟩ := h
  obtain ⟨rest, rfl⟩ := htaken
  refine ⟨before ++ taken, rest, ?_, ?_⟩
  · rw [List.append_assoc, hsplit]
  · rw [Cursor.past, List.drop_left, byteLength_append]

theorem skipBlanks (h : c.StandsIn text) : c.skipBlanks.StandsIn text := by
  rw [Cursor.skipBlanks]
  split
  · exact h.past (List.takeWhile_prefix _)
  · exact h

theorem eat? (h : c.StandsIn text) {x : Char} {next : Cursor} (hnext : c.eat? x = some next) :
    next.StandsIn text := by
  rw [Cursor.eat?] at hnext
  split at hnext
  · next hpeek =>
    cases hnext
    obtain ⟨before, after, hsplit, rfl⟩ := id h
    refine h.past ⟨after.tail, cons_tail_of_head? ?_⟩
    rw [Cursor.peek?, if_pos rfl] at hpeek
    exact hpeek
  · cases hnext

theorem advance (h : c.StandsIn text) {op : Operator} (hop : op.starts c.rest) :
    (c.advance op.width).StandsIn text := by
  obtain ⟨before, after, hsplit, rfl⟩ := h
  have hsymbol := Operator.symbol_append_drop hop
  rw [Cursor.advance_eq hop, Operator.width, utf8ByteSize_eq_byteLength, ← byteLength_append]
  refine ⟨_, _, ?_, rfl⟩
  rw [List.append_assoc, hsymbol, hsplit]

variable {α : Type} {read? : Cursor → Option (α × Cursor)}

/-- A token begins before it ends. -/
theorem token (h : c.StandsIn text) (hlocal : Local read?) (hpasses : Passes read?) {a : α}
    {next : Cursor} (hread : read? c = some (a, next)) :
    next.StandsIn text ∧ c.position ≤ next.position := by
  obtain ⟨before, after, hsplit, rfl⟩ := h
  rw [hlocal] at hread
  obtain ⟨⟨b, last⟩, hlast, heq⟩ := Option.map_eq_some_iff.mp hread
  cases heq
  obtain ⟨taken, htaken, hposition⟩ := hpasses hlast
  simp only [hposition]
  refine ⟨⟨before ++ taken, last.rest, ?_, ?_⟩, Nat.le_add_right _ _⟩
  · rw [List.append_assoc, htaken, hsplit]
  · rw [byteLength_append]

/-- Behind a quote there is a boundary, and before its partner there is another one. -/
theorem quoted_fits (h : c.StandsIn text) : ∀ slice ∈ Slice.quoted c, slice.Fits text := by
  have hquote : ∀ quote : Char, c.peek? = some quote → quote.utf8Size = 1 →
      ∀ slice ∈ Slice.fromByte (c.position + 1) :: Slice.content c, slice.Fits text := by
    obtain ⟨before, after, hsplit, rfl⟩ := h
    intro quote hpeek hsize slice hmem
    rw [Cursor.peek?, if_pos rfl] at hpeek
    obtain ⟨cs, rfl⟩ : ∃ cs, after = quote :: cs := ⟨_, (cons_tail_of_head? hpeek).symm⟩
    have hbyte : byteLength before + 1 = byteLength (before ++ [quote]) := by
      rw [byteLength_append, ← hsize]
      rfl
    have hbehind : before ++ [quote] <+: text.toList :=
      ⟨cs, by rw [List.append_assoc, List.singleton_append, hsplit]⟩
    simp only [hbyte] at hmem
    rcases List.mem_cons.mp hmem with rfl | hmem
    · exact byteLength_isValid hbehind
    rw [Slice.content] at hmem
    cases hread : Cursor.quotedString? ⟨byteLength before, quote :: cs, 0⟩ with
    | none =>
        rw [hread] at hmem
        exact absurd hmem List.not_mem_nil
    | some read =>
        obtain ⟨content, next⟩ := read
        obtain ⟨inner, ⟨rest, rfl⟩, hnext⟩ := Cursor.quotedString?_position hread hsize
        rw [hread] at hmem
        obtain rfl := List.mem_singleton.mp hmem
        have hcontent : (before ++ [quote]) ++ inner ++ rest = text.toList := by
          rw [← hsplit, List.append_assoc, List.append_assoc, List.singleton_append]
        have hlast : next.position - 1 = byteLength ((before ++ [quote]) ++ inner) := by
          rw [hnext, Nat.add_sub_cancel, List.append_assoc, byteLength_append]
          rfl
        simp only [hbyte, hlast]
        refine ⟨?_, byteLength_isValid hbehind, byteLength_isValid ⟨rest, hcontent⟩⟩
        rw [byteLength_append (before ++ [quote])]
        exact Nat.le_add_right _ _
  intro slice hmem
  rw [Slice.quoted] at hmem
  split at hmem
  case h_1 hpeek | h_2 hpeek => exact hquote _ hpeek rfl slice hmem
  case h_3 => exact absurd hmem List.not_mem_nil

end Cursor.StandsIn

namespace Slicing

variable {text : String} {α β : Type}

/-- The slicing reader does what the other one does; from a place between characters it ends in
such a place, and whatever it cuts out can be cut out. -/
def Shows (text : String) (slicing : Slicing α) (reader : Reading α) : Prop :=
  ∀ s : ReadState, s.cursor.StandsIn text → (slicing s).1 = reader s ∧
    (∀ slice ∈ (slicing s).2, slice.Fits text) ∧ (reader s).2.cursor.StandsIn text

theorem shows_ofReading {reader : Reading α}
    (h : ∀ s : ReadState, s.cursor.StandsIn text → (reader s).2.cursor.StandsIn text) :
    Shows text (ofReading reader) reader :=
  fun s hs => ⟨rfl, fun _ hmem => absurd hmem List.not_mem_nil, h s hs⟩

theorem shows_cursor_bind {next : Cursor → Slicing β} {after : Cursor → Reading β}
    (h : ∀ c : Cursor, c.StandsIn text → Shows text (next c) (after c)) :
    Shows text (ofReading Reading.cursor >>= next) (Reading.cursor >>= after) :=
  fun s hs => h s.cursor hs s hs

theorem shows_accept (a : α) : Shows text (pure a) (Reading.accept a) :=
  shows_ofReading fun _ hs => hs

theorem shows_reject : Shows text (ofReading Reading.reject) (Reading.reject : Reading α) :=
  shows_ofReading fun _ hs => hs

theorem shows_exhaust : Shows text (ofReading Reading.exhaust) (Reading.exhaust : Reading α) :=
  shows_ofReading fun _ hs => hs

theorem shows_note (error : ParseError) :
    Shows text (ofReading (Reading.note error)) (Reading.note error) :=
  shows_ofReading fun _ hs => hs

theorem shows_moveTo {c : Cursor} (h : c.StandsIn text) :
    Shows text (ofReading (Reading.moveTo c)) (Reading.moveTo c) :=
  shows_ofReading fun _ _ => h

theorem shows_giveUp {c : Cursor} (h : c.StandsIn text) :
    Shows text (ofReading (Reading.giveUp c)) (Reading.giveUp c : Reading α) :=
  shows_ofReading fun _ _ => h

theorem shows_skipBlanks : Shows text (ofReading Reading.skipBlanks) Reading.skipBlanks :=
  shows_ofReading fun _ hs => hs.skipBlanks

theorem shows_eat (x : Char) : Shows text (ofReading (Reading.eat x)) (Reading.eat x) := by
  refine shows_ofReading fun s hs => ?_
  rw [Reading.eat, Reading.cursor_bind]
  cases hnext : s.cursor.eat? x with
  | none => exact hs
  | some next => exact hs.eat? hnext

theorem shows_token {read? : Cursor → Option (α × Cursor)} (hlocal : Cursor.Local read?)
    (hpasses : Cursor.Passes read?) :
    Shows text (ofReading (Reading.token read?)) (Reading.token read?) := by
  refine shows_ofReading fun s hs => ?_
  rw [Reading.token, Reading.cursor_bind]
  cases hread : read? s.cursor with
  | none => exact hs
  | some read =>
      obtain ⟨a, next⟩ := read
      exact (hs.token hlocal hpasses hread).1

namespace Shows

theorem bind {slicing : Slicing α} {reader : Reading α} (h : Shows text slicing reader)
    {next : α → Slicing β} {after : α → Reading β} (hnext : ∀ a, Shows text (next a) (after a)) :
    Shows text (slicing >>= next) (reader >>= after) := by
  intro s hs
  obtain ⟨hreader, hfits, hend⟩ := h s hs
  change (andThen slicing next s).1 = reader.andThen after s ∧
    (∀ slice ∈ (andThen slicing next s).2, slice.Fits text) ∧
    (reader.andThen after s).2.cursor.StandsIn text
  rw [andThen, Reading.andThen]
  rw [← hreader] at hend ⊢
  generalize slicing s = result at hfits hend
  obtain ⟨⟨reply, t⟩, slices⟩ := result
  cases reply with
  | accepted a =>
      obtain ⟨hafter, hmore, hlast⟩ := hnext a t hend
      refine ⟨hafter, fun slice hmem => ?_, hlast⟩
      rcases List.mem_append.mp hmem with hmem | hmem
      · exact hfits slice hmem
      · exact hmore slice hmem
  | rejected => exact ⟨rfl, hfits, hend⟩
  | exhausted => exact ⟨rfl, hfits, hend⟩

/-- Nothing comes after rejection. -/
theorem rejected_bind {next : α → Slicing β} {after : α → Reading β} :
    Shows text (ofReading Reading.reject >>= next) (Reading.reject >>= after) :=
  fun s hs => shows_reject s hs

theorem attempt {slicing : Slicing α} {reader : Reading α} (h : Shows text slicing reader) :
    Shows text (attempt slicing) (Reading.attempt reader) := by
  intro s hs
  obtain ⟨hreader, hfits, hend⟩ := h s hs
  rw [Slicing.attempt, Reading.attempt]
  rw [← hreader] at hend ⊢
  generalize slicing s = result at hfits hend
  obtain ⟨⟨reply, t⟩, slices⟩ := result
  cases reply <;> exact ⟨rfl, hfits, hend⟩

/-- Cutting out does not move the cursor. -/
theorem cut {slices : Cursor → List Slice} {next : Unit → Slicing α} {reader : Reading α}
    (hslices : ∀ c : Cursor, c.StandsIn text → ∀ slice ∈ slices c, slice.Fits text)
    (h : Shows text (next ()) reader) : Shows text (slice slices >>= next) reader := by
  intro s hs
  obtain ⟨hreader, hfits, hend⟩ := h s hs
  refine ⟨hreader, fun slice hmem => ?_, hend⟩
  rcases List.mem_append.mp hmem with hmem | hmem
  · exact hslices s.cursor hs slice hmem
  · exact hfits slice hmem

end Shows

theorem token_shows {read? : Cursor → Option (α × Cursor)} (hlocal : Cursor.Local read?)
    (hpasses : Cursor.Passes read?) : Shows text (token read?) (Reading.token read?) := by
  refine .cut (fun c hc slice hmem => ?_) (shows_token hlocal hpasses)
  rw [Slice.token] at hmem
  cases hread : read? c with
  | none =>
      rw [hread] at hmem
      exact absurd hmem List.not_mem_nil
  | some read =>
      obtain ⟨a, next⟩ := read
      rw [hread] at hmem
      obtain rfl := List.mem_singleton.mp hmem
      obtain ⟨hnext, hle⟩ := hc.token hlocal hpasses hread
      exact ⟨hle, hc.isValid, hnext.isValid⟩

theorem quotedString_shows :
    Shows text quotedString (Reading.token Cursor.quotedString?) :=
  .cut (fun _ hc => hc.quoted_fits)
    (shows_token Cursor.quotedString?_local Cursor.quotedString?_passes)

theorem rest_fits {c : Cursor} (hc : c.StandsIn text) :
    ∀ slice ∈ Slice.rest c, slice.Fits text := by
  intro slice hmem
  obtain rfl := List.mem_singleton.mp hmem
  exact hc.isValid

variable {g : Grammar}

theorem precompiled_shows : Shows text (precompiled g) g.precompiled := by
  refine shows_cursor_bind fun start hstart => ?_
  refine (shows_eat '#').bind fun eaten => ?_
  cases eaten with
  | false => exact .rejected_bind
  | true =>
      refine (token_shows Cursor.identifier?_local Cursor.identifier?_passes).attempt.bind
        fun name => ?_
      cases name with
      | none => exact shows_giveUp hstart
      | some name =>
          simp only
          cases g.functions.precompiled? name with
          | some found => exact shows_accept _
          | none => exact (shows_note _).bind fun _ => shows_giveUp hstart

section Productions

variable {expression : Int32 → Slicing Formula} {reader : Int32 → Reading Formula}
  (h : ∀ limit, Shows text (expression limit) (reader limit))
include h

theorem parenthesis_shows : Shows text (parenthesis g expression) (g.parenthesis reader) := by
  refine shows_cursor_bind fun start hstart => ?_
  cases g.operators.structural .parenthesis with
  | none => exact shows_reject
  | some operator =>
      refine (shows_eat '(').bind fun eaten => ?_
      cases eaten with
      | false => exact .rejected_bind
      | true =>
          refine (h Grammar.topLimit).attempt.bind fun inner => ?_
          refine shows_skipBlanks.bind fun _ => ?_
          have hopen : Shows text
              (ofReading Reading.cursor >>= fun here =>
                ofReading (Reading.note (.expected ')' here.position)) >>= fun _ =>
                  ofReading (Reading.giveUp start))
              (Reading.cursor >>= fun here =>
                Reading.note (.expected ')' here.position) >>= fun _ =>
                  (Reading.giveUp start : Reading Formula)) :=
            shows_cursor_bind fun _ _ => (shows_note _).bind fun _ => shows_giveUp hstart
          cases inner with
          | none => exact (shows_accept false).bind fun _ => hopen
          | some inner =>
              refine (shows_eat ')').bind fun closed => ?_
              cases closed with
              | false => exact hopen
              | true => exact shows_accept _

theorem operandBody_shows : Shows text (operandBody g expression) (g.operandBody reader) := by
  refine shows_cursor_bind fun start hstart => ?_
  generalize start.peek? = head
  split
  case h_1 => exact precompiled_shows
  case h_2 => exact parenthesis_shows h
  case h_3 | h_4 =>
    refine quotedString_shows.attempt.bind fun content => ?_
    cases content with
    | none => exact (shows_note _).bind fun _ => shows_reject
    | some content => exact shows_accept _
  case h_5 hhash hopen hsingle hdouble =>
    -- The reader is told apart by the same character, if the split has not done so already.
    try simp only
    refine (token_shows Cursor.number?_local Cursor.number?_passes).attempt.bind fun value => ?_
    cases value with
    | some value => exact shows_accept _
    | none =>
        exact (token_shows Cursor.identifier?_local Cursor.identifier?_passes).bind
          fun name => shows_accept _

theorem operand_shows : Shows text (operand g expression) (g.operand reader) := by
  refine shows_cursor_bind fun start hstart => shows_skipBlanks.bind fun _ => ?_
  refine shows_cursor_bind fun here _ => (operandBody_shows h).attempt.bind fun operand => ?_
  cases operand with
  | some operand => exact shows_accept _
  | none => exact (shows_note _).bind fun _ => shows_giveUp hstart

theorem prefixed_shows : Shows text (prefixed g expression) (g.prefixed reader) := by
  refine (operand_shows h).attempt.bind fun operand => ?_
  cases operand with
  | some operand => exact shows_accept _
  | none =>
      refine shows_cursor_bind fun start hstart => shows_skipBlanks.bind fun _ => ?_
      refine shows_cursor_bind fun here hhere => .cut (fun _ hc => rest_fits hc) ?_
      cases hop : g.operators.matchPrefix? here.rest with
      | none => exact shows_giveUp hstart
      | some operator =>
          have hsymbol := hhere.advance (OperatorTable.matchPrefix?_starts hop)
          refine (shows_moveTo hsymbol).bind fun _ => (h prefixPriority).attempt.bind
            fun operand => ?_
          cases operand with
          | some operand => exact shows_accept _
          | none => exact shows_giveUp hstart

theorem argumentsFrom_shows (close : Char) (fuel : Nat) :
    Shows text (argumentsFrom expression close fuel)
      (Grammar.argumentsFrom reader close fuel) := by
  induction fuel with
  | zero => exact shows_exhaust
  | succ fuel ih =>
      refine (h Grammar.topLimit).bind fun argument => shows_skipBlanks.bind fun _ => ?_
      refine (shows_eat ',').bind fun comma => ?_
      cases comma with
      | true => exact ih.bind fun arguments => shows_accept _
      | false =>
          refine (shows_eat close).bind fun closed => ?_
          cases closed with
          | true => exact shows_accept _
          | false => exact shows_cursor_bind fun _ _ => (shows_note _).bind fun _ => shows_reject

theorem arguments_shows (close : Char) (allowEmpty : Bool) :
    Shows text (arguments expression close allowEmpty)
      (Grammar.arguments reader close allowEmpty) := by
  refine shows_skipBlanks.bind fun _ => ?_
  have hfrom : Shows text
      (ofReading Reading.cursor >>= fun here =>
        argumentsFrom expression close (here.rest.length + 1))
      (Reading.cursor >>= fun here =>
        Grammar.argumentsFrom reader close (here.rest.length + 1)) :=
    shows_cursor_bind fun here _ => argumentsFrom_shows h close _
  cases allowEmpty with
  | false => exact hfrom
  | true =>
      refine (shows_eat close).bind fun closed => ?_
      cases closed with
      | true => exact shows_accept _
      | false => exact hfrom

theorem call_shows (callee : Formula) :
    Shows text (call g expression callee) (g.call reader callee) := by
  rw [call, Grammar.call]
  cases g.callShape callee with
  | none => exact shows_reject
  | some shape =>
      obtain ⟨form, operands, native⟩ := shape
      simp only
      cases g.operators.structural form with
      | none => exact shows_reject
      | some operator =>
          exact (shows_eat '(').bind fun _ => (arguments_shows h ')' true).bind
            fun arguments => shows_accept _

theorem indexing_shows (target : Formula) :
    Shows text (indexing g expression target) (g.indexing reader target) := by
  rw [indexing, Grammar.indexing]
  cases g.operators.structural .indexer with
  | none => exact shows_reject
  | some operator =>
      exact (shows_eat '[').bind fun _ => (arguments_shows h ']' false).bind
        fun indices => shows_accept _

theorem chain_shows (limit : Int32) (fuel : Nat) (left : Formula) (chained : Option Int32) :
    Shows text (chain g expression limit fuel left chained)
      (g.chain reader limit fuel left chained) := by
  induction fuel generalizing left chained with
  | zero => exact shows_exhaust
  | succ fuel ih =>
      refine shows_cursor_bind fun checkpoint hcheckpoint => ?_
      have hstop : Shows text
          (ofReading (Reading.moveTo checkpoint) >>= fun _ => pure left)
          (Reading.moveTo checkpoint >>= fun _ => Reading.accept left) :=
        (shows_moveTo hcheckpoint).bind fun _ => shows_accept left
      refine shows_skipBlanks.bind fun _ => shows_cursor_bind fun here hhere => ?_
      by_cases hcall : here.peek? = some '('
      · simp only [if_pos hcall]
        refine (call_shows h left).attempt.bind fun grown => ?_
        cases grown with
        | none => exact hstop
        | some call => exact ih call chained
      simp only [if_neg hcall]
      by_cases hindex : here.peek? = some '['
      · simp only [if_pos hindex]
        refine (indexing_shows h left).attempt.bind fun grown => ?_
        cases grown with
        | none => exact hstop
        | some indexing => exact ih indexing chained
      simp only [if_neg hindex]
      refine .cut (fun _ hc => rest_fits hc) ?_
      cases hop : g.operators.matchInfix? here.rest with
      | none => exact hstop
      | some operator =>
          have hsymbol := shows_moveTo (hhere.advance (OperatorTable.matchInfix?_starts hop))
          simp only
          by_cases hdot : operator.form = .dot
          · simp only [if_pos hdot]
            refine hsymbol.bind fun _ => shows_skipBlanks.bind fun _ => ?_
            refine (token_shows Cursor.identifier?_local Cursor.identifier?_passes).attempt.bind
              fun member => ?_
            cases member with
            | none => exact shows_cursor_bind fun _ _ => (shows_note _).bind fun _ => hstop
            | some member => exact ih _ chained
          simp only [if_neg hdot]
          by_cases hlimit : limit < operator.priority
          · simp only [if_pos hlimit]
            exact hstop
          simp only [if_neg hlimit]
          by_cases hchained :
              operator.associativity = .nonAssociative ∧ chained = some operator.priority
          · simp only [if_pos hchained]
            exact (shows_note _).bind fun _ => hstop
          simp only [if_neg hchained]
          refine hsymbol.bind fun _ => (h operator.rightLimit).attempt.bind fun right => ?_
          cases right with
          | none => exact hstop
          | some right => exact ih _ _

theorem expressionBody_shows (limit : Int32) :
    Shows text (expressionBody g expression limit) (g.expressionBody reader limit) :=
  (prefixed_shows h).bind fun left => shows_cursor_bind fun _ _ =>
    chain_shows h limit _ left none

end Productions

theorem expression_shows (depth : Nat) (limit : Int32) :
    Shows text (expression g depth limit) (g.expression depth limit) := by
  induction depth generalizing limit with
  | zero => exact shows_exhaust
  | succ depth ih => exact expressionBody_shows (fun limit => ih limit) limit

/-- Reading a whole text gives the same answer, and everything cut out can be cut out. -/
theorem read_fits (text : String) :
    (read g text).1 = g.read text ∧ ∀ slice ∈ (read g text).2, slice.Fits text := by
  rw [read, Grammar.read, Grammar.run]
  split
  · exact ⟨rfl, fun _ hmem => absurd hmem List.not_mem_nil⟩
  · have hstart : (Cursor.start text).skipBlanks.StandsIn text := Cursor.StandsIn.start.skipBlanks
    obtain ⟨hreader, hfits, hend⟩ := expression_shows (g := g) (text.toList.length + 1)
      Grammar.topLimit ⟨(Cursor.start text).skipBlanks, []⟩ hstart
    rw [← hreader] at hend ⊢
    generalize expression g _ _ _ = result at hfits hend
    obtain ⟨⟨reply, s⟩, slices⟩ := result
    have hlast : ∀ slice ∈ slices ++ (if s.cursor.skipBlanks.atEnd then []
        else Slice.rest s.cursor.skipBlanks), slice.Fits text := by
      intro slice hmem
      rcases List.mem_append.mp hmem with hmem | hmem
      · exact hfits slice hmem
      split at hmem
      · exact absurd hmem List.not_mem_nil
      · exact rest_fits (Cursor.StandsIn.skipBlanks hend) slice hmem
    cases reply with
    | accepted f => exact ⟨rfl, hlast⟩
    | rejected => exact ⟨rfl, hlast⟩
    | exhausted => exact ⟨rfl, hlast⟩

end Slicing

end Formulary
