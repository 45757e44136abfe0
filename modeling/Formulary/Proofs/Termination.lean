import Formulary.Proofs.Room
import Formulary.Proofs.Stumbles

/-! # Reading ends

Readers call each other in a circle, and two of them go round in loops. Here both bounds are let
loose: with as much room as there are characters left none of the readers meets a bound, and more
room changes neither the answer nor the failures on record. So the bounds hide no reading without
end. The one thing needed for this is that prefix operators have symbols; at the end of a text one
without a symbol would be tried again and again.
-/

namespace Formulary

namespace Reading

variable {α β : Type}

/-- The first reader does what the second does unless it meets a bound. -/
def Below (reader other : Reading α) : Prop := ∀ s, (reader s).1 = .exhausted ∨ reader s = other s

namespace Below

variable {reader other : Reading α}

theorem refl (reader : Reading α) : reader.Below reader := fun _ => Or.inr rfl

theorem bind (h : reader.Below other) {next next' : α → Reading β}
    (hnext : ∀ a, (next a).Below (next' a)) : (reader >>= next).Below (other >>= next') := by
  intro s
  simp only [bind_eq, andThen]
  rcases h s with h | h
  · cases hread : reader s with
    | mk reply t =>
        rw [hread] at h
        obtain rfl : reply = .exhausted := h
        exact Or.inl rfl
  · rw [h]
    cases other s with
    | mk reply t =>
        cases reply with
        | accepted a => exact hnext a t
        | rejected | exhausted => exact Or.inr rfl

theorem attempt (h : reader.Below other) : (attempt reader).Below (Reading.attempt other) := by
  intro s
  simp only [Reading.attempt]
  rcases h s with h | h
  · cases hread : reader s with
    | mk reply t =>
        rw [hread] at h
        obtain rfl : reply = .exhausted := h
        exact Or.inl rfl
  · exact Or.inr (by rw [h])

end Below

/-- With room for more than the characters left the reader meets no bound, and does the same however
much more there is. -/
def Settles (reader : Nat → Reading α) : Prop :=
  ∀ s : ReadState, s.cursor.inside = 0 → ∀ room, s.cursor.rest.length < room →
    (reader room s).1 ≠ .exhausted ∧ reader room s = reader (s.cursor.rest.length + 1) s

/-- More room changes nothing where less of it is enough. -/
theorem Settles.of {reader : Nat → Reading α}
    (hmore : ∀ {room more}, room ≤ more → (reader room).Below (reader more))
    (hroom : ∀ p cs failures room, cs.length < room →
      (reader room ⟨⟨p, cs, 0⟩, failures⟩).1 ≠ .exhausted) : Settles reader := by
  rintro ⟨⟨p, cs, inside⟩, failures⟩ hinside room hlength
  obtain rfl : inside = 0 := hinside
  refine ⟨hroom p cs failures room hlength, ?_⟩
  rcases hmore hlength ⟨⟨p, cs, 0⟩, failures⟩ with hmet | hsame
  · exact absurd hmet (hroom p cs failures _ (Nat.lt_succ_self _))
  · exact hsame.symm

end Reading

/-- A reader meets a bound only where the silent one does. -/
theorem Mirrors.ne_exhausted {α : Type} {result : Reply α × ReadState}
    {reply : Reply (α × List Char)} (h : Mirrors result reply) (hreply : reply ≠ .exhausted) :
    result.1 ≠ .exhausted := by
  cases h with
  | accepted | rejected => rintro ⟨⟩
  | exhausted => exact absurd rfl hreply

namespace Grammar

open Reading

variable {g : Grammar}

section Monotone

variable {e e' : Int32 → Reading Formula} (h : ∀ limit, (e limit).Below (e' limit))
include h

theorem parenthesis_below : (g.parenthesis e).Below (g.parenthesis e') := by
  refine (Below.refl cursor).bind fun start => ?_
  cases g.operators.structural .parenthesis with
  | none => exact .refl _
  | some operator =>
      refine (Below.refl (eat '(')).bind fun opened => ?_
      cases opened with
      | false => exact .refl _
      | true => exact (h topLimit).attempt.bind fun inner => .refl _

theorem operandBody_below : (g.operandBody e).Below (g.operandBody e') := by
  refine (Below.refl cursor).bind fun start => ?_
  split <;> try exact .refl _
  exact parenthesis_below h

theorem operand_below : (g.operand e).Below (g.operand e') := by
  refine (Below.refl cursor).bind fun start => (Below.refl skipBlanks).bind fun _ =>
    (Below.refl cursor).bind fun here => ?_
  exact (operandBody_below h).attempt.bind fun operand => .refl _

theorem prefixed_below : (g.prefixed e).Below (g.prefixed e') := by
  refine (operand_below h).attempt.bind fun operand => ?_
  cases operand with
  | some operand => exact .refl _
  | none =>
      refine (Below.refl cursor).bind fun start => (Below.refl skipBlanks).bind fun _ =>
        (Below.refl cursor).bind fun here => ?_
      cases g.operators.matchPrefix? here.rest with
      | none => exact .refl _
      | some operator =>
          refine (Below.refl (moveTo _)).bind fun _ => ?_
          exact (h prefixPriority).attempt.bind fun operand => .refl _

theorem argumentsFrom_below (close : Char) {fuel more : Nat} (hfuel : fuel ≤ more) :
    (argumentsFrom e close fuel).Below (argumentsFrom e' close more) := by
  induction fuel generalizing more with
  | zero => exact fun s => Or.inl rfl
  | succ fuel ih =>
      obtain ⟨more, rfl⟩ := Nat.exists_eq_succ_of_ne_zero (Nat.ne_zero_of_lt hfuel)
      refine (h topLimit).bind fun argument => (Below.refl skipBlanks).bind fun _ =>
        (Below.refl (eat ',')).bind fun comma => ?_
      cases comma with
      | true => exact (ih (Nat.le_of_succ_le_succ hfuel)).bind fun rest => .refl _
      | false => exact .refl _

theorem arguments_below (close : Char) (allowEmpty : Bool) :
    (arguments e close allowEmpty).Below (arguments e' close allowEmpty) := by
  refine (Below.refl skipBlanks).bind fun _ => ?_
  have hnext : ∀ empty, Below
      (if empty = true then accept []
        else cursor >>= fun here => argumentsFrom e close (here.rest.length + 1))
      (if empty = true then accept []
        else cursor >>= fun here => argumentsFrom e' close (here.rest.length + 1)) := by
    intro empty
    split
    · exact .refl _
    · exact (Below.refl cursor).bind fun here => argumentsFrom_below h close (Nat.le_refl _)
  cases allowEmpty with
  | true => exact (Below.refl (eat close)).bind hnext
  | false => exact (Below.refl (accept false)).bind hnext

theorem call_below (callee : Formula) : (g.call e callee).Below (g.call e' callee) := by
  rw [call, call]
  cases g.callShape callee with
  | none => exact .refl _
  | some shape =>
      obtain ⟨form, operands, native⟩ := shape
      simp only
      cases g.operators.structural form with
      | none => exact .refl _
      | some operator =>
          refine (Below.refl (eat '(')).bind fun _ => ?_
          exact (arguments_below h ')' true).bind fun arguments => .refl _

theorem indexing_below (target : Formula) :
    (g.indexing e target).Below (g.indexing e' target) := by
  rw [indexing, indexing]
  cases g.operators.structural .indexer with
  | none => exact .refl _
  | some operator =>
      refine (Below.refl (eat '[')).bind fun _ => ?_
      exact (arguments_below h ']' false).bind fun indices => .refl _

theorem chain_below (limit : Int32) {fuel more : Nat} (hfuel : fuel ≤ more) (left : Formula)
    (chained : Option Int32) :
    (g.chain e limit fuel left chained).Below (g.chain e' limit more left chained) := by
  induction fuel generalizing more left chained with
  | zero => exact fun s => Or.inl rfl
  | succ fuel ih =>
      obtain ⟨more, rfl⟩ := Nat.exists_eq_succ_of_ne_zero (Nat.ne_zero_of_lt hfuel)
      have hmore := fun left chained => ih (Nat.le_of_succ_le_succ hfuel) left chained
      refine (Below.refl cursor).bind fun checkpoint => (Below.refl skipBlanks).bind fun _ =>
        (Below.refl cursor).bind fun here => ?_
      split
      · refine (call_below h left).attempt.bind fun call => ?_
        cases call with
        | none => exact .refl _
        | some call => exact hmore call chained
      split
      · refine (indexing_below h left).attempt.bind fun indexing => ?_
        cases indexing with
        | none => exact .refl _
        | some indexing => exact hmore indexing chained
      cases g.operators.matchInfix? here.rest with
      | none => exact .refl _
      | some operator =>
          simp only
          split
          · refine (Below.refl (moveTo _)).bind fun _ => (Below.refl skipBlanks).bind fun _ =>
              (Below.refl _).bind fun member => ?_
            cases member with
            | none => exact .refl _
            | some member => exact hmore _ chained
          split
          · exact .refl _
          split
          · exact .refl _
          · refine (Below.refl (moveTo _)).bind fun _ =>
              (h operator.rightLimit).attempt.bind fun right => ?_
            cases right with
            | none => exact .refl _
            | some right => exact hmore _ _

theorem expressionBody_below (limit : Int32) :
    (g.expressionBody e limit).Below (g.expressionBody e' limit) :=
  (prefixed_below h).bind fun left => (Below.refl cursor).bind fun _ =>
    chain_below h limit (Nat.le_refl _) left none

end Monotone

theorem expression_below {depth more : Nat} (hdepth : depth ≤ more) (limit : Int32) :
    (g.expression depth limit).Below (g.expression more limit) := by
  induction depth generalizing more limit with
  | zero => exact fun s => Or.inl rfl
  | succ depth ih =>
      obtain ⟨more, rfl⟩ := Nat.exists_eq_succ_of_ne_zero (Nat.ne_zero_of_lt hdepth)
      exact expressionBody_below (fun limit => ih (Nat.le_of_succ_le_succ hdepth) limit) limit

section Room

variable {p : Nat} {cs : List Char} {failures : List ParseError} {room : Nat}

/-- What is read after an opening bracket, or without one. -/
theorem eat_bind_ne_exhausted {α : Type} {x : Char} {next : Bool → Reading α}
    (hnext : ∀ opened p cs failures, cs.length < room →
      (next opened ⟨⟨p, cs, 0⟩, failures⟩).1 ≠ .exhausted) (hcs : cs.length < room) :
    ((eat x >>= next) ⟨⟨p, cs, 0⟩, failures⟩).1 ≠ .exhausted := by
  rw [eat_bind]
  split
  · next hopen => exact hnext _ _ _ _ (Nat.lt_trans (Silent.length_tail_of_head? hopen) hcs)
  · exact hnext _ _ _ _ hcs

theorem bind_accept_ne_exhausted {α β : Type} {reader : Reading α} {s : ReadState}
    (h : (reader s).1 ≠ .exhausted) (f : α → β) :
    ((reader >>= fun a => accept (f a)) s).1 ≠ .exhausted := by
  rw [bind_eq, andThen]
  cases hread : reader s with
  | mk reply t =>
      rw [hread] at h
      cases reply with
      | accepted | rejected => rintro ⟨⟩
      | exhausted => exact absurd rfl h

variable (hshow : g.operators.PrefixesShow)
include hshow

theorem arguments_ne_exhausted (close : Char) (allowEmpty : Bool) (hcs : cs.length < room) :
    (arguments (g.expression room) close allowEmpty ⟨⟨p, cs, 0⟩, failures⟩).1 ≠ .exhausted :=
  (arguments_strays (g.expression_tracks room) close allowEmpty p cs failures).mirrors.ne_exhausted
    (Silent.arguments_ne_exhausted (Silent.expression_ample hshow room)
      (Silent.expression_shrinks room) close allowEmpty hcs)

theorem call_ne_exhausted (callee : Formula) (hcs : cs.length < room) :
    (g.call (g.expression room) callee ⟨⟨p, cs, 0⟩, failures⟩).1 ≠ .exhausted := by
  rw [call]
  cases g.callShape callee with
  | none => rintro ⟨⟩
  | some shape =>
      obtain ⟨form, operands, native⟩ := shape
      simp only
      cases g.operators.structural form with
      | none => rintro ⟨⟩
      | some operator =>
          refine eat_bind_ne_exhausted (fun opened p cs failures hcs => ?_) hcs
          exact bind_accept_ne_exhausted (arguments_ne_exhausted hshow ')' true hcs) _

theorem indexing_ne_exhausted (target : Formula) (hcs : cs.length < room) :
    (g.indexing (g.expression room) target ⟨⟨p, cs, 0⟩, failures⟩).1 ≠ .exhausted := by
  rw [indexing]
  cases g.operators.structural .indexer with
  | none => rintro ⟨⟩
  | some operator =>
      refine eat_bind_ne_exhausted (fun opened p cs failures hcs => ?_) hcs
      exact bind_accept_ne_exhausted (arguments_ne_exhausted hshow ']' false hcs) _

end Room

/-- Reading ends: no reader of the grammar, started anywhere in any text, needs more room than there
are characters left. Where a reader goes round in a loop, the room bounds the rounds, too. -/
structure Terminates (g : Grammar) : Prop where
  expression : ∀ limit, Settles fun room => g.expression room limit
  prefixed : Settles fun room => g.prefixed (g.expression room)
  operand : Settles fun room => g.operand (g.expression room)
  parenthesis : Settles fun room => g.parenthesis (g.expression room)
  arguments : ∀ close allowEmpty, Settles fun room =>
    Grammar.arguments (g.expression room) close allowEmpty
  argumentsFrom : ∀ close, Settles fun room =>
    Grammar.argumentsFrom (g.expression room) close room
  call : ∀ callee, Settles fun room => g.call (g.expression room) callee
  indexing : ∀ target, Settles fun room => g.indexing (g.expression room) target
  chain : ∀ limit left chained, Settles fun room =>
    g.chain (g.expression room) limit room left chained
  text : ∀ text, (g.run text).1 ≠ .exhausted

/-- Where nothing is left a prefix operator without a symbol is found, and its operand starts in
the same place. -/
theorem expression_exhausted_of_symbol_eq {op : Operator} (hop : op ∈ g.operators.prefixCandidates)
    (hsymbol : op.symbol = "") (depth : Nat) (limit : Int32) :
    Silent.expression g depth limit [] = .exhausted := by
  induction depth generalizing limit with
  | zero => rfl
  | succ depth ih =>
      have hstarts : op.starts [] = true := by
        rw [Operator.starts, hsymbol]
        rfl
      have hsome : (g.operators.matchPrefix? []).isSome := List.find?_isSome.mpr ⟨op, hop, hstarts⟩
      obtain ⟨found, hfound⟩ := Option.isSome_iff_exists.mp hsome
      have hskipped : skipped [] = [] := rfl
      have hoperand : Silent.operandBody g (Silent.expression g depth) [] = .rejected := rfl
      have hprefixed : Silent.prefixed g (Silent.expression g depth) [] = .exhausted := by
        rw [Silent.prefixed, hskipped, hoperand, Reply.resume_rejected, hfound]
        simp only [List.drop_nil, ih]
        rfl
      change Silent.expressionBody g (Silent.expression g depth) limit [] = .exhausted
      rw [Silent.expressionBody, hprefixed]
      rfl

/-- Where prefix operators have symbols reading ends. -/
theorem terminates_of_prefixesShow (hshow : g.operators.PrefixesShow) : g.Terminates := by
  have hbelow : ∀ {room more}, room ≤ more → ∀ limit,
      (g.expression room limit).Below (g.expression more limit) := expression_below
  have hample := Silent.expression_ample hshow
  have hshrinks := fun room => Silent.expression_shrinks (g := g) room
  have htracks := fun room limit => g.expression_tracks room limit
  constructor
  case expression =>
    intro limit
    refine .of (fun hmore => hbelow hmore limit) fun p cs failures room hcs => ?_
    exact (htracks room limit p cs failures).mirrors.ne_exhausted (hample room limit cs hcs)
  case prefixed =>
    refine .of (fun hmore => prefixed_below (hbelow hmore)) fun p cs failures room hcs => ?_
    exact (prefixed_tracks (htracks room) p cs failures).mirrors.ne_exhausted
      (Silent.prefixed_ne_exhausted (hample room) hshow (Nat.le_of_lt hcs))
  case operand =>
    refine .of (fun hmore => operand_below (hbelow hmore)) fun p cs failures room hcs => ?_
    exact (operand_tracks (htracks room) p cs failures).mirrors.ne_exhausted
      (Silent.operandBody_ne_exhausted (hample room)
        (Nat.le_trans (Silent.length_skipped_le cs) (Nat.le_of_lt hcs)))
  case parenthesis =>
    refine .of (fun hmore => parenthesis_below (hbelow hmore)) fun p cs failures room hcs => ?_
    exact (parenthesis_tracks (htracks room) p cs failures).mirrors.ne_exhausted
      (Silent.parenthesis_ne_exhausted (hample room) (Nat.le_of_lt hcs))
  case arguments =>
    intro close allowEmpty
    refine .of (fun hmore => arguments_below (hbelow hmore) close allowEmpty) ?_
    exact fun p cs failures room => arguments_ne_exhausted hshow close allowEmpty
  case argumentsFrom =>
    intro close
    refine .of (fun hmore => argumentsFrom_below (hbelow hmore) close hmore) ?_
    intro p cs failures room hcs
    exact (argumentsFrom_strays (htracks room) close room p cs failures).mirrors.ne_exhausted
      (Silent.argumentsFrom_ne_exhausted (hample room) (hshrinks room) close hcs hcs)
  case call =>
    intro callee
    refine .of (fun hmore => call_below (hbelow hmore) callee) ?_
    exact fun p cs failures room => call_ne_exhausted hshow callee
  case indexing =>
    intro target
    refine .of (fun hmore => indexing_below (hbelow hmore) target) ?_
    exact fun p cs failures room => indexing_ne_exhausted hshow target
  case chain =>
    intro limit left chained
    refine .of (fun hmore => chain_below (hbelow hmore) limit hmore left chained) ?_
    intro p cs failures room hcs
    exact (chain_tracked (htracks room) (fun _ => True) limit room left chained p cs
      failures).mirrors.ne_exhausted
      (Silent.chain_ne_exhausted (hample room) (hshrinks room) limit left chained hcs hcs)
  case text =>
    intro text
    rw [run, Cursor.start, Cursor.skipBlanks_eq]
    exact (htracks _ topLimit _ _ _).mirrors.ne_exhausted (hample _ topLimit _
      (Nat.lt_succ_of_le (Silent.length_skipped_le text.toList)))

/-- Reading ends exactly if every prefix operator has a symbol. -/
theorem terminates_iff_prefixesShow : g.Terminates ↔ g.operators.PrefixesShow := by
  refine ⟨fun hterminates op hop hsymbol => ?_, terminates_of_prefixesShow⟩
  -- At the end of a text room for one expression would be enough.
  have hmirrors := g.expression_follows 1 topLimit 0 [] []
  rw [expression_exhausted_of_symbol_eq hop hsymbol] at hmirrors
  have hmet : (g.expression 1 topLimit ⟨⟨0, [], 0⟩, []⟩).1 ≠ .exhausted :=
    (hterminates.expression topLimit ⟨⟨0, [], 0⟩, []⟩ rfl 1 Nat.one_pos).1
  generalize g.expression 1 topLimit _ = result at hmirrors hmet
  cases hmirrors with
  | exhausted => exact hmet rfl

end Grammar

end Formulary
