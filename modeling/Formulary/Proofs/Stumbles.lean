import Formulary.Proofs.Positions

/-! # Where failures are noted

All failures that reading can note, by what was being read there. Failures of abandoned alternatives
are among them: a reader goes back, the record does not.
-/

namespace Formulary

namespace Grammar

/-- What is read when a failure is noted. -/
inductive Place where
  | expression (limit : Int32)
  /-- An operand without a prefix operator, blanks before it left out. -/
  | operand
  /-- What may follow an operand. -/
  | chain (limit : Int32) (left : Formula) (chained : Option Int32)
  /-- Expressions separated by commas up to a closing character. -/
  | arguments (close : Char)

/-- Reading something with some characters ahead notes a failure behind the first of them. -/
inductive Stumbles (g : Grammar) : Place → List Char → List Char → Prop where
  | operandMissing {limit : Int32} {cs : List Char} : Stumbles g (.expression limit) cs (blanks cs)
  | inOperand {limit : Int32} {cs before : List Char}
      (h : Stumbles g .operand (skipped cs) before) :
      Stumbles g (.expression limit) cs (blanks cs ++ before)
  | afterPrefix {limit : Int32} {cs before : List Char} {op : Operator} {depth : Nat}
      (hoperand : Silent.operandBody g (Silent.expression g depth) (skipped cs) = .rejected)
      (hop : g.operators.matchPrefix? (skipped cs) = some op)
      (h : Stumbles g (.expression prefixPriority) ((skipped cs).drop op.symbol.length) before) :
      Stumbles g (.expression limit) cs (blanks cs ++ (op.symbol.toList ++ before))
  | afterOperand {limit : Int32} {cs taken rest before : List Char} {left : Formula} {depth : Nat}
      (hleft : Silent.prefixed g (Silent.expression g depth) cs = .accepted (left, rest))
      (hcs : taken ++ rest = cs) (h : Stumbles g (.chain limit left none) rest before) :
      Stumbles g (.expression limit) cs (taken ++ before)
  /-- A quote without a partner, or a name that is not in the table. -/
  | atOnce {cs : List Char} : Stumbles g .operand cs []
  | inParenthesis {cs before : List Char} (hopen : cs.head? = some '(')
      (h : Stumbles g (.expression topLimit) cs.tail before) :
      Stumbles g .operand cs ('(' :: before)
  | parenthesisEmpty {cs : List Char} (hopen : cs.head? = some '(') :
      Stumbles g .operand cs ('(' :: blanks cs.tail)
  | parenthesisOpen {cs taken rest : List Char} {inner : Formula} {depth : Nat}
      (hopen : cs.head? = some '(')
      (hinner : Silent.expression g depth topLimit cs.tail = .accepted (inner, rest))
      (hcs : taken ++ rest = cs.tail) :
      Stumbles g .operand cs ('(' :: (taken ++ blanks rest))
  | inCall {limit : Int32} {left : Formula} {chained : Option Int32} {cs before : List Char}
      (hopen : (skipped cs).head? = some '(') (hcallee : g.callShape left ≠ none)
      (h : Stumbles g (.arguments ')') (skipped (skipped cs).tail) before) :
      Stumbles g (.chain limit left chained) cs
        (blanks cs ++ '(' :: (blanks (skipped cs).tail ++ before))
  | inIndexing {limit : Int32} {left : Formula} {chained : Option Int32} {cs before : List Char}
      (hopen : (skipped cs).head? = some '[')
      (h : Stumbles g (.arguments ']') (skipped (skipped cs).tail) before) :
      Stumbles g (.chain limit left chained) cs
        (blanks cs ++ '[' :: (blanks (skipped cs).tail ++ before))
  | memberMissing {limit : Int32} {left : Formula} {chained : Option Int32} {cs : List Char}
      {op : Operator} (hop : g.operators.matchInfix? (skipped cs) = some op)
      (hdot : op.form = .dot) :
      Stumbles g (.chain limit left chained) cs
        (blanks cs ++ (op.symbol.toList ++ blanks ((skipped cs).drop op.symbol.length)))
  | chainedTwice {limit : Int32} {left : Formula} {chained : Option Int32} {cs : List Char} :
      Stumbles g (.chain limit left chained) cs (blanks cs)
  | afterInfix {limit : Int32} {left : Formula} {chained : Option Int32} {cs before : List Char}
      {op : Operator} (hop : g.operators.matchInfix? (skipped cs) = some op)
      (hdot : op.form ≠ .dot) (hlimit : op.priority ≤ limit)
      (hchained : ¬(op.associativity = .nonAssociative ∧ chained = some op.priority))
      (h : Stumbles g (.expression op.rightLimit) ((skipped cs).drop op.symbol.length) before) :
      Stumbles g (.chain limit left chained) cs (blanks cs ++ (op.symbol.toList ++ before))
  | afterGrowth {limit : Int32} {left f : Formula} {chained c : Option Int32}
      {cs taken rest before : List Char} {depth : Nat}
      (hgrown : Silent.follow g (Silent.expression g depth) limit left chained cs =
        .accepted ((f, c), rest))
      (hcs : taken ++ rest = cs) (h : Stumbles g (.chain limit f c) rest before) :
      Stumbles g (.chain limit left chained) cs (taken ++ before)
  | inArgument {close : Char} {cs before : List Char}
      (h : Stumbles g (.expression topLimit) cs before) : Stumbles g (.arguments close) cs before
  | afterArgument {close : Char} {cs taken rest before : List Char} {argument : Formula}
      {depth : Nat}
      (hargument : Silent.expression g depth topLimit cs = .accepted (argument, rest))
      (hcs : taken ++ rest = cs) (hcomma : (skipped rest).head? = some ',')
      (h : Stumbles g (.arguments close) (skipped rest).tail before) :
      Stumbles g (.arguments close) cs (taken ++ (blanks rest ++ ',' :: before))
  | argumentsOpen {close : Char} {cs taken rest : List Char} {argument : Formula} {depth : Nat}
      (hargument : Silent.expression g depth topLimit cs = .accepted (argument, rest))
      (hcs : taken ++ rest = cs) : Stumbles g (.arguments close) cs (taken ++ blanks rest)

end Grammar

namespace Reading

variable {α : Type}

/-- The reader answers what the silent one does; when it rejects it puts the cursor back. -/
def Tracks (reader : Reading α) (silent : Silent α) (P : List Char → List Char → Prop) : Prop :=
  ∀ p cs failures, Tracked (P cs) (· = ⟨p, cs, 0⟩) p cs failures
    (reader ⟨⟨p, cs, 0⟩, failures⟩) (silent cs)

theorem accept_bind {β : Type} (a : α) (next : α → Reading β) (s : ReadState) :
    (accept a >>= next) s = next a s := rfl

/-- As `Tracks`, for a reader that leaves the cursor where it stops. -/
def Strays (reader : Reading α) (silent : Silent α) (P : List Char → List Char → Prop) : Prop :=
  ∀ p cs failures, Tracked (P cs) (fun _ => True) p cs failures
    (reader ⟨⟨p, cs, 0⟩, failures⟩) (silent cs)

end Reading

namespace Grammar

open Reading

variable (g : Grammar)

theorem precompiled_tracks :
    g.precompiled.Tracks (Silent.precompiled g) (Stumbles g .operand) := by
  intro p cs failures
  rw [precompiled, cursor_bind, eat_bind, Silent.precompiled]
  by_cases hhead : cs.head? = some '#'
  · rw [if_pos hhead, if_pos hhead]
    change Tracked _ _ _ _ _ ((Reading.attempt (Reading.token Cursor.identifier?) >>= _) _) _
    have hhash : ['#'] ++ cs.tail = cs := cons_tail_of_head? hhead
    have hname : Tracked (fun _ => False) _ (p + byteLength ['#']) cs.tail failures _ _ :=
      .token Cursor.identifier?_local Cursor.identifier?_passes
    refine .attemptAfter hhash hname (fun _ hb => hb.elim) ?_ ?_
    · intro name taken rest failures _ hcs
      cases hfound : g.functions.precompiled? name with
      | none =>
          -- The failure is noted at the `#`, before what the name was read from.
          simp only [hfound]
          refine .note rfl .atOnce ?_
          exact .giveUp rfl
      | some found =>
          simp only [hfound]
          exact .eaten hhead (.after (.accept _) hcs fun _ hb => hb)
    · rintro c failures - rfl
      exact .giveUp rfl
  · rw [if_neg hhead, if_neg hhead]
    exact .reject rfl

section Productions

variable {g} {expression : Int32 → Reading Formula} {depth : Nat}
  (h : ∀ limit, (expression limit).Tracks (Silent.expression g depth limit)
    (Stumbles g (.expression limit)))
include h

theorem parenthesis_tracks :
    (g.parenthesis expression).Tracks (Silent.parenthesis g (Silent.expression g depth))
      (Stumbles g .operand) := by
  intro p cs failures
  rw [parenthesis, cursor_bind, Silent.parenthesis]
  cases g.operators.structural .parenthesis with
  | none => exact .reject rfl
  | some operator =>
      simp only
      rw [eat_bind]
      by_cases hopen : cs.head? = some '('
      · rw [if_pos hopen, if_pos hopen]
        refine .eaten hopen ?_
        refine .attempt ((h topLimit _ _ _).mono (fun _ hc => hc)
          fun before hb => Stumbles.inParenthesis hopen hb) ?_ ?_
        · intro inner taken rest failures hinner hcs
          simp only
          refine .skipBlanks ?_
          change Tracked _ _ _ _ _ ((eat ')' >>= _) _) _
          rw [eat_bind]
          by_cases hclose : (skipped rest).head? = some ')'
          · rw [if_pos hclose, if_pos hclose]
            exact .eaten hclose (.accept _)
          · rw [if_neg hclose, if_neg hclose]
            change Tracked _ _ _ _ _ ((cursor >>= _) _) _
            rw [cursor_bind]
            refine .note rfl ?_ ?_
            · rw [List.append_nil]
              exact .parenthesisOpen hopen hinner hcs
            · exact .giveUp rfl
        · rintro c failures - rfl
          simp only
          refine .skipBlanks ?_
          change Tracked _ _ _ _ _ ((Reading.accept false >>= fun _ => cursor >>= _) _) _
          rw [accept_bind, cursor_bind]
          refine .note rfl ?_ ?_
          · rw [List.append_nil]
            exact .parenthesisEmpty hopen
          · exact .giveUp rfl
      · rw [if_neg hopen, if_neg hopen]
        exact .reject rfl

theorem operandBody_tracks :
    (g.operandBody expression).Tracks (Silent.operandBody g (Silent.expression g depth))
      (Stumbles g .operand) := by
  intro p cs failures
  have hquoted : cs.head? = some '\'' ∨ cs.head? = some '"' →
      Tracked (Stumbles g .operand cs) (· = ⟨p, cs, 0⟩) p cs failures
        (g.operandBody expression ⟨⟨p, cs, 0⟩, failures⟩)
        ((Silent.token Cursor.quotedString? cs).bind fun read =>
          .accepted (.constant (.string read.1), read.2)) := by
    intro hquote
    rcases hquote with hquote | hquote
    all_goals
      simp only [operandBody, cursor_bind, Cursor.peek?, if_true, hquote]
      refine .attempt (.token Cursor.quotedString?_local Cursor.quotedString?_passes) ?_ ?_
      · intro text taken rest failures _ hcs
        exact .accept _
      · rintro c failures - rfl
        refine .note rfl .atOnce ?_
        exact .reject rfl
  rw [Silent.operandBody]
  split
  · next hhead =>
    simp only [operandBody, cursor_bind, Cursor.peek?, if_true, hhead]
    exact g.precompiled_tracks ..
  · next hhead =>
    simp only [operandBody, cursor_bind, Cursor.peek?, if_true, hhead]
    exact parenthesis_tracks h ..
  · next hhead => exact hquoted (Or.inl hhead)
  · next hhead => exact hquoted (Or.inr hhead)
  · next hhash hopen hsingle hdouble =>
    simp only [operandBody, cursor_bind, Cursor.peek?, if_true]
    refine .attempt (.token Cursor.number?_local Cursor.number?_passes) ?_ ?_
    · intro value taken rest failures _ hcs
      exact .accept _
    · rintro c failures - rfl
      refine .bind (.token Cursor.identifier?_local Cursor.identifier?_passes) (fun _ hc => hc) ?_
      intro name taken rest failures _ hcs
      exact .accept _

theorem operand_tracks :
    (g.operand expression).Tracks
      (fun cs => Silent.operandBody g (Silent.expression g depth) (skipped cs))
      fun cs before => ∀ limit, Stumbles g (.expression limit) cs before := by
  intro p cs failures
  rw [operand, cursor_bind]
  simp only
  refine .skipBlanks ?_
  rw [cursor_bind, ← (Silent.operandBody g _ (skipped cs)).resume_self]
  refine .attempt ((operandBody_tracks h _ _ _).mono (fun _ _ => trivial)
    fun before hb limit => Stumbles.inOperand hb) ?_ ?_
  · intro operand taken rest failures _ hcs
    exact .accept _
  · rintro c failures - -
    refine .note rfl (fun limit => ?_) ?_
    · rw [List.append_nil]
      exact .operandMissing
    · exact .giveUp rfl

theorem prefixed_tracks :
    (g.prefixed expression).Tracks (Silent.prefixed g (Silent.expression g depth))
      fun cs before => ∀ limit, Stumbles g (.expression limit) cs before := by
  intro p cs failures
  rw [prefixed, Silent.prefixed]
  refine .attempt (operand_tracks h _ _ _) ?_ ?_
  · intro operand taken rest failures _ hcs
    exact .accept _
  · rintro c failures hoperand rfl
    simp only
    rw [cursor_bind]
    refine .skipBlanks ?_
    rw [cursor_bind]
    cases hoperator : g.operators.matchPrefix? (skipped cs) with
    | none => exact .giveUp rfl
    | some operator =>
        simp only
        refine .passed (OperatorTable.matchPrefix?_starts hoperator) ?_
        refine .attempt ((h prefixPriority _ _ _).mono (fun _ _ => trivial) fun before hb limit =>
          Stumbles.afterPrefix hoperand hoperator hb) ?_ ?_
        · intro operand taken rest failures _ hcs
          exact .accept _
        · rintro c failures - -
          exact .giveUp rfl

theorem argumentsFrom_strays (close : Char) (fuel : Nat) :
    (argumentsFrom expression close fuel).Strays
      (Silent.argumentsFrom (Silent.expression g depth) close fuel)
      (Stumbles g (.arguments close)) := by
  induction fuel with
  | zero =>
      intro p cs failures
      exact .exhausted
  | succ fuel ih =>
      intro p cs failures
      rw [argumentsFrom, Silent.argumentsFrom]
      refine .bind ((h topLimit _ _ _).mono (fun _ hc => hc) fun before hb => .inArgument hb)
        (fun _ _ => trivial) ?_
      intro argument taken rest failures hargument hcs
      simp only
      refine .skipBlanks ?_
      rw [eat_bind]
      by_cases hcomma : (skipped rest).head? = some ','
      · rw [if_pos hcomma, if_pos hcomma]
        refine .eaten hcomma ?_
        refine .bind ((ih _ _ _).mono (fun _ hc => hc) fun before hb =>
          Stumbles.afterArgument hargument hcs hcomma hb) (fun _ hc => hc) ?_
        intro arguments taken rest failures _ _
        exact .accept _
      · rw [if_neg hcomma, if_neg hcomma]
        simp only [Bool.false_eq_true, if_false]
        rw [eat_bind]
        by_cases hclose : (skipped rest).head? = some close
        · rw [if_pos hclose, if_pos hclose]
          exact .eaten hclose (.accept _)
        · rw [if_neg hclose, if_neg hclose]
          simp only [Bool.false_eq_true, if_false]
          rw [cursor_bind]
          refine .note rfl ?_ ?_
          · rw [List.append_nil]
            exact .argumentsOpen hargument hcs
          · exact .reject trivial

theorem arguments_strays (close : Char) (allowEmpty : Bool) :
    (arguments expression close allowEmpty).Strays
      (Silent.arguments (Silent.expression g depth) close allowEmpty)
      fun cs before => ∃ inner, before = blanks cs ++ inner ∧
        Stumbles g (.arguments close) (skipped cs) inner := by
  intro p cs failures
  rw [arguments, Silent.arguments]
  refine .skipBlanks ?_
  have hfrom := fun failures => (argumentsFrom_strays h close ((skipped cs).length + 1)
    (p + byteLength (blanks cs)) (skipped cs) failures).mono (fun _ hc => hc)
      fun before hb => (⟨before, rfl, hb⟩ : ∃ inner, blanks cs ++ before = blanks cs ++ inner ∧
        Stumbles g (.arguments close) (skipped cs) inner)
  cases allowEmpty with
  | false => exact hfrom failures
  | true =>
      simp only [if_true, true_and]
      rw [eat_bind]
      by_cases hclose : (skipped cs).head? = some close
      · rw [if_pos hclose, if_pos hclose]
        exact .eaten hclose (.accept _)
      · rw [if_neg hclose, if_neg hclose]
        exact hfrom failures

theorem call_tracked (limit : Int32) (callee : Formula) (chained : Option Int32) {p : Nat}
    {cs : List Char} {failures : List ParseError} (hopen : (skipped cs).head? = some '(') :
    Tracked (fun before => Stumbles g (.chain limit callee chained) cs (blanks cs ++ before))
      (fun _ => True) p (skipped cs) failures
      (g.call expression callee ⟨⟨p, skipped cs, 0⟩, failures⟩)
      (Silent.call g (Silent.expression g depth) callee (skipped cs).tail) := by
  rw [call, Silent.call]
  cases hshape : g.callShape callee with
  | none => exact .reject trivial
  | some shape =>
      obtain ⟨form, operands, native⟩ := shape
      simp only
      cases g.operators.structural form with
      | none => exact .reject trivial
      | some operator =>
          simp only
          rw [eat_bind, if_pos hopen]
          refine .eaten hopen ?_
          refine .bind ((arguments_strays h ')' true _ _ _).mono (fun _ hc => hc) ?_)
            (fun _ hc => hc) ?_
          · rintro _ ⟨inner, rfl, hb⟩
            exact .inCall hopen (by simp [hshape]) hb
          · intro arguments taken rest failures _ _
            exact .accept _

theorem indexing_tracked (limit : Int32) (target : Formula) (chained : Option Int32) {p : Nat}
    {cs : List Char} {failures : List ParseError} (hopen : (skipped cs).head? = some '[') :
    Tracked (fun before => Stumbles g (.chain limit target chained) cs (blanks cs ++ before))
      (fun _ => True) p (skipped cs) failures
      (g.indexing expression target ⟨⟨p, skipped cs, 0⟩, failures⟩)
      (Silent.indexing g (Silent.expression g depth) target (skipped cs).tail) := by
  rw [indexing, Silent.indexing]
  cases g.operators.structural .indexer with
  | none => exact .reject trivial
  | some operator =>
      simp only
      rw [eat_bind, if_pos hopen]
      refine .eaten hopen ?_
      refine .bind ((arguments_strays h ']' false _ _ _).mono (fun _ hc => hc) ?_)
        (fun _ hc => hc) ?_
      · rintro _ ⟨inner, rfl, hb⟩
        exact .inIndexing hopen hb
      · intro arguments taken rest failures _ _
        exact .accept _

/-- What follows an operand is never rejected, so a rejected one cannot stand anywhere. -/
theorem chain_tracked (home : Cursor → Prop) (limit : Int32) (fuel : Nat) (left : Formula)
    (chained : Option Int32) (p : Nat) (cs : List Char) (failures : List ParseError) :
    Tracked (Stumbles g (.chain limit left chained) cs) home p cs failures
      (g.chain expression limit fuel left chained ⟨⟨p, cs, 0⟩, failures⟩)
      (Silent.chain g (Silent.expression g depth) limit fuel left chained cs) := by
  induction fuel generalizing left chained p cs failures with
  | zero => exact .exhausted
  | succ fuel ih =>
      have hstop : ∀ c failures, Tracked (Stumbles g (.chain limit left chained) cs) home p cs
          failures ((moveTo ⟨p, cs, 0⟩ >>= fun _ => Reading.accept left) ⟨c, failures⟩)
          (.accepted (left, cs)) :=
        fun c failures => .accept left
      have hblanks := blanks_append_skipped cs
      have hgrow : ∀ {f c skip taken ahead rest} failures,
          Silent.follow g (Silent.expression g depth) limit left chained cs =
            .accepted ((f, c), rest) → skip ++ ahead = cs → taken ++ rest = ahead →
          Tracked (Stumbles g (.chain limit left chained) cs) home p cs failures
            (g.chain expression limit fuel f c
              ⟨⟨p + byteLength skip + byteLength taken, rest, 0⟩, failures⟩)
            (Silent.chain g (Silent.expression g depth) limit fuel f c rest) := by
        intro f c skip taken ahead rest failures hgrown hskip htaken
        have hcs : (skip ++ taken) ++ rest = cs := by rw [List.append_assoc, htaken, hskip]
        rw [Nat.add_assoc, ← byteLength_append]
        exact .after (ih ..) hcs fun before hb => .afterGrowth hgrown hcs hb
      rw [chain, cursor_bind]
      simp only
      rw [skipBlanks_bind, cursor_bind, Silent.chain]
      rw [Silent.follow] at hgrow ⊢
      simp only [Cursor.peek?, if_true] at hgrow ⊢
      by_cases hcall : (skipped cs).head? = some '('
      · rw [if_pos hcall] at hgrow ⊢
        rw [if_pos hcall, Reply.resume_bind]
        refine .attemptAfter hblanks (call_tracked h limit left chained hcall) (fun _ hb => hb) ?_
          fun c failures _ _ => hstop c failures
        intro f taken rest failures hread htaken
        exact hgrow failures (by rw [hread]; rfl) hblanks htaken
      rw [if_neg hcall] at hgrow ⊢
      rw [if_neg hcall]
      by_cases hindex : (skipped cs).head? = some '['
      · rw [if_pos hindex] at hgrow ⊢
        rw [if_pos hindex, Reply.resume_bind]
        refine .attemptAfter hblanks (indexing_tracked h limit left chained hindex)
          (fun _ hb => hb) ?_ fun c failures _ _ => hstop c failures
        intro f taken rest failures hread htaken
        exact hgrow failures (by rw [hread]; rfl) hblanks htaken
      rw [if_neg hindex] at hgrow ⊢
      rw [if_neg hindex]
      cases hoperator : g.operators.matchInfix? (skipped cs) with
      | none => exact hstop _ _
      | some operator =>
          have hstarts := OperatorTable.matchInfix?_starts hoperator
          have hsymbol : (blanks cs ++ operator.symbol.toList) ++
              (skipped cs).drop operator.symbol.length = cs := by
            rw [List.append_assoc, Operator.symbol_append_drop hstarts, hblanks]
          have hadvance : (⟨p + byteLength (blanks cs), skipped cs, 0⟩ : Cursor).advance
              operator.width = ⟨p + byteLength (blanks cs ++ operator.symbol.toList),
                (skipped cs).drop operator.symbol.length, 0⟩ := by
            rw [Cursor.advance_eq hstarts, Operator.width, utf8ByteSize_eq_byteLength,
              byteLength_append, Nat.add_assoc]
          simp only [hoperator] at hgrow ⊢
          by_cases hdot : operator.form = .dot
          · rw [if_pos hdot] at hgrow ⊢
            rw [if_pos hdot, moveTo_bind, Reply.resume_bind]
            change Tracked _ _ _ _ _ ((skipBlanks >>= _) ⟨Cursor.advance
              ⟨p + byteLength (blanks cs), skipped cs, 0⟩ operator.width, failures⟩) _
            have hmissing : Stumbles g (.chain limit left chained) cs _ :=
              .memberMissing hoperator hdot
            have hafter := blanks_append_skipped ((skipped cs).drop operator.symbol.length)
            generalize (skipped cs).drop operator.symbol.length = after at *
            have hspace : ((blanks cs ++ operator.symbol.toList) ++ blanks after) ++
                skipped after = cs := by rw [List.append_assoc, hafter, hsymbol]
            rw [hadvance, skipBlanks_bind, Nat.add_assoc, ← byteLength_append]
            have htoken : Tracked (fun _ => False) _ (p + byteLength
                ((blanks cs ++ operator.symbol.toList) ++ blanks after)) (skipped after) failures
                _ _ := .token Cursor.identifier?_local Cursor.identifier?_passes
            refine .attemptAfter hspace htoken (fun _ hb => hb.elim) ?_ ?_
            · intro member taken rest failures hread htaken
              exact hgrow failures (by rw [hread]; rfl) hspace htaken
            · rintro c failures - rfl
              simp only [cursor_bind]
              refine .noteBehind ⟨_, hspace⟩ ?_ rfl (hstop _ _)
              rwa [List.append_assoc]
          rw [if_neg hdot] at hgrow ⊢
          rw [if_neg hdot]
          by_cases hlimit : limit < operator.priority
          · rw [if_pos hlimit, if_pos hlimit]
            exact hstop _ _
          rw [if_neg hlimit] at hgrow ⊢
          rw [if_neg hlimit]
          by_cases hchained :
              operator.associativity = .nonAssociative ∧ chained = some operator.priority
          · rw [if_pos hchained, if_pos hchained]
            exact .noteBehind ⟨_, hblanks⟩ .chainedTwice rfl (hstop _ _)
          rw [if_neg hchained] at hgrow ⊢
          rw [if_neg hchained, moveTo_bind, Reply.resume_bind]
          change Tracked _ _ _ _ _ ((attempt (expression operator.rightLimit) >>= _) ⟨Cursor.advance
            ⟨p + byteLength (blanks cs), skipped cs, 0⟩ operator.width, failures⟩) _
          rw [hadvance]
          refine .attemptAfter hsymbol (h operator.rightLimit _ _ _) ?_ ?_ ?_
          · intro before hb
            rw [List.append_assoc]
            exact .afterInfix hoperator hdot (Int32.not_lt.mp hlimit) hchained hb
          · intro right taken rest failures hread htaken
            exact hgrow failures (by rw [hread]; rfl) hsymbol htaken
          · exact fun c failures _ _ => hstop c failures

theorem expressionBody_tracks (limit : Int32) :
    (g.expressionBody expression limit).Tracks
      (Silent.expressionBody g (Silent.expression g depth) limit)
      (Stumbles g (.expression limit)) := by
  intro p cs failures
  rw [expressionBody, Silent.expressionBody]
  refine .bind ((prefixed_tracks h _ _ _).mono (fun _ hc => hc) fun before hb => hb limit)
    (fun _ hc => hc) ?_
  intro left taken rest failures hleft hcs
  exact (chain_tracked h _ limit _ left none _ rest failures).mono (fun _ hc => hc)
    fun before hb => .afterOperand hleft hcs hb

end Productions

theorem expression_tracks (depth : Nat) (limit : Int32) :
    (g.expression depth limit).Tracks (Silent.expression g depth limit)
      (Stumbles g (.expression limit)) := by
  induction depth generalizing limit with
  | zero =>
      intro p cs failures
      exact .exhausted
  | succ depth ih => exact expressionBody_tracks (fun limit => ih limit) limit

theorem expression_follows (depth : Nat) (limit : Int32) :
    (g.expression depth limit).Follows (Silent.expression g depth limit) :=
  fun p cs failures => (g.expression_tracks depth limit p cs failures).mirrors

/-- A text holds a formula if that is what the silent reader takes, up to blanks at its end. -/
theorem read_eq_ok_iff {text : String} {f : Formula} :
    g.read text = .ok f ↔ skipped text.toList ≠ [] ∧ ∃ rest, skipped rest = [] ∧
      Silent.expression g (text.toList.length + 1) topLimit (skipped text.toList) =
        .accepted (f, rest) := by
  rw [read, Cursor.start, Cursor.skipBlanks_eq, run, Cursor.start, Cursor.skipBlanks_eq]
  have hfollows := g.expression_follows (text.toList.length + 1) topLimit
    (0 + byteLength (text.toList.takeWhile isBlank)) (skipped text.toList) []
  by_cases hblank : skipped text.toList = []
  · rw [if_pos (by rw [Cursor.atEnd, hblank]; rfl)]
    simp only [hblank, ne_eq, not_true_eq_false, false_and, reduceCtorEq]
  · rw [if_neg (by rw [Cursor.atEnd, List.isEmpty_iff]; exact hblank)]
    -- The two replies are known by how one mirrors the other alone.
    revert hfollows
    generalize Silent.expression g _ _ _ = silent
    generalize g.expression _ _ _ = reply
    intro hfollows
    cases hfollows with
    | accepted a p rest failures =>
        simp only [Cursor.skipBlanks_eq, Cursor.atEnd, List.isEmpty_iff]
        by_cases hrest : skipped rest = []
        · rw [if_pos hrest]
          simp only [Except.ok.injEq, Reply.accepted.injEq, Prod.mk.injEq]
          constructor
          · rintro rfl
            exact ⟨hblank, rest, hrest, rfl, rfl⟩
          · rintro ⟨-, -, -, rfl, -⟩
            rfl
        · rw [if_neg hrest]
          simp only [reduceCtorEq, Reply.accepted.injEq, Prod.mk.injEq, false_iff, not_and,
            not_exists]
          rintro - tail htail rfl rfl
          exact hrest htail
    | rejected => simp only [reduceCtorEq, and_false, exists_false]
    | exhausted => simp only [reduceCtorEq, and_false, exists_false]

end Grammar

end Formulary
