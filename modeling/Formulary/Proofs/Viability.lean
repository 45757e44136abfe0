import Formulary.Proofs.Failures
import Formulary.Proofs.Spines

/-! # Failures stand behind what can be completed

Failures of abandoned alternatives stay on record, but no alternative goes on behind something that
no text could mend. Whatever stands before a failure can be completed: with a missing operand or
member, with the brackets that are still open, or with nothing at all. So the text before a reported
position is the beginning of a text that holds a formula.
-/

namespace Formulary

open OperatorTable

namespace Grammar

variable {g : Grammar}

theorem blanks_append_starts {cs before : List Char} (h : before <+: skipped cs) :
    blanks cs ++ before <+: cs := by
  obtain ⟨rest, hrest⟩ := h
  exact ⟨rest, by rw [List.append_assoc, hrest, blanks_append_skipped]⟩

theorem symbol_append_starts {op : Operator} {cs before : List Char} (hop : op.starts cs)
    (h : before <+: cs.drop op.symbol.length) : op.symbol.toList ++ before <+: cs := by
  obtain ⟨rest, hrest⟩ := h
  exact ⟨rest, by rw [List.append_assoc, hrest, Operator.symbol_append_drop hop]⟩

theorem taken_append_starts {taken rest cs before : List Char} (hcs : taken ++ rest = cs)
    (h : before <+: rest) : taken ++ before <+: cs := by
  rw [← hcs]
  exact (List.prefix_append_right_inj taken).mpr h

theorem cons_starts_of_head? {cs before : List Char} {c : Char} (hhead : cs.head? = some c)
    (h : before <+: cs.tail) : c :: before <+: cs := by
  rw [← cons_tail_of_head? hhead, List.cons_prefix_cons]
  exact ⟨rfl, h⟩

theorem blanks_start (cs : List Char) : blanks cs <+: cs := List.takeWhile_prefix _

/-- A failure is noted behind a beginning of what was ahead. -/
theorem Stumbles.starts {place : Place} {cs before : List Char} (h : Stumbles g place cs before) :
    before <+: cs := by
  induction h with
  | operandMissing => exact blanks_start _
  | inOperand _ ih => exact blanks_append_starts ih
  | afterPrefix _ hop _ ih =>
      exact blanks_append_starts (symbol_append_starts (matchPrefix?_starts hop) ih)
  | afterOperand _ hcs _ ih => exact taken_append_starts hcs ih
  | atOnce => exact List.nil_prefix
  | inParenthesis hopen _ ih => exact cons_starts_of_head? hopen ih
  | parenthesisEmpty hopen => exact cons_starts_of_head? hopen (blanks_start _)
  | parenthesisOpen hopen _ hcs =>
      exact cons_starts_of_head? hopen (taken_append_starts hcs (blanks_start _))
  | inCall hopen _ _ ih =>
      exact blanks_append_starts (cons_starts_of_head? hopen (blanks_append_starts ih))
  | inIndexing hopen _ ih =>
      exact blanks_append_starts (cons_starts_of_head? hopen (blanks_append_starts ih))
  | memberMissing hop =>
      exact blanks_append_starts (symbol_append_starts (matchInfix?_starts hop) (blanks_start _))
  | chainedTwice => exact blanks_start _
  | afterInfix hop _ _ _ _ ih =>
      exact blanks_append_starts (symbol_append_starts (matchInfix?_starts hop) ih)
  | afterGrowth _ hcs _ ih => exact taken_append_starts hcs ih
  | inArgument _ ih => exact ih
  | afterArgument _ hcs hcomma _ ih =>
      exact taken_append_starts hcs (blanks_append_starts (cons_starts_of_head? hcomma ih))
  | argumentsOpen _ hcs => exact taken_append_starts hcs (blanks_start _)

end Grammar

namespace Silent

open Grammar

variable {g : Grammar}

/-- The text is read as an expression up to a limit before anything that closes it. -/
def Finishes (g : Grammar) (limit : Int32) (text : List Char) : Prop :=
  ∀ rest, Closes rest → ∃ f after, skipped after = rest ∧
    roomy g limit (text ++ rest) = .accepted (f, after)

/-- The text is read as an operand before anything that closes it. -/
def FinishesOperand (g : Grammar) (text : List Char) : Prop :=
  ∀ rest, Closes rest → ∃ f, operandBody g (roomy g) (text ++ rest) = .accepted (f, rest)

/-- The text is read as expressions separated by commas with the character that closes them. -/
def FinishesList (g : Grammar) (close : Char) (text : List Char) : Prop :=
  ∀ rest fuel, (skipped (text ++ rest)).length < fuel →
    ∃ fs, argumentsFrom (roomy g) close fuel (text ++ rest) = .accepted (fs, rest)

theorem skipped_of_operandBody {e : Int32 → Silent Formula} {cs : List Char}
    {read : Formula × List Char} (h : operandBody g e cs = .accepted read) : skipped cs = cs := by
  cases cs with
  | nil => rfl
  | cons c cs =>
      refine skipped_of_head (Bool.of_not_eq_true fun hblank => ?_)
      rcases isBlank_iff.mp hblank with rfl | rfl
      all_goals
        rw [operandBody_rejected_of_head (by decide) (by decide) rfl] at h
        cases h

section Standard

variable (hstandard : g.operators = .standard)
include hstandard

theorem Finishes.blanks_append {limit : Int32} {text : List Char} (h : Finishes g limit text)
    (cs : List Char) : Finishes g limit (blanks cs ++ text) := by
  intro rest hrest
  rw [List.append_assoc, roomy_skipped hstandard (skipped_blanks_append cs _)]
  exact h rest hrest

theorem FinishesOperand.finishes {text : List Char} (h : FinishesOperand g text) (limit : Int32) :
    Finishes g limit text := by
  intro rest hrest
  obtain ⟨f, hread⟩ := h rest hrest
  refine ⟨f, rest, hrest.skipped_eq, ?_⟩
  rw [roomy_eq hstandard, prefixed_eq_of_operandBody
    (by rw [skipped_of_operandBody hread, hread])]
  exact grow_ended hstandard (ended_of_closes hrest) limit f none

omit hstandard in
theorem isName_x : IsName "x" := ⟨'x', [], rfl, rfl, fun _ hc => absurd hc List.not_mem_nil⟩

omit hstandard in
theorem finishesOperand_name : FinishesOperand g ['x'] :=
  fun _ hrest => ⟨_, operandBody_name isName_x hrest.bounded⟩

/-- What was read before something else is read before what closes it. -/
theorem finishes_taken {limit : Int32} {cs taken rest : List Char} {f : Formula}
    (hread : roomy g limit cs = .accepted (f, rest)) (htaken : taken ++ rest = cs) :
    Finishes g limit (taken ++ blanks rest) := by
  intro rest' hrest'
  obtain ⟨taken', hcs, hagain⟩ := (leavesSpine hstandard limit cs).replays hstandard _ _ hread
  obtain rfl : taken' = taken := List.append_cancel_right (hcs.trans htaken.symm)
  have hskip : skipped (blanks rest ++ rest') = rest' := by
    rw [skipped_blanks_append, hrest'.skipped_eq]
  refine ⟨f, blanks rest ++ rest', hskip, ?_⟩
  rw [List.append_assoc]
  exact hagain _ (ended_of_skipped hskip hrest')

theorem finishesOperand_parenthesis {text : List Char} (h : Finishes g topLimit text) :
    FinishesOperand g ('(' :: (text ++ [')'])) := by
  intro rest _
  obtain ⟨f, after, hafter, hread⟩ := h (')' :: rest) (closes_cons (Or.inl rfl) rest)
  refine ⟨.node .grouping [f], ?_⟩
  rw [List.cons_append, List.append_assoc, List.singleton_append, operandBody, List.head?_cons]
  simp only [parenthesis, hstandard, structural_parenthesis, List.head?_cons, if_true,
    List.tail_cons, hread, Reply.bind_accepted, hafter]

/-! ## Prefix operators -/

omit hstandard in
/-- What starts what was ahead resembles it when it is completed. -/
theorem resembles_completed {before after suffix : List Char} (hbefore : before <+: after)
    (hempty : before = [] → suffix.head? = some 'x') (rest : List Char) :
    Resembles (before ++ suffix ++ rest) after := by
  obtain ⟨tail, rfl⟩ := hbefore
  cases before with
  | nil =>
      have hx := cons_tail_of_head? (hempty rfl)
      exact ⟨'x', suffix.tail ++ rest, by rw [List.nil_append, ← hx]; rfl, Or.inl rfl⟩
  | cons c before =>
      exact ⟨c, before ++ suffix ++ rest, rfl, Or.inr rfl⟩

theorem finishes_prefixed {e : Int32 → Silent Formula} {cs text : List Char} {op : Operator}
    (hoperand : operandBody g e cs = .rejected) (hop : g.operators.matchPrefix? cs = some op)
    (hresembles : ∀ rest, Resembles (text ++ rest) (cs.drop op.symbol.length))
    (h : Finishes g prefixPriority text) (limit : Int32) :
    Finishes g limit (op.symbol.toList ++ text) := by
  intro rest hrest
  obtain ⟨f, after, hafter, hread⟩ := h rest hrest
  refine ⟨.node op [f], after, hafter, ?_⟩
  rw [List.append_assoc, roomy_eq hstandard,
    prefixed_again hstandard hoperand hop (hresembles rest), hread]
  exact grow_ended hstandard (ended_of_skipped hafter hrest) limit _ none

/-! ## Lists -/

omit hstandard in
theorem finishesList_last {text : List Char} {close : Char} (hclose : close = ')' ∨ close = ']')
    (h : Finishes g topLimit text) : FinishesList g close (text ++ [close]) := by
  intro rest fuel hfuel
  obtain ⟨f, after, hafter, hread⟩ := h _ (closes_cons hclose rest)
  obtain ⟨fuel, rfl⟩ : ∃ n, fuel = n + 1 := ⟨fuel - 1, by omega⟩
  rw [List.append_assoc, List.singleton_append]
  exact ⟨[f], argumentsFrom_last (ne_comma hclose) hread hafter⟩

theorem finishesList_comma {text others : List Char} {close : Char}
    (h : Finishes g topLimit text) (hothers : FinishesList g close others) :
    FinishesList g close (text ++ ',' :: others) := by
  intro rest fuel hfuel
  obtain ⟨f, after, hafter, hread⟩ := h _ (closes_comma (others ++ rest))
  rw [List.append_assoc, List.cons_append] at hfuel ⊢
  -- The expression takes characters away after its blanks, so the list after it is shorter.
  have hshrinks : after.length < (skipped (text ++ ',' :: (others ++ rest))).length := by
    rw [← roomy_skipped hstandard (skipped_skipped _)] at hread
    exact roomy_shrinks _ hread
  have hlength := congrArg List.length hafter
  have hafterlength := length_skipped_le after
  have hskipped := length_skipped_le (others ++ rest)
  rw [List.length_cons] at hlength
  obtain ⟨fuel, rfl⟩ : ∃ n, fuel = n + 1 := ⟨fuel - 1, by omega⟩
  obtain ⟨fs, hfs⟩ := hothers rest fuel (by omega)
  exact ⟨f :: fs, argumentsFrom_comma hread hafter hfs⟩

/-- No expression starts with a closing bracket. -/
theorem roomy_closing {cs : List Char} {c : Char} (hhead : (skipped cs).head? = some c)
    (hc : c = ')' ∨ c = ']') (limit : Int32) : roomy g limit cs = .rejected := by
  have hcs := cons_tail_of_head? hhead
  have hoperand : operandBody g (roomy g) (skipped cs) = .rejected := by
    rw [← hcs]
    rcases hc with rfl | rfl
    all_goals exact operandBody_rejected_of_head (by decide) (by decide) rfl
  have hop : g.operators.matchPrefix? (skipped cs) = none := by
    rw [hstandard, ← hcs]
    rcases hc with rfl | rfl <;> rfl
  rw [roomy_eq hstandard, prefixed, hoperand, Reply.resume_rejected, hop]
  rfl

theorem argumentsFrom_skipped (close : Char) (fuel : Nat) {cs cs' : List Char}
    (h : skipped cs = skipped cs') :
    argumentsFrom (roomy g) close fuel cs = argumentsFrom (roomy g) close fuel cs' := by
  cases fuel with
  | zero => rfl
  | succ fuel => rw [argumentsFrom, argumentsFrom, roomy_skipped hstandard h]

/-- A list that is not empty is read after an opening bracket and blanks. -/
theorem FinishesList.arguments {text : List Char} {close : Char}
    (hclose : close = ')' ∨ close = ']') (h : FinishesList g close text) (allowEmpty : Bool)
    (cs rest : List Char) :
    ∃ fs, Silent.arguments (roomy g) close allowEmpty (blanks cs ++ (text ++ rest)) =
      .accepted (fs, rest) := by
  obtain ⟨fs, hread⟩ := h rest _ (Nat.lt_succ_self _)
  have hnonempty : ¬(allowEmpty = true ∧ (skipped (text ++ rest)).head? = some close) := by
    rintro ⟨-, hhead⟩
    rw [argumentsFrom, roomy_closing hstandard hhead hclose] at hread
    cases hread
  refine ⟨fs, ?_⟩
  rw [Silent.arguments, skipped_blanks_append, if_neg hnonempty,
    argumentsFrom_skipped hstandard close _ (skipped_skipped _), hread]

/-! ## What follows an operand -/

omit hstandard in
theorem structural_of_callShape (hstandard : g.operators = .standard) {callee : Formula}
    {form : Form} {operands : List Formula → List Formula} {native : Option (Native Formula)}
    (h : g.callShape callee = some (form, operands, native)) :
    ∃ operator, g.operators.structural form = some operator := by
  rw [hstandard]
  unfold callShape at h
  split at h
  · cases h
    exact ⟨_, structural_functionCall⟩
  · split at h
    · cases h
      exact ⟨_, structural_methodCall⟩
    · cases h
  · cases h

section Stands

variable {limit : Int32} {taken cs : List Char} {spine : Spine}
  (hstands : Stands g limit taken spine cs)
include hstands

theorem Stands.finishes_blanks (cs' : List Char) : Finishes g limit (taken ++ blanks cs') := by
  intro rest hrest
  have hskip : skipped (blanks cs' ++ rest) = rest := by
    rw [skipped_blanks_append, hrest.skipped_eq]
  have hended := ended_of_skipped hskip hrest
  refine ⟨spine.formula, blanks cs' ++ rest, hskip, ?_⟩
  rw [List.append_assoc, hstands.resumes _ hended.bounded, Spine.resume_ended hstandard hended]

theorem Stands.finishes_attached {text : List Char} (hbounded : ∀ rest, Bounded (text ++ rest))
    (hattaches : ∀ rest, Closes rest → Attaches g (text ++ rest) rest) :
    Finishes g limit (taken ++ text) := by
  intro rest hrest
  obtain ⟨next, hnext⟩ := spine.resume_attaches (hattaches rest hrest) limit
  refine ⟨next.formula, rest, hrest.skipped_eq, ?_⟩
  rw [List.append_assoc, hstands.resumes _ (hbounded rest), hnext,
    Spine.resume_ended hstandard (ended_of_closes hrest)]

theorem Stands.finishes_infixed {op : Operator} {text : List Char}
    (hop : g.operators.matchInfix? (skipped cs) = some op) (hdot : op.form ≠ .dot)
    (hfits : ¬Refuses limit spine.chained op)
    (hresembles : ∀ rest, Resembles (text ++ rest) ((skipped cs).drop op.symbol.length))
    (h : Finishes g op.rightLimit text) :
    Finishes g limit (taken ++ (blanks cs ++ (op.symbol.toList ++ text))) := by
  intro rest hrest
  obtain ⟨right, after, hafter, hright⟩ := h rest hrest
  have hoffers := Offers.of_found hstandard hop hdot (hresembles rest) hright
  have hbounded := Bounded.blanks_append cs
    (bounded_symbol (hoffers.mem_infixes hstandard) (text ++ rest))
  rw [List.append_assoc, List.append_assoc, List.append_assoc, hstands.resumes _ hbounded]
  rcases Spine.resume_offers hstandard hoffers (ended_of_skipped hafter hrest) spine limit with
    ⟨f, hread⟩ | ⟨-, hstops⟩
  · exact ⟨f, after, hafter, hread⟩
  · exact absurd ((hoffers.follow_rejected_iff hstandard limit _ _).mp hstops) hfits

/-- Something in an opened call can be completed. -/
theorem Stands.finishes_call (hcallee : g.callShape spine.formula ≠ none)
    (cs after : List Char) {text : List Char} (h : FinishesList g ')' text) :
    Finishes g limit (taken ++ (blanks cs ++ '(' :: (blanks after ++ text))) := by
  intro rest hrest
  obtain ⟨left, rfl⟩ := Spine.eq_primary_of_callShape hcallee
  obtain ⟨⟨form, operands, native⟩, hshape⟩ := Option.ne_none_iff_exists'.mp hcallee
  obtain ⟨operator, hoperator⟩ := structural_of_callShape hstandard hshape
  obtain ⟨fs, hread⟩ := h.arguments hstandard (Or.inl rfl) true after rest
  have hcall : call g (roomy g) left (blanks after ++ (text ++ rest)) =
      .accepted (.apply operator native (operands fs), rest) := by
    change g.callShape left = _ at hshape
    simp only [call, hshape, hoperator, hread, Reply.bind_accepted]
  have hskip := skipped_blanks_cons cs (c := '(') rfl (blanks after ++ (text ++ rest))
  refine ⟨.apply operator native (operands fs), rest, hrest.skipped_eq, ?_⟩
  rw [List.append_assoc, List.append_assoc, List.cons_append, List.append_assoc,
    hstands.resumes _ (.blanks_append cs (bounded_cons rfl (by decide))), Spine.resume,
    grow_of_growth (.call (by rw [hskip]; rfl) (by rw [hskip]; exact hcall))]
  exact grow_ended hstandard (ended_of_closes hrest) limit _ none

/-- Something in an opened indexing can be completed. -/
theorem Stands.finishes_indexing (cs after : List Char) {text : List Char}
    (h : FinishesList g ']' text) :
    Finishes g limit (taken ++ (blanks cs ++ '[' :: (blanks after ++ text))) := by
  refine hstands.finishes_attached hstandard (fun rest => ?_) fun rest _ => ?_
  · rw [List.append_assoc]
    exact .blanks_append cs (bounded_cons rfl (by decide))
  · obtain ⟨fs, hread⟩ := h.arguments hstandard (Or.inr rfl) false after rest
    rw [List.append_assoc, List.cons_append, List.append_assoc]
    have hskip := skipped_blanks_cons cs (c := '[') rfl (blanks after ++ (text ++ rest))
    have hindexing : indexing g (roomy g) (.identifier "x") (blanks after ++ (text ++ rest)) =
        .accepted (.node .indexing (.identifier "x" :: fs), rest) := by
      simp only [indexing, hstandard, structural_indexer, hread, Reply.bind_accepted]
    exact attaches_indexing (by rw [hskip]; rfl) (by rw [hskip]; exact hindexing)

/-- A missing member can be completed. -/
theorem Stands.finishes_member (cs after : List Char) :
    Finishes g limit (taken ++ (blanks cs ++ '.' :: (blanks after ++ ['x']))) := by
  refine hstands.finishes_attached hstandard (fun rest => ?_) fun rest hrest => ?_
  · rw [List.append_assoc, List.cons_append, List.append_assoc]
    exact .blanks_append cs (bounded_member after isName_x rest)
  · rw [List.append_assoc, List.cons_append, List.append_assoc]
    exact fun limit left chained =>
      ⟨_, growth_member hstandard isName_x cs after hrest.bounded limit left chained⟩

end Stands

end Standard

end Silent

namespace Grammar

open Silent

variable {g : Grammar}

/-- What is being read in a place can be completed behind some characters; where nothing was read of
it yet, with a name. -/
def Completable (g : Grammar) : Place → List Char → List Char → Prop
  | .expression limit, _, before =>
    ∃ suffix, (before = [] → suffix.head? = some 'x') ∧ Finishes g limit (before ++ suffix)
  | .operand, _, before =>
    ∃ suffix, (before = [] → suffix.head? = some 'x') ∧ FinishesOperand g (before ++ suffix)
  | .chain limit left chained, cs, before =>
    ∀ taken spine, spine.formula = left → spine.chained = chained →
      Stands g limit taken spine cs → ∃ suffix, Finishes g limit (taken ++ (before ++ suffix))
  | .arguments close, _, before =>
    close = ')' ∨ close = ']' → ∃ suffix, FinishesList g close (before ++ suffix)

section Completable

variable (hstandard : g.operators = .standard)
include hstandard

theorem roomy_of_accepted {depth : Nat} {limit : Int32} {cs : List Char}
    {read : Formula × List Char} (h : Silent.expression g depth limit cs = .accepted read) :
    roomy g limit cs = .accepted read :=
  (expression_below_roomy hstandard depth limit cs).accepted h

theorem completable_afterPrefix {limit : Int32} {cs before : List Char} {op : Operator}
    {depth : Nat}
    (hoperand : Silent.operandBody g (Silent.expression g depth) (skipped cs) = .rejected)
    (hop : g.operators.matchPrefix? (skipped cs) = some op)
    (hbefore : before <+: (skipped cs).drop op.symbol.length)
    (h : Completable g (.expression prefixPriority) ((skipped cs).drop op.symbol.length) before) :
    Completable g (.expression limit) cs (blanks cs ++ (op.symbol.toList ++ before)) := by
  obtain ⟨suffix, hempty, hfinishes⟩ := h
  have hrejected : Silent.operandBody g (roomy g) (skipped cs) = .rejected :=
    (Silent.operandBody_below (expression_below_roomy hstandard depth) _).rejected hoperand
  refine ⟨suffix, fun hnil => ?_, ?_⟩
  · have hsymbol := (List.append_eq_nil_iff.mp (List.append_eq_nil_iff.mp hnil).2).1
    exact absurd (String.toList_eq_nil_iff.mp hsymbol)
      (prefixesShow hstandard op (List.mem_of_find?_eq_some hop))
  · rw [List.append_assoc, List.append_assoc]
    exact (finishes_prefixed hstandard hrejected hop (resembles_completed hbefore hempty)
      hfinishes limit).blanks_append hstandard cs

theorem completable_afterOperand {limit : Int32} {cs taken rest before : List Char} {left : Formula}
    {depth : Nat}
    (hleft : Silent.prefixed g (Silent.expression g depth) cs = .accepted (left, rest))
    (hcs : taken ++ rest = cs) (h : Completable g (.chain limit left none) rest before) :
    Completable g (.expression limit) cs (taken ++ before) := by
  have hread : Silent.prefixed g (roomy g) cs = .accepted (left, rest) :=
    (Silent.prefixed_below (expression_below_roomy hstandard depth) cs).accepted hleft
  obtain ⟨taken', spine, htaken, rfl, hnone, hstands⟩ := prefixed_stands hstandard
    (fun limit cs _ => leavesSpine hstandard limit cs) (Nat.le_refl _) hread
  obtain rfl : taken' = taken := List.append_cancel_right (htaken.trans hcs.symm)
  obtain ⟨suffix, hfinishes⟩ := h taken' spine rfl hnone (hstands limit)
  refine ⟨suffix, fun hnil => ?_, ?_⟩
  · have hshrinks := prefixed_shrinks roomy_shrinks hread
    rw [← hcs, (List.append_eq_nil_iff.mp hnil).1] at hshrinks
    exact absurd hshrinks (Nat.lt_irrefl _)
  · rw [List.append_assoc]
    exact hfinishes

theorem completable_afterInfix {limit : Int32} {left : Formula} {chained : Option Int32}
    {cs before : List Char} {op : Operator}
    (hop : g.operators.matchInfix? (skipped cs) = some op) (hdot : op.form ≠ .dot)
    (hfits : ¬Refuses limit chained op)
    (hbefore : before <+: (skipped cs).drop op.symbol.length)
    (h : Completable g (.expression op.rightLimit) ((skipped cs).drop op.symbol.length) before) :
    Completable g (.chain limit left chained) cs (blanks cs ++ (op.symbol.toList ++ before)) := by
  rintro taken spine rfl rfl hstands
  obtain ⟨suffix, hempty, hfinishes⟩ := h
  refine ⟨suffix, ?_⟩
  rw [List.append_assoc, List.append_assoc]
  exact hstands.finishes_infixed hstandard hop hdot hfits (resembles_completed hbefore hempty)
    hfinishes

theorem completable_afterGrowth {limit : Int32} {left f : Formula} {chained c : Option Int32}
    {cs taken rest before : List Char} {depth : Nat}
    (hgrown : Silent.follow g (Silent.expression g depth) limit left chained cs =
      .accepted ((f, c), rest))
    (hcs : taken ++ rest = cs) (h : Completable g (.chain limit f c) rest before) :
    Completable g (.chain limit left chained) cs (taken ++ before) := by
  rintro front spine rfl rfl hstands
  have hread := (follow_below (expression_below_roomy hstandard depth) limit _ _ cs).accepted hgrown
  obtain ⟨more, next, hmore, rfl, rfl, hnext⟩ := hstands.grown hstandard
    (fun limit cs _ => leavesSpine hstandard limit cs) (Nat.le_refl _)
    (follow_eq_accepted_iff.mp hread)
  obtain rfl : more = taken := List.append_cancel_right (hmore.trans hcs.symm)
  obtain ⟨suffix, hfinishes⟩ := h _ next rfl rfl hnext
  refine ⟨suffix, ?_⟩
  rw [List.append_assoc] at hfinishes ⊢
  exact hfinishes

/-- Wherever a failure is noted, what stands before it can be completed. -/
theorem Stumbles.completable {place : Place} {cs before : List Char}
    (h : Stumbles g place cs before) : Completable g place cs before := by
  induction h with
  | @operandMissing limit cs =>
      exact ⟨['x'], fun _ => rfl,
        (finishesOperand_name.finishes hstandard limit).blanks_append hstandard cs⟩
  | @inOperand limit cs before _ ih =>
      obtain ⟨suffix, hempty, hfinishes⟩ := ih
      refine ⟨suffix, fun hnil => hempty (List.append_eq_nil_iff.mp hnil).2, ?_⟩
      rw [List.append_assoc]
      exact (hfinishes.finishes hstandard limit).blanks_append hstandard cs
  | afterPrefix hoperand hop hstumbles ih =>
      exact completable_afterPrefix hstandard hoperand hop hstumbles.starts ih
  | afterOperand hleft hcs _ ih => exact completable_afterOperand hstandard hleft hcs ih
  | atOnce => exact ⟨['x'], fun _ => rfl, finishesOperand_name⟩
  | inParenthesis hopen _ ih =>
      obtain ⟨suffix, -, hfinishes⟩ := ih
      refine ⟨suffix ++ [')'], fun hnil => absurd hnil (List.cons_ne_nil _ _), ?_⟩
      rw [List.cons_append, ← List.append_assoc]
      exact finishesOperand_parenthesis hstandard hfinishes
  | @parenthesisEmpty cs hopen =>
      refine ⟨['x'] ++ [')'], fun hnil => absurd hnil (List.cons_ne_nil _ _), ?_⟩
      rw [List.cons_append, ← List.append_assoc]
      exact finishesOperand_parenthesis hstandard
        ((finishesOperand_name.finishes hstandard _).blanks_append hstandard cs.tail)
  | parenthesisOpen hopen hinner hcs =>
      refine ⟨[')'], fun hnil => absurd hnil (List.cons_ne_nil _ _), ?_⟩
      exact finishesOperand_parenthesis hstandard
        (finishes_taken hstandard (roomy_of_accepted hstandard hinner) hcs)
  | inCall hopen hcallee _ ih =>
      rintro taken spine rfl rfl hstands
      obtain ⟨suffix, hfinishes⟩ := ih (Or.inl rfl)
      refine ⟨suffix, ?_⟩
      rw [List.append_assoc, List.cons_append, List.append_assoc]
      exact hstands.finishes_call hstandard hcallee _ _ hfinishes
  | inIndexing hopen _ ih =>
      rintro taken spine rfl rfl hstands
      obtain ⟨suffix, hfinishes⟩ := ih (Or.inr rfl)
      refine ⟨suffix, ?_⟩
      rw [List.append_assoc, List.cons_append, List.append_assoc]
      exact hstands.finishes_indexing hstandard _ _ hfinishes
  | memberMissing hop hdot =>
      rintro taken spine rfl rfl hstands
      obtain rfl := memberAccess_of_dot (hstandard ▸ hop) hdot
      refine ⟨['x'], ?_⟩
      rw [List.append_assoc, List.append_assoc]
      exact hstands.finishes_member hstandard _ _
  | chainedTwice =>
      rintro taken spine rfl rfl hstands
      refine ⟨[], ?_⟩
      rw [List.append_nil]
      exact hstands.finishes_blanks hstandard _
  | afterInfix hop hdot hlimit hchained hstumbles ih =>
      refine completable_afterInfix hstandard hop hdot ?_ hstumbles.starts ih
      rw [Refuses, not_or, Int32.not_lt]
      exact ⟨hlimit, hchained⟩
  | afterGrowth hgrown hcs _ ih => exact completable_afterGrowth hstandard hgrown hcs ih
  | @inArgument close _ _ _ ih =>
      intro hclose
      obtain ⟨suffix, -, hfinishes⟩ := ih
      refine ⟨suffix ++ [close], ?_⟩
      rw [← List.append_assoc]
      exact finishesList_last hclose hfinishes
  | afterArgument hargument hcs hcomma _ ih =>
      intro hclose
      obtain ⟨suffix, hfinishes⟩ := ih hclose
      refine ⟨suffix, ?_⟩
      rw [← List.append_assoc, List.append_assoc, List.cons_append]
      exact finishesList_comma hstandard
        (finishes_taken hstandard (roomy_of_accepted hstandard hargument) hcs) hfinishes
  | argumentsOpen hargument hcs =>
      intro hclose
      exact ⟨_, finishesList_last hclose
        (finishes_taken hstandard (roomy_of_accepted hstandard hargument) hcs)⟩

end Completable

/-- A text is read if it is read as an expression behind the blanks at its start. -/
theorem read_of_finishes (hstandard : g.operators = .standard) {cs chars : List Char}
    (h : Finishes g topLimit chars) :
    ∃ f, g.read (String.ofList (blanks cs ++ chars)) = .ok f := by
  obtain ⟨f, after, hafter, hread⟩ := h [] (Or.inl rfl)
  rw [List.append_nil, ← roomy_skipped hstandard (skipped_skipped chars)] at hread
  have hshrinks := roomy_shrinks _ hread
  have hle : (skipped chars).length ≤ (blanks cs ++ chars).length := by
    rw [← skipped_blanks_append cs chars]
    exact length_skipped_le _
  refine ⟨f, g.read_eq_ok_iff.mpr ?_⟩
  rw [String.toList_ofList, skipped_blanks_append]
  refine ⟨fun hnil => ?_, after, hafter, ?_⟩
  · rw [hnil] at hshrinks
    exact absurd hshrinks (Nat.not_lt_zero _)
  · exact (Silent.expression_below (Nat.succ_le_succ hle) topLimit (skipped chars)).accepted hread

/-- What stands before a failure of reading a whole text is the beginning of a text that holds a
formula. -/
theorem Fails.completable (hstandard : g.operators = .standard) {cs before : List Char}
    (h : Fails g cs before) : ∃ suffix f, g.read (String.ofList (before ++ suffix)) = .ok f := by
  cases h with
  | inside hstumbles =>
      obtain ⟨suffix, -, hfinishes⟩ := hstumbles.completable hstandard
      refine ⟨suffix, ?_⟩
      rw [List.append_assoc]
      exact read_of_finishes hstandard hfinishes
  | leftOver hread hcs =>
      refine ⟨[], ?_⟩
      rw [List.append_nil]
      exact read_of_finishes hstandard
        (finishes_taken hstandard ((expression_below_roomy hstandard _ _ _).accepted hread) hcs)

/-- The text before the position of an error is the beginning of a text that holds a formula. -/
theorem read_error_viable (hstandard : g.operators = .standard) {text : String}
    {error : ParseError} {p : Nat} (hread : g.read text = .error error)
    (hp : error.position? = some p) :
    ∃ before after suffix : String, text = before ++ after ∧ before.utf8ByteSize = p ∧
      ∃ f, g.read (before ++ suffix) = .ok f := by
  have hne : skipped text.toList ≠ [] := by
    intro hblank
    rw [read_of_blank hblank] at hread
    cases hread
    cases hp
  obtain ⟨q, hreported⟩ := reported_of_read (prefixesShow hstandard) hne hread
  obtain ⟨before, ⟨after, hafter⟩, hfails, hposition⟩ :=
    (g.run_ends (prefixesShow hstandard) text).noted error hreported.furthest.mem
  obtain ⟨suffix, f, hf⟩ := hfails.completable hstandard
  refine ⟨String.ofList before, String.ofList after, String.ofList suffix, ?_, ?_, f, ?_⟩
  · rw [← String.ofList_append, hafter, String.ofList_toList]
  · rw [hp, Nat.zero_add] at hposition
    rw [utf8ByteSize_eq_byteLength, String.toList_ofList]
    exact (Option.some.inj hposition).symm
  · rw [← String.ofList_append, hf]

theorem abandoned_call_viable :
    standard.operators = .standard ∧ standard.read "f(a, 2 3)" = .error (.expected ')' 7) ∧
      (ParseError.expected ')' 7).position? = some 7 ∧
      ∃ before after suffix : String, "f(a, 2 3)" = before ++ after ∧ before.utf8ByteSize = 7 ∧
        ∃ f, standard.read (before ++ suffix) = .ok f := by
  have hread : standard.read "f(a, 2 3)" = .error (.expected ')' 7) := by rfl
  exact ⟨rfl, hread, rfl, read_error_viable rfl hread rfl⟩

end Grammar

end Formulary
