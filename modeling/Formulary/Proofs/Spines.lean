import Formulary.Proofs.Replay
import Formulary.Proofs.Room

/-! # Operands still open

Behind an expression that was read stand the operands at its right edge, each up to a limit of its
own. Whatever comes next is offered to the innermost of them first. A spine is a formula with these
operands told apart; reading on from a text that was read is reading on from its spine.
-/

namespace Formulary

open OperatorTable Grammar

variable {g : Grammar}

theorem Grammar.prefixesShow (hstandard : g.operators = .standard) : g.operators.PrefixesShow := by
  rw [hstandard]
  decide +kernel

namespace Silent

/-- An expression, with room for whatever is nested in it. -/
def roomy (g : Grammar) (limit : Int32) : Silent Formula := fun cs =>
  expression g (cs.length + 1) limit cs

/-- What follows an operand, with room for whatever is nested in it. -/
def grow (g : Grammar) (limit : Int32) (left : Formula) (chained : Option Int32) : Silent Formula :=
  fun cs => chain g (roomy g) limit (cs.length + 1) left chained cs

theorem roomy_shrinks (limit : Int32) : Shrinks (roomy g limit) :=
  fun hread => expression_shrinks _ limit hread

section Standard

variable (hstandard : g.operators = .standard)
include hstandard

theorem roomy_ne_exhausted (limit : Int32) (cs : List Char) : roomy g limit cs ≠ .exhausted :=
  expression_ample (prefixesShow hstandard) _ limit cs (Nat.lt_succ_self _)

theorem expression_below_roomy (depth : Nat) (limit : Int32) (cs : List Char) :
    (expression g depth limit cs).Below (roomy g limit cs) := by
  rcases Nat.le_total depth (cs.length + 1) with hle | hle
  · exact expression_below hle limit cs
  · rcases expression_below hle limit cs with hnone | heq
    · exact absurd hnone (roomy_ne_exhausted hstandard limit cs)
    · exact Or.inr heq.symm

theorem roomy_eq (limit : Int32) (cs : List Char) :
    roomy g limit cs =
      (prefixed g (roomy g) cs).bind fun (left, rest) => grow g limit left none rest := by
  rcases expressionBody_below (expression_below_roomy hstandard cs.length) limit cs with hnone | heq
  · exact absurd hnone (roomy_ne_exhausted hstandard limit cs)
  · exact heq

theorem roomy_skipped {cs cs' : List Char} (h : skipped cs = skipped cs') (limit : Int32) :
    roomy g limit cs = roomy g limit cs' := by
  rw [roomy_eq hstandard, roomy_eq hstandard, prefixed, prefixed, h]

omit hstandard in
theorem grow_eq (limit : Int32) (left : Formula) (chained : Option Int32) (cs : List Char) :
    grow g limit left chained cs =
      (follow g (roomy g) limit left chained cs).resume
        (fun ((f, chained), rest) => grow g limit f chained rest) (.accepted (left, cs)) := by
  rw [grow, chain]
  cases hgrown : follow g (roomy g) limit left chained cs with
  | accepted grown =>
      have hshrinks := follow_shrinks roomy_shrinks limit left chained hgrown
      exact chain_fuel roomy_shrinks limit (by omega) (by omega)
  | rejected => rfl
  | exhausted => rfl

omit hstandard in
theorem grow_of_growth {limit : Int32} {left f : Formula} {chained c : Option Int32}
    {cs rest : List Char} (h : Growth g (roomy g) limit left chained cs f c rest) :
    grow g limit left chained cs = grow g limit f c rest := by
  rw [grow_eq, follow_eq_accepted_iff.mpr h]
  rfl

omit hstandard in
theorem grow_of_rejected {limit : Int32} {left : Formula} {chained : Option Int32} {cs : List Char}
    (h : follow g (roomy g) limit left chained cs = .rejected) :
    grow g limit left chained cs = .accepted (left, cs) := by
  rw [grow_eq, h]
  rfl

/-- What follows an operand is never rejected. -/
theorem exists_grow (limit : Int32) (left : Formula) (chained : Option Int32) (cs : List Char) :
    ∃ read, grow g limit left chained cs = .accepted read := by
  induction hlength : cs.length using Nat.strong_induction_on generalizing left chained cs with
  | _ n ih =>
      subst hlength
      rw [grow_eq]
      cases hgrown : follow g (roomy g) limit left chained cs with
      | accepted grown =>
          obtain ⟨⟨f, c⟩, rest⟩ := grown
          exact ih _ (follow_shrinks roomy_shrinks limit left chained hgrown) f c rest rfl
      | rejected => exact ⟨_, rfl⟩
      | exhausted =>
          have hample : Ample (roomy g) (cs.length + 1) :=
            fun limit cs _ => roomy_ne_exhausted hstandard limit cs
          exact absurd hgrown (follow_ne_exhausted hample roomy_shrinks limit left chained
            (Nat.lt_succ_self _))

/-- Nothing that ends expressions follows an operand. -/
theorem follow_ended {e : Int32 → Silent Formula} {cs : List Char} (h : Ended cs) (limit : Int32)
    (left : Formula) (chained : Option Int32) : follow g e limit left chained cs = .rejected := by
  have hawaits : Awaits g left (skipped cs) := Closes.awaits hstandard h left
  have hnone := h.matchInfix?
  rw [skipped_skipped] at hnone
  rw [follow]
  simp only
  rw [if_neg (skipped_skipped cs ▸ hawaits.call), if_neg (skipped_skipped cs ▸ hawaits.indexing),
    hstandard, hnone]

theorem grow_ended {cs : List Char} (h : Ended cs) (limit : Int32) (left : Formula)
    (chained : Option Int32) : grow g limit left chained cs = .accepted (left, cs) :=
  grow_of_rejected (follow_ended hstandard h limit left chained)

end Standard

/-- An infix operator comes next, and an expression for its right. -/
structure Offers (g : Grammar) (cs : List Char) (op : Operator) (right : Formula)
    (rest : List Char) : Prop where
  found : g.operators.matchInfix? (skipped cs) = some op
  form_ne_dot : op.form ≠ .dot
  read : roomy g op.rightLimit ((skipped cs).drop op.symbol.length) = .accepted (right, rest)

namespace Offers

variable {cs rest : List Char} {op : Operator} {right : Formula} (h : Offers g cs op right rest)
  (hstandard : g.operators = .standard)
include h hstandard

theorem mem_infixes : op ∈ infixes := by
  have hmem := mem_infixCandidates (List.mem_of_find?_eq_some (hstandard ▸ h.found))
  refine hmem.resolve_left ?_
  rintro rfl
  exact h.form_ne_dot rfl

theorem growth {limit : Int32} {chained : Option Int32} (hfits : ¬Refuses limit chained op)
    (left : Formula) :
    Growth g (roomy g) limit left chained cs (.node op [left, right]) (some op.priority) rest := by
  obtain ⟨hcall, hindex⟩ := head?_of_matchInfix? (hstandard ▸ h.found)
  rw [Refuses, not_or, Int32.not_lt] at hfits
  exact .infixed hcall hindex h.found h.form_ne_dot hfits.1 hfits.2 h.read

/-- The operator is left alone only if it is refused. -/
theorem follow_rejected_iff (limit : Int32) (left : Formula) (chained : Option Int32) :
    follow g (roomy g) limit left chained cs = .rejected ↔ Refuses limit chained op := by
  constructor
  · intro hrejected
    by_contra hfits
    rw [follow_eq_accepted_iff.mpr (h.growth hstandard hfits left)] at hrejected
    cases hrejected
  · intro hrefuses
    obtain ⟨hcall, hindex⟩ := head?_of_matchInfix? (hstandard ▸ h.found)
    rw [follow]
    simp only
    rw [if_neg hcall, if_neg hindex, h.found]
    simp only
    rw [if_neg h.form_ne_dot]
    by_cases hlimit : limit < op.priority
    · rw [if_pos hlimit]
    · rw [if_neg hlimit, if_pos (hrefuses.resolve_left hlimit)]

omit h in
/-- The operator is offered again before another expression, unless its symbol is continued. -/
theorem of_found (hop : g.operators.matchInfix? (skipped cs) = some op) (hdot : op.form ≠ .dot)
    {t : List Char} (ht : Resembles t ((skipped cs).drop op.symbol.length))
    (hread : roomy g op.rightLimit t = .accepted (right, rest)) :
    Offers g (blanks cs ++ (op.symbol.toList ++ t)) op right rest := by
  obtain ⟨hagain, hblank⟩ := matchInfix?_again (hstandard ▸ hop) ht
  have hskip : skipped (blanks cs ++ (op.symbol.toList ++ t)) = op.symbol.toList ++ t := by
    rw [skipped_blanks_append, hblank]
  refine ⟨?_, hdot, ?_⟩
  · rw [hskip, hstandard, hagain]
  · rw [hskip, drop_symbol, hread]

end Offers

/-- Something comes next that follows any operand: an indexing or a member access. -/
def Attaches (g : Grammar) (cs rest : List Char) : Prop :=
  ∀ limit left chained, ∃ f, Growth g (roomy g) limit left chained cs f chained rest

theorem Attaches.follow_ne_rejected {cs rest : List Char} (h : Attaches g cs rest) (limit : Int32)
    (left : Formula) (chained : Option Int32) :
    follow g (roomy g) limit left chained cs ≠ .rejected := by
  obtain ⟨f, hgrowth⟩ := h limit left chained
  rw [follow_eq_accepted_iff.mpr hgrowth]
  rintro ⟨⟩

theorem attaches_indexing {cs rest : List Char} {target f : Formula}
    (hopen : (skipped cs).head? = some '[')
    (hindexing : indexing g (roomy g) target (skipped cs).tail = .accepted (f, rest)) :
    Attaches g cs rest := by
  intro limit left chained
  rw [indexing] at hindexing
  split at hindexing
  · cases hindexing
  next operator hoperator =>
  obtain ⟨⟨indices, after⟩, hindices, hread⟩ := Reply.bind_eq_accepted.mp hindexing
  cases hread
  refine ⟨.node operator (left :: indices), .indexing hopen ?_⟩
  rw [indexing, hoperator]
  simp only [hindices, Reply.bind_accepted]

theorem attaches_member {cs rest : List Char} {op : Operator} {name : String}
    (hstandard : g.operators = .standard)
    (hop : g.operators.matchInfix? (skipped cs) = some op) (hdot : op.form = .dot)
    (hname : token Cursor.identifier? (skipped ((skipped cs).drop op.symbol.length)) =
      .accepted (name, rest)) : Attaches g cs rest := by
  obtain ⟨hcall, hindex⟩ := head?_of_matchInfix? (hstandard ▸ hop)
  exact fun limit left chained => ⟨_, .member hcall hindex hop hdot hname⟩

end Silent

/-- A formula, with the operands at its right edge told apart. -/
inductive Spine where
  /-- Nothing at the right edge is an operand. -/
  | primary (f : Formula)
  | prefixed (op : Operator) (hop : op ∈ prefixes) (operand : Spine)
  | infixed (op : Operator) (hop : op ∈ infixes) (left : Formula) (right : Spine)

namespace Spine

open Silent

def formula : Spine → Formula
  | primary f => f
  | prefixed op _ operand => .node op [operand.formula]
  | infixed op _ left right => .node op [left, right.formula]

/-- The priority of the infix operator at the root. -/
def chained : Spine → Option Int32
  | infixed op _ _ _ => some op.priority
  | _ => none

/-- Reads on: whatever comes next is offered to the innermost operand first. -/
def resume (g : Grammar) : Spine → Int32 → Silent Formula
  | primary f, limit, cs => grow g limit f none cs
  | prefixed op _ operand, limit, cs =>
    (operand.resume g prefixPriority cs).bind fun (f, rest) => grow g limit (.node op [f]) none rest
  | infixed op _ left right, limit, cs =>
    (right.resume g op.rightLimit cs).bind fun (f, rest) =>
      grow g limit (.node op [left, f]) (some op.priority) rest

/-- Whether reading stops here for an operand up to a limit. -/
def StopsAt (g : Grammar) (spine : Spine) (limit : Int32) (cs : List Char) : Prop :=
  follow g (roomy g) limit spine.formula spine.chained cs = .rejected

/-- Whether reading has stopped here for all operands at the right edge. -/
def Rests (g : Grammar) : Spine → List Char → Prop
  | primary _, _ => True
  | prefixed _ _ operand, cs => operand.Rests g cs ∧ operand.StopsAt g prefixPriority cs
  | infixed op _ _ right, cs => right.Rests g cs ∧ right.StopsAt g op.rightLimit cs

variable {spine : Spine} {cs : List Char}

/-- Reading on from where reading has stopped for all operands. -/
theorem resume_of_rests (h : spine.Rests g cs) (limit : Int32) :
    spine.resume g limit cs = grow g limit spine.formula spine.chained cs := by
  induction spine generalizing limit with
  | primary f => rfl
  | prefixed op hop operand ih =>
      rw [resume, ih h.1, grow_of_rejected h.2]
      rfl
  | infixed op hop left right ih =>
      rw [resume, ih h.1, grow_of_rejected h.2]
      rfl

theorem Rests.imp {t : List Char} (h : spine.Rests g cs)
    (himp : ∀ limit f c, follow g (roomy g) limit f c cs = .rejected →
      follow g (roomy g) limit f c t = .rejected) : spine.Rests g t := by
  induction spine with
  | primary f => trivial
  | prefixed op hop operand ih => exact ⟨ih h.1, himp _ _ _ h.2⟩
  | infixed op hop left right ih => exact ⟨ih h.1, himp _ _ _ h.2⟩

/-- An indexing or a member access does not come after open operands: the innermost of them would
have taken it. -/
theorem Rests.eq_primary {rest : List Char} (h : spine.Rests g cs)
    (hattaches : Attaches g cs rest) : ∃ f, spine = primary f := by
  cases spine with
  | primary f => exact ⟨f, rfl⟩
  | prefixed op hop operand => exact absurd h.2 (hattaches.follow_ne_rejected _ _ _)
  | infixed op hop left right => exact absurd h.2 (hattaches.follow_ne_rejected _ _ _)

/-- The innermost operand takes an indexing or a member access. -/
theorem resume_attaches {rest : List Char} (spine : Spine) (h : Attaches g cs rest)
    (limit : Int32) : ∃ next : Spine, spine.resume g limit cs = next.resume g limit rest := by
  induction spine generalizing limit with
  | primary f =>
      obtain ⟨grown, hgrowth⟩ := h limit f none
      exact ⟨.primary grown, grow_of_growth hgrowth⟩
  | prefixed op hop operand ih =>
      obtain ⟨next, hnext⟩ := ih prefixPriority
      exact ⟨.prefixed op hop next, by rw [resume, hnext]; rfl⟩
  | infixed op hop left right ih =>
      obtain ⟨next, hnext⟩ := ih op.rightLimit
      exact ⟨.infixed op hop left next, by rw [resume, hnext]; rfl⟩

/-- Only primaries can be called. -/
theorem eq_primary_of_callShape (h : g.callShape spine.formula ≠ none) :
    ∃ f, spine = primary f := by
  cases spine with
  | primary f => exact ⟨f, rfl⟩
  | prefixed op hop operand =>
      exact absurd (callShape_eq_none (isStructural_of_mem_prefixes hop)) h
  | infixed op hop left right =>
      exact absurd (callShape_eq_none (isStructural_of_mem_infixes hop)) h

section Standard

variable (hstandard : g.operators = .standard)
include hstandard

theorem exists_resume (spine : Spine) (limit : Int32) (cs : List Char) :
    ∃ read, spine.resume g limit cs = .accepted read := by
  induction spine generalizing limit with
  | primary f => exact exists_grow hstandard limit f none cs
  | prefixed op hop operand ih =>
      obtain ⟨⟨f, rest⟩, hread⟩ := ih prefixPriority
      rw [resume, hread]
      exact exists_grow hstandard limit _ _ rest
  | infixed op hop left right ih =>
      obtain ⟨⟨f, rest⟩, hread⟩ := ih op.rightLimit
      rw [resume, hread]
      exact exists_grow hstandard limit _ _ rest

theorem rests_ended (h : Ended cs) : spine.Rests g cs := by
  induction spine with
  | primary f => trivial
  | prefixed op hop operand ih => exact ⟨ih, follow_ended hstandard h _ _ _⟩
  | infixed op hop left right ih => exact ⟨ih, follow_ended hstandard h _ _ _⟩

theorem resume_ended (h : Ended cs) (spine : Spine) (limit : Int32) :
    spine.resume g limit cs = .accepted (spine.formula, cs) := by
  rw [resume_of_rests (rests_ended hstandard h), grow_ended hstandard h]

/-- An operator with an expression after it is taken by one of the operands, or refused by all. -/
theorem resume_offers {op : Operator} {right : Formula} {rest : List Char}
    (h : Offers g cs op right rest) (hrest : Ended rest) (spine : Spine) (limit : Int32) :
    (∃ f, spine.resume g limit cs = .accepted (f, rest)) ∨
      spine.Rests g cs ∧ spine.StopsAt g limit cs := by
  have htaken : ∀ {spine : Spine} limit, spine.Rests g cs →
      (∃ f, spine.resume g limit cs = .accepted (f, rest)) ∨
        spine.Rests g cs ∧ spine.StopsAt g limit cs := by
    intro spine limit hrests
    by_cases hrefuses : Refuses limit spine.chained op
    · exact Or.inr ⟨hrests, (h.follow_rejected_iff hstandard limit _ _).mpr hrefuses⟩
    · refine Or.inl ⟨.node op [spine.formula, right], ?_⟩
      rw [resume_of_rests hrests, grow_of_growth (h.growth hstandard hrefuses _),
        grow_ended hstandard hrest]
  induction spine generalizing limit with
  | primary f => exact htaken limit trivial
  | prefixed op' hop operand ih =>
      rcases ih prefixPriority with ⟨f, hread⟩ | hstops
      · refine Or.inl ⟨.node op' [f], ?_⟩
        rw [resume, hread]
        exact grow_ended hstandard hrest limit _ _
      · exact htaken limit hstops
  | infixed op' hop left inner ih =>
      rcases ih op'.rightLimit with ⟨f, hread⟩ | hstops
      · refine Or.inl ⟨.node op' [left, f], ?_⟩
        rw [resume, hread]
        exact grow_ended hstandard hrest limit _ _
      · exact htaken limit hstops

end Standard

end Spine

namespace Silent

open Spine

/-- Reading up to a limit has taken some characters, with a spine before what is left. -/
structure Stands (g : Grammar) (limit : Int32) (taken : List Char) (spine : Spine)
    (cs : List Char) : Prop where
  /-- Whatever follows the characters, reading goes on from the spine. -/
  resumes : ∀ rest', Bounded rest' → roomy g limit (taken ++ rest') = spine.resume g limit rest'
  rests : spine.Rests g cs

/-- Whatever is read from these characters leaves a spine, and reading stops there. -/
def LeavesSpine (g : Grammar) (limit : Int32) (cs : List Char) : Prop :=
  ∀ f rest, roomy g limit cs = .accepted (f, rest) → ∃ taken spine, taken ++ rest = cs ∧
    spine.formula = f ∧ Stands g limit taken spine rest ∧ spine.StopsAt g limit rest

/-- A reading has grown: it has taken more characters and stands before what is left with another
spine. -/
def Grown (g : Grammar) (limit : Int32) (taken cs : List Char) (f : Formula)
    (chained : Option Int32) (rest : List Char) : Prop :=
  ∃ more spine, more ++ rest = cs ∧ spine.formula = f ∧ spine.chained = chained ∧
    Stands g limit (taken ++ more) spine rest

theorem Ended.bounded {cs : List Char} (h : Ended cs) : Bounded cs := by
  have hbounded := Bounded.blanks_append cs (Closes.bounded h)
  rwa [blanks_append_skipped] at hbounded

theorem symbol_ne_nil {op : Operator} (hop : op ∈ infixes) : op.symbol.toList ≠ [] :=
  forall_mem_infixes (P := fun op => op.symbol.toList ≠ []) rfl hop

theorem bounded_symbol {op : Operator} (hop : op ∈ infixes) (rest : List Char) :
    Bounded (op.symbol.toList ++ rest) := by
  simp only [infixes, List.mem_cons, List.not_mem_nil, or_false] at hop
  rcases hop with rfl | rfl | rfl | rfl | rfl | rfl | rfl | rfl | rfl | rfl | rfl | rfl | rfl | rfl
  all_goals exact bounded_cons rfl (by decide)

theorem resembles_taken {taken rest after : List Char} (htaken : taken ++ rest = after)
    (hlength : rest.length < after.length) (rest' : List Char) :
    Resembles (taken ++ rest') after := by
  cases taken with
  | nil => exact absurd (congrArg List.length htaken) (Nat.ne_of_lt hlength)
  | cons c taken => exact ⟨c, taken ++ rest', rfl, Or.inr (htaken ▸ rfl)⟩

section Standard

variable (hstandard : g.operators = .standard)
include hstandard

theorem LeavesSpine.replays {limit : Int32} {cs : List Char} (h : LeavesSpine g limit cs) :
    Replays Ended (roomy g limit) cs := by
  intro f rest hread
  obtain ⟨taken, spine, htaken, rfl, hstands, -⟩ := h f rest hread
  refine ⟨taken, htaken, fun rest' hrest' => ?_⟩
  rw [hstands.resumes rest' hrest'.bounded, resume_ended hstandard hrest']

variable {n : Nat} (h : ∀ limit cs, cs.length < n → LeavesSpine g limit cs)
include h

theorem prefixed_stands {cs rest : List Char} {left : Formula} (hcs : cs.length ≤ n)
    (hread : prefixed g (roomy g) cs = .accepted (left, rest)) :
    ∃ taken spine, taken ++ rest = cs ∧ spine.formula = left ∧ spine.chained = none ∧
      ∀ limit, Stands g limit taken spine rest := by
  have hskipped := length_skipped_le cs
  rw [prefixed] at hread
  rcases Reply.resume_eq_accepted.mp hread with ⟨⟨f, after⟩, hoperand, hread⟩ | ⟨hoperand, hread⟩
  · cases hread
    have hlength := operandBody_shrinks roomy_shrinks hoperand
    have htail : (skipped cs).tail.length < n := by
      rw [List.length_tail]
      omega
    obtain ⟨taken, htaken, hagain⟩ := operandBody_replays roomy_shrinks
      ((h topLimit _ htail).replays hstandard) _ _ hoperand
    refine ⟨blanks cs ++ taken, .primary left, ?_, rfl, rfl, fun limit => ⟨?_, trivial⟩⟩
    · rw [List.append_assoc, htaken, blanks_append_skipped]
    · intro rest' hrest'
      rw [List.append_assoc, roomy_eq hstandard, prefixed_eq_of_operandBody
        (by rw [(skipped_again htaken hlength rest').1, hagain rest' hrest'])]
      rfl
  · split at hread
    · cases hread
    next op hop =>
    obtain ⟨⟨f, after⟩, hright, hread⟩ := Reply.bind_eq_accepted.mp hread
    cases hread
    have hmem : op ∈ prefixes := by
      rw [hstandard] at hop
      exact List.mem_of_find?_eq_some hop
    have hlength := (prefixesShow hstandard).length_drop_lt hop
    obtain ⟨taken, spine, htaken, rfl, hstands, hstops⟩ := h _ _ (by omega) _ _ hright
    refine ⟨blanks cs ++ (op.symbol.toList ++ taken), .prefixed op hmem spine, ?_, rfl, rfl,
      fun limit => ⟨?_, hstands.rests, hstops⟩⟩
    · rw [List.append_assoc, List.append_assoc, htaken,
        Operator.symbol_append_drop (matchPrefix?_starts hop), blanks_append_skipped]
    · intro rest' hrest'
      obtain ⟨⟨operand, after⟩, hresume⟩ := exists_resume hstandard spine prefixPriority rest'
      rw [List.append_assoc, List.append_assoc,
        roomy_skipped hstandard (skipped_blanks_append cs _), roomy_eq hstandard,
        prefixed_again hstandard hoperand hop
          (resembles_taken htaken (roomy_shrinks _ hright) rest'),
        hstands.resumes rest' hrest', Spine.resume, hresume]
      rfl

section Growth

variable {limit : Int32} {taken cs rest : List Char} {f : Formula}

omit hstandard h in
/-- A primary grows by what it takes again. -/
theorem Stands.grown_primary {left : Formula} {more : List Char}
    (hstands : Stands g limit taken (.primary left) cs) (hmore : more ++ rest = cs)
    (hbounded : ∀ rest', Bounded (more ++ rest'))
    (hgrow : ∀ rest', Bounded rest' →
      Silent.grow g limit left none (more ++ rest') = Silent.grow g limit f none rest') :
    Grown g limit taken cs f none rest := by
  refine ⟨more, .primary f, hmore, rfl, rfl, fun rest' hrest' => ?_, trivial⟩
  rw [List.append_assoc, hstands.resumes _ (hbounded rest')]
  exact hgrow rest' hrest'

variable {spine : Spine} (hstands : Stands g limit taken spine cs)
include hstands

theorem Stands.grown_call (hcs : cs.length ≤ n) (hopen : (skipped cs).head? = some '(')
    (hcall : call g (roomy g) spine.formula (skipped cs).tail = .accepted (f, rest)) :
    Grown g limit taken cs f spine.chained rest := by
  have hskipped := length_skipped_le cs
  have htail := length_tail_of_head? hopen
  have hshape : g.callShape spine.formula ≠ none := by
    intro hnone
    rw [call, hnone] at hcall
    cases hcall
  obtain ⟨left, rfl⟩ := eq_primary_of_callShape hshape
  obtain ⟨more, hmore, hagain⟩ := call_replays roomy_shrinks
    (fun cs hlt => (h topLimit cs hlt).replays hstandard) left (by omega) _ _ hcall
  have hmore' : (blanks cs ++ '(' :: more) ++ rest = cs := by
    rw [List.append_assoc, List.cons_append, hmore, blanks_append_cons hopen]
  refine hstands.grown_primary hmore' (fun rest' => ?_) fun rest' _ => ?_
  · rw [List.append_assoc]
    exact .blanks_append cs (bounded_cons rfl (by decide))
  · have hskip := skipped_blanks_cons cs (c := '(') rfl (more ++ rest')
    rw [List.append_assoc, List.cons_append]
    exact grow_of_growth (.call (by rw [hskip]; rfl) (by rw [hskip]; exact hagain rest' trivial))

theorem Stands.grown_indexing (hcs : cs.length ≤ n) (hopen : (skipped cs).head? = some '[')
    (hindexing : indexing g (roomy g) spine.formula (skipped cs).tail = .accepted (f, rest)) :
    Grown g limit taken cs f spine.chained rest := by
  have hskipped := length_skipped_le cs
  have htail := length_tail_of_head? hopen
  obtain ⟨left, rfl⟩ := hstands.rests.eq_primary (attaches_indexing hopen hindexing)
  obtain ⟨more, hmore, hagain⟩ := indexing_replays roomy_shrinks
    (fun cs hlt => (h topLimit cs hlt).replays hstandard) left (by omega) _ _ hindexing
  have hmore' : (blanks cs ++ '[' :: more) ++ rest = cs := by
    rw [List.append_assoc, List.cons_append, hmore, blanks_append_cons hopen]
  refine hstands.grown_primary hmore' (fun rest' => ?_) fun rest' _ => ?_
  · rw [List.append_assoc]
    exact .blanks_append cs (bounded_cons rfl (by decide))
  · have hskip := skipped_blanks_cons cs (c := '[') rfl (more ++ rest')
    rw [List.append_assoc, List.cons_append]
    exact grow_of_growth
      (.indexing (by rw [hskip]; rfl) (by rw [hskip]; exact hagain rest' trivial))

omit h in
theorem Stands.grown_member {op : Operator} {name : String}
    (hop : g.operators.matchInfix? (skipped cs) = some op) (hdot : op.form = .dot)
    (hname : token Cursor.identifier? (skipped ((skipped cs).drop op.symbol.length)) =
      .accepted (name, rest)) :
    Grown g limit taken cs (.node op [spine.formula, .identifier name]) spine.chained rest := by
  obtain ⟨left, rfl⟩ := hstands.rests.eq_primary (attaches_member hstandard hop hdot hname)
  obtain rfl := memberAccess_of_dot (hstandard ▸ hop) hdot
  have hisname := isName_of_token hname
  have hafter := Operator.symbol_append_drop (matchInfix?_starts hop)
  generalize (skipped cs).drop Operator.memberAccess.symbol.length = after at *
  have hmore : (blanks cs ++ '.' :: (blanks after ++ name.toList)) ++ rest = cs := by
    rw [List.append_assoc, List.cons_append, List.append_assoc, chars_of_name hname,
      blanks_append_skipped]
    exact (congrArg _ hafter).trans (blanks_append_skipped cs)
  refine hstands.grown_primary hmore (fun rest' => ?_) fun rest' hrest' => ?_
  · rw [List.append_assoc, List.cons_append, List.append_assoc]
    exact .blanks_append cs (bounded_member after hisname rest')
  · rw [List.append_assoc, List.cons_append, List.append_assoc]
    exact grow_of_growth (growth_member hstandard hisname cs after hrest' _ _ _)

theorem Stands.grown_infixed {op : Operator} {right : Formula} (hcs : cs.length ≤ n)
    (hoffers : Offers g cs op right rest) (hfits : ¬Refuses limit spine.chained op) :
    Grown g limit taken cs (.node op [spine.formula, right]) (some op.priority) rest := by
  have hskipped := length_skipped_le cs
  have hmem := hoffers.mem_infixes hstandard
  have hafter := Operator.symbol_append_drop (matchInfix?_starts hoffers.found)
  have hlength : ((skipped cs).drop op.symbol.length).length < n := by
    have hpos := List.length_pos_iff.mpr (symbol_ne_nil hmem)
    have hsum := congrArg List.length hafter
    rw [List.length_append] at hsum
    omega
  obtain ⟨more, inner, hmore, rfl, hinner, hstops⟩ := h _ _ hlength _ _ hoffers.read
  refine ⟨blanks cs ++ (op.symbol.toList ++ more), .infixed op hmem spine.formula inner, ?_,
    rfl, rfl, ?_, hinner.rests, hstops⟩
  · rw [List.append_assoc, List.append_assoc, hmore, hafter, blanks_append_skipped]
  · intro rest' hrest'
    rw [List.append_assoc, List.append_assoc, List.append_assoc,
      hstands.resumes _ (.blanks_append cs (bounded_symbol hmem _))]
    obtain ⟨⟨right, after⟩, hresume⟩ := exists_resume hstandard inner op.rightLimit rest'
    have hagain := Offers.of_found hstandard hoffers.found hoffers.form_ne_dot
      (resembles_taken hmore (roomy_shrinks _ hoffers.read) rest')
      ((hinner.resumes rest' hrest').trans hresume)
    -- The operands that refused the operator refuse it again.
    have hrests := hstands.rests.imp fun limit f c hrejected =>
      (hagain.follow_rejected_iff hstandard limit f c).mpr
        ((hoffers.follow_rejected_iff hstandard limit f c).mp hrejected)
    rw [resume_of_rests hrests, grow_of_growth (hagain.growth hstandard hfits _), Spine.resume,
      hresume]
    rfl

/-- What follows an operand grows the reading, whatever it is. -/
theorem Stands.grown {c : Option Int32} (hcs : cs.length ≤ n)
    (hgrowth : Growth g (roomy g) limit spine.formula spine.chained cs f c rest) :
    Grown g limit taken cs f c rest := by
  cases hgrowth with
  | call hopen hcall => exact hstands.grown_call hstandard h hcs hopen hcall
  | indexing hopen hindexing => exact hstands.grown_indexing hstandard h hcs hopen hindexing
  | member _ _ hop hdot hname => exact hstands.grown_member hstandard hop hdot hname
  | infixed _ _ hop hdot hlimit hchained hright =>
      refine hstands.grown_infixed hstandard h hcs ⟨hop, hdot, hright⟩ ?_
      rw [Refuses, not_or, Int32.not_lt]
      exact ⟨hlimit, hchained⟩

end Growth

/-- Everything that follows an operand keeps a spine before what is left, up to where reading
stops. -/
theorem Stands.chain {limit : Int32} {taken cs rest : List Char} {spine : Spine} {f : Formula}
    (hstands : Stands g limit taken spine cs) (hcs : cs.length ≤ n)
    (hread : Silent.grow g limit spine.formula spine.chained cs = .accepted (f, rest)) :
    ∃ more last, more ++ rest = cs ∧ last.formula = f ∧ Stands g limit (taken ++ more) last rest ∧
      last.StopsAt g limit rest := by
  induction hlength : cs.length using Nat.strong_induction_on generalizing taken spine cs with
  | _ m ih =>
      subst hlength
      rw [grow_eq] at hread
      cases hgrown : follow g (roomy g) limit spine.formula spine.chained cs with
      | accepted grown =>
          obtain ⟨⟨f', c⟩, after⟩ := grown
          have hshrinks := follow_shrinks roomy_shrinks _ _ _ hgrown
          obtain ⟨more, next, rfl, rfl, rfl, hnext⟩ :=
            hstands.grown hstandard h hcs (follow_eq_accepted_iff.mp hgrown)
          rw [hgrown] at hread
          obtain ⟨more', last, rfl, rfl, hlast, hstops⟩ :=
            ih _ hshrinks hnext (by omega) hread rfl
          refine ⟨more ++ more', last, List.append_assoc .., rfl, ?_, hstops⟩
          rwa [List.append_assoc] at hlast
      | rejected =>
          rw [hgrown] at hread
          cases hread
          refine ⟨[], spine, rfl, rfl, ?_, hgrown⟩
          rwa [List.append_nil]
      | exhausted =>
          rw [hgrown] at hread
          cases hread

omit h in
/-- Whatever is read leaves a spine. -/
theorem leavesSpine (limit : Int32) (cs : List Char) : LeavesSpine g limit cs := by
  induction hlength : cs.length using Nat.strong_induction_on generalizing limit cs with
  | _ n ih =>
      subst hlength
      have hbelow : ∀ limit cs', cs'.length < cs.length → LeavesSpine g limit cs' :=
        fun limit cs' hlt => ih _ hlt limit cs' rfl
      intro f rest hread
      rw [roomy_eq hstandard] at hread
      obtain ⟨⟨left, after⟩, hleft, hread⟩ := Reply.bind_eq_accepted.mp hread
      obtain ⟨taken, spine, htaken, rfl, hnone, hstands⟩ :=
        prefixed_stands hstandard hbelow (Nat.le_refl _) hleft
      have hshrinks := prefixed_shrinks roomy_shrinks hleft
      simp only at hread
      rw [← hnone] at hread
      obtain ⟨more, last, rfl, rfl, hlast, hstops⟩ :=
        (hstands limit).chain hstandard hbelow (Nat.le_of_lt hshrinks) hread
      exact ⟨taken ++ more, last, by rw [List.append_assoc, htaken], rfl, hlast, hstops⟩

end Standard

end Silent

end Formulary
