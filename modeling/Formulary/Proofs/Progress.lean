import Formulary.Proofs.Silent

/-! # Bounds on reading

More room for nested expressions never changes an answer, and whatever is read takes characters
away. So the bound on how much may follow an operand is never met, and the bound on nesting can be
forgotten wherever an answer is known.
-/

namespace Formulary

namespace Reply

variable {α β : Type}

/-- The first reply is the second unless a bound was met. -/
def Below (x y : Reply α) : Prop := x = exhausted ∨ x = y

theorem Below.refl (x : Reply α) : x.Below x := Or.inr rfl

theorem Below.trans {x y z : Reply α} (hxy : x.Below y) (hyz : y.Below z) : x.Below z := by
  rcases hxy with hxy | rfl
  · exact Or.inl hxy
  · exact hyz

theorem Below.accepted {x y : Reply α} (h : x.Below y) {a : α} (hx : x = .accepted a) :
    y = .accepted a := by
  rcases h with h | rfl
  · rw [hx] at h
    cases h
  · exact hx

theorem Below.rejected {x y : Reply α} (h : x.Below y) (hx : x = .rejected) : y = .rejected := by
  rcases h with h | rfl
  · rw [hx] at h
    cases h
  · exact hx

theorem Below.resume {x y : Reply α} (h : x.Below y) {accept accept' : α → Reply β}
    {reject reject' : Reply β} (haccept : ∀ a, (accept a).Below (accept' a))
    (hreject : reject.Below reject') :
    (x.resume accept reject).Below (y.resume accept' reject') := by
  rcases h with rfl | rfl
  · exact Or.inl rfl
  · cases x with
    | accepted a => exact haccept a
    | rejected => exact hreject
    | exhausted => exact Or.inl rfl

theorem Below.bind {x y : Reply α} (h : x.Below y) {next next' : α → Reply β}
    (hnext : ∀ a, (next a).Below (next' a)) : (x.bind next).Below (y.bind next') :=
  h.resume hnext (.refl _)

end Reply

namespace Silent

variable {g : Grammar}

/-- What may come next after an operand, with the priority of the last infix operator after it. -/
inductive Growth (g : Grammar) (e : Int32 → Silent Formula) (limit : Int32) (left : Formula)
    (chained : Option Int32) (cs : List Char) : Formula → Option Int32 → List Char → Prop where
  | call {f : Formula} {rest : List Char} (hopen : (skipped cs).head? = some '(')
      (hcall : call g e left (skipped cs).tail = .accepted (f, rest)) :
      Growth g e limit left chained cs f chained rest
  | indexing {f : Formula} {rest : List Char} (hopen : (skipped cs).head? = some '[')
      (hindexing : indexing g e left (skipped cs).tail = .accepted (f, rest)) :
      Growth g e limit left chained cs f chained rest
  | member {op : Operator} {name : String} {rest : List Char}
      (hcall : (skipped cs).head? ≠ some '(') (hindex : (skipped cs).head? ≠ some '[')
      (hoperator : g.operators.matchInfix? (skipped cs) = some op) (hdot : op.form = .dot)
      (hname : token Cursor.identifier? (skipped ((skipped cs).drop op.symbol.length)) =
        .accepted (name, rest)) :
      Growth g e limit left chained cs (.node op [left, .identifier name]) chained rest
  | infixed {op : Operator} {right : Formula} {rest : List Char}
      (hcall : (skipped cs).head? ≠ some '(') (hindex : (skipped cs).head? ≠ some '[')
      (hoperator : g.operators.matchInfix? (skipped cs) = some op) (hdot : op.form ≠ .dot)
      (hlimit : op.priority ≤ limit)
      (hchained : ¬(op.associativity = .nonAssociative ∧ chained = some op.priority))
      (hright : e op.rightLimit ((skipped cs).drop op.symbol.length) = .accepted (right, rest)) :
      Growth g e limit left chained cs (.node op [left, right]) (some op.priority) rest

theorem follow_eq_accepted_iff {e : Int32 → Silent Formula} {limit : Int32} {left f : Formula}
    {chained c : Option Int32} {cs rest : List Char} :
    follow g e limit left chained cs = .accepted ((f, c), rest) ↔
      Growth g e limit left chained cs f c rest := by
  constructor
  · intro h
    rw [follow] at h
    simp only at h
    split at h
    · next hopen =>
      obtain ⟨⟨f', rest'⟩, hcall, h⟩ := Reply.bind_eq_accepted.mp h
      cases h
      exact .call hopen hcall
    next hcall =>
    split at h
    · next hopen =>
      obtain ⟨⟨f', rest'⟩, hindexing, h⟩ := Reply.bind_eq_accepted.mp h
      cases h
      exact .indexing hopen hindexing
    next hindex =>
    split at h
    · cases h
    next op hoperator =>
    split at h
    · next hdot =>
      obtain ⟨⟨name, rest'⟩, hname, h⟩ := Reply.bind_eq_accepted.mp h
      cases h
      exact .member hcall hindex hoperator hdot hname
    next hdot =>
    split at h
    · cases h
    next hlimit =>
    split at h
    · cases h
    next hchained =>
    obtain ⟨⟨right, rest'⟩, hright, h⟩ := Reply.bind_eq_accepted.mp h
    cases h
    exact .infixed hcall hindex hoperator hdot (Int32.not_lt.mp hlimit) hchained hright
  · intro h
    rw [follow]
    simp only
    cases h with
    | call hopen hcall =>
        rw [if_pos hopen, hcall]
        rfl
    | indexing hopen hindexing =>
        have hcall : ¬(skipped cs).head? = some '(' := by
          rw [hopen]
          decide
        rw [if_neg hcall, if_pos hopen, hindexing]
        rfl
    | member hcall hindex hoperator hdot hname =>
        rw [if_neg hcall, if_neg hindex, hoperator]
        simp only
        rw [if_pos hdot, hname]
        rfl
    | infixed hcall hindex hoperator hdot hlimit hchained hright =>
        rw [if_neg hcall, if_neg hindex, hoperator]
        simp only
        rw [if_neg hdot, if_neg (Int32.not_lt.mpr hlimit), if_neg hchained, hright]
        rfl

section Monotone

variable {e e' : Int32 → Silent Formula} (h : ∀ limit cs, (e limit cs).Below (e' limit cs))
include h

theorem parenthesis_below (cs : List Char) : (parenthesis g e cs).Below (parenthesis g e' cs) := by
  rw [parenthesis, parenthesis]
  cases g.operators.structural .parenthesis with
  | none => exact .refl _
  | some operator =>
      simp only
      split
      · exact (h _ _).bind fun _ => .refl _
      · exact .refl _

theorem operandBody_below (cs : List Char) : (operandBody g e cs).Below (operandBody g e' cs) := by
  rw [operandBody, operandBody]
  split <;> try exact .refl _
  exact parenthesis_below h cs

theorem prefixed_below (cs : List Char) : (prefixed g e cs).Below (prefixed g e' cs) := by
  rw [prefixed, prefixed]
  refine (operandBody_below h _).resume (fun _ => .refl _) ?_
  cases g.operators.matchPrefix? (skipped cs) with
  | none => exact .refl _
  | some operator => exact (h _ _).bind fun _ => .refl _

theorem argumentsFrom_below (close : Char) (fuel : Nat) (cs : List Char) :
    (argumentsFrom e close fuel cs).Below (argumentsFrom e' close fuel cs) := by
  induction fuel generalizing cs with
  | zero => exact .refl _
  | succ fuel ih =>
      rw [argumentsFrom, argumentsFrom]
      refine (h _ _).bind ?_
      rintro ⟨argument, rest⟩
      simp only
      split
      · exact (ih _).bind fun _ => .refl _
      · exact .refl _

theorem arguments_below (close : Char) (allowEmpty : Bool) (cs : List Char) :
    (arguments e close allowEmpty cs).Below (arguments e' close allowEmpty cs) := by
  rw [arguments, arguments]
  split
  · exact .refl _
  · exact argumentsFrom_below h close _ _

theorem call_below (callee : Formula) (cs : List Char) :
    (call g e callee cs).Below (call g e' callee cs) := by
  rw [call, call]
  cases g.callShape callee with
  | none => exact .refl _
  | some shape =>
      simp only
      split
      · exact .refl _
      · exact (arguments_below h ')' true cs).bind fun _ => .refl _

theorem indexing_below (target : Formula) (cs : List Char) :
    (indexing g e target cs).Below (indexing g e' target cs) := by
  rw [indexing, indexing]
  cases g.operators.structural .indexer with
  | none => exact .refl _
  | some operator => exact (arguments_below h ']' false cs).bind fun _ => .refl _

theorem follow_below (limit : Int32) (left : Formula) (chained : Option Int32) (cs : List Char) :
    (follow g e limit left chained cs).Below (follow g e' limit left chained cs) := by
  rw [follow, follow]
  simp only
  split
  · exact (call_below h left _).bind fun _ => .refl _
  split
  · exact (indexing_below h left _).bind fun _ => .refl _
  cases g.operators.matchInfix? (skipped cs) with
  | none => exact .refl _
  | some operator =>
      simp only
      split
      · exact .refl _
      split
      · exact .refl _
      split
      · exact .refl _
      · exact (h _ _).bind fun _ => .refl _

theorem chain_below (limit : Int32) (fuel : Nat) (left : Formula) (chained : Option Int32)
    (cs : List Char) :
    (chain g e limit fuel left chained cs).Below (chain g e' limit fuel left chained cs) := by
  induction fuel generalizing left chained cs with
  | zero => exact .refl _
  | succ fuel ih =>
      rw [chain, chain]
      exact (follow_below h limit left chained cs).resume (fun _ => ih _ _ _) (.refl _)

theorem expressionBody_below (limit : Int32) (cs : List Char) :
    (expressionBody g e limit cs).Below (expressionBody g e' limit cs) := by
  rw [expressionBody, expressionBody]
  exact (prefixed_below h cs).bind fun _ => chain_below h limit _ _ _ _

end Monotone

theorem expression_below_succ (depth : Nat) (limit : Int32) (cs : List Char) :
    (expression g depth limit cs).Below (expression g (depth + 1) limit cs) := by
  induction depth generalizing limit cs with
  | zero => exact Or.inl rfl
  | succ depth ih => exact expressionBody_below ih limit cs

/-- More room for nested expressions does not change an answer. -/
theorem expression_below {depth depth' : Nat} (h : depth ≤ depth') (limit : Int32)
    (cs : List Char) : (expression g depth limit cs).Below (expression g depth' limit cs) := by
  induction h with
  | refl => exact .refl _
  | step h ih => exact ih.trans (expression_below_succ _ limit cs)

/-- Whatever is accepted takes at least one character away. -/
def Shrinks {α : Type} (silent : Silent α) : Prop :=
  ∀ {cs a rest}, silent cs = .accepted (a, rest) → rest.length < cs.length

theorem length_skipped_le (cs : List Char) : (skipped cs).length ≤ cs.length :=
  (List.dropWhile_suffix isBlank).length_le

theorem length_tail_of_head? {cs : List Char} {x : Char} (h : cs.head? = some x) :
    cs.tail.length < cs.length := by
  cases cs with
  | nil => cases h
  | cons x cs => exact Nat.lt_succ_self _

/-- A reader of tokens that moves past at least one character. -/
def Consumes {α : Type} (read? : Cursor → Option (α × Cursor)) : Prop :=
  ∀ {cs a next}, read? ⟨0, cs, 0⟩ = some (a, next) →
    ∃ taken : List Char, taken ≠ [] ∧ cs ≠ [] ∧ next.rest = cs.drop taken.length

theorem Consumes.token_shrinks {α : Type} {read? : Cursor → Option (α × Cursor)}
    (h : Consumes read?) : Shrinks (token read?) := by
  intro cs a rest htoken
  rw [token] at htoken
  cases hread : read? ⟨0, cs, 0⟩ with
  | none =>
      rw [hread] at htoken
      cases htoken
  | some read =>
      obtain ⟨result, next⟩ := read
      rw [hread] at htoken
      cases htoken
      obtain ⟨taken, htaken, hcs, hrest⟩ := h hread
      have := List.length_pos_iff.mpr htaken
      have := List.length_pos_iff.mpr hcs
      rw [hrest, List.length_drop]
      omega

theorem isNamePart_of_isNameStart {x : Char} (h : isNameStart x) : isNamePart x := by
  simp only [isNameStart, isNamePart, Char.isAlphanum, Bool.or_eq_true] at h ⊢
  rcases h with h | h
  · exact Or.inl (Or.inl h)
  · exact Or.inr h

theorem identifier?_consumes : Consumes Cursor.identifier? := by
  intro cs name next h
  cases cs with
  | nil => cases h
  | cons x cs =>
      simp only [Cursor.identifier?, Cursor.peek?, if_true, List.head?_cons] at h
      split at h
      · next hx =>
        cases h
        refine ⟨_, ?_, List.cons_ne_nil x cs, rfl⟩
        rw [List.takeWhile_cons_of_pos (isNamePart_of_isNameStart hx)]
        exact List.cons_ne_nil _ _
      · cases h

theorem number?_consumes : Consumes Cursor.number? := by
  intro cs value next h
  simp only [Cursor.number?, ne_eq, not_true_eq_false, if_false] at h
  -- With a sign or without one, the digits alone make the token longer than nothing.
  generalize (if (cs.head? == some '-') = true then ['-'] else []) = sign at h
  split at h
  · cases h
  · next hwhole =>
    have hdigits : (cs.drop sign.length).takeWhile Char.isDigit ≠ [] := by
      simpa only [List.isEmpty_iff] using hwhole
    have hcs : cs ≠ [] := by
      rintro rfl
      exact hdigits (by rw [List.drop_nil]; rfl)
    split at h
    · split at h
      · cases h
        exact ⟨_, List.append_ne_nil_of_right_ne_nil _ hdigits, hcs, rfl⟩
      · cases h
        exact ⟨_, List.append_ne_nil_of_right_ne_nil _ (List.cons_ne_nil _ _), hcs, rfl⟩
    · cases h
      exact ⟨_, List.append_ne_nil_of_right_ne_nil _ hdigits, hcs, rfl⟩

theorem quotedString?_consumes : Consumes Cursor.quotedString? := by
  intro cs text next h
  cases cs with
  | nil => cases h
  | cons x cs =>
      simp only [Cursor.quotedString?, Cursor.peek?, if_true, List.head?_cons] at h
      split at h
      · split at h
        · cases h
        · cases h
          refine ⟨_, ?_, List.cons_ne_nil x cs, rfl⟩
          exact List.cons_ne_nil _ _
      · cases h

section Productions

variable {e : Int32 → Silent Formula} (h : ∀ limit, Shrinks (e limit))

theorem precompiled_shrinks : Shrinks (precompiled g) := by
  intro cs f rest h
  rw [precompiled] at h
  split at h
  · next hhead =>
    obtain ⟨⟨name, after⟩, hname, h⟩ := Reply.bind_eq_accepted.mp h
    have := identifier?_consumes.token_shrinks hname
    have := length_tail_of_head? hhead
    simp only at h
    split at h <;> cases h
    omega
  · cases h

include h

theorem parenthesis_shrinks : Shrinks (parenthesis g e) := by
  intro cs f rest hf
  rw [parenthesis] at hf
  split at hf
  · cases hf
  split at hf
  · next hhead =>
    obtain ⟨⟨inner, after⟩, hinner, hf⟩ := Reply.bind_eq_accepted.mp hf
    have := h _ hinner
    have := length_tail_of_head? hhead
    simp only at hf
    split at hf
    · next hclose =>
      cases hf
      have := length_tail_of_head? hclose
      have := length_skipped_le after
      omega
    · cases hf
  · cases hf

theorem operandBody_shrinks : Shrinks (operandBody g e) := by
  intro cs f rest hf
  rw [operandBody] at hf
  split at hf
  · exact precompiled_shrinks hf
  · exact parenthesis_shrinks h hf
  · obtain ⟨⟨text, after⟩, htext, hf⟩ := Reply.bind_eq_accepted.mp hf
    cases hf
    exact quotedString?_consumes.token_shrinks htext
  · obtain ⟨⟨text, after⟩, htext, hf⟩ := Reply.bind_eq_accepted.mp hf
    cases hf
    exact quotedString?_consumes.token_shrinks htext
  · rcases Reply.resume_eq_accepted.mp hf with ⟨⟨value, after⟩, hvalue, hf⟩ | ⟨-, hf⟩
    · cases hf
      exact number?_consumes.token_shrinks hvalue
    · obtain ⟨⟨name, after⟩, hname, hf⟩ := Reply.bind_eq_accepted.mp hf
      cases hf
      exact identifier?_consumes.token_shrinks hname

theorem prefixed_shrinks : Shrinks (prefixed g e) := by
  intro cs f rest hf
  have := length_skipped_le cs
  rw [prefixed] at hf
  rcases Reply.resume_eq_accepted.mp hf with ⟨⟨operand, after⟩, hoperand, hf⟩ | ⟨-, hf⟩
  · cases hf
    have := operandBody_shrinks h hoperand
    omega
  · split at hf
    · cases hf
    · next operator _ =>
      obtain ⟨⟨operand, after⟩, hoperand, hf⟩ := Reply.bind_eq_accepted.mp hf
      cases hf
      have := h _ hoperand
      rw [List.length_drop] at this
      omega

theorem argumentsFrom_shrinks (close : Char) (fuel : Nat) :
    Shrinks (argumentsFrom e close fuel) := by
  induction fuel with
  | zero =>
      intro cs fs rest hf
      cases hf
  | succ fuel ih =>
      intro cs fs rest hf
      rw [argumentsFrom] at hf
      obtain ⟨⟨argument, after⟩, hargument, hf⟩ := Reply.bind_eq_accepted.mp hf
      have := h _ hargument
      have := length_skipped_le after
      simp only at hf
      split at hf
      · next hcomma =>
        have := length_tail_of_head? hcomma
        obtain ⟨⟨arguments, last⟩, harguments, hf⟩ := Reply.bind_eq_accepted.mp hf
        have hlast : last.length < _ := ih harguments
        simp only [Reply.accepted.injEq, Prod.mk.injEq] at hf
        obtain ⟨-, rfl⟩ := hf
        omega
      split at hf
      · next hclose =>
        have := length_tail_of_head? hclose
        cases hf
        omega
      · cases hf

theorem arguments_shrinks (close : Char) (allowEmpty : Bool) :
    Shrinks (arguments e close allowEmpty) := by
  intro cs fs rest hf
  have := length_skipped_le cs
  rw [arguments] at hf
  split at hf
  · next hclose =>
    have := length_tail_of_head? hclose.2
    cases hf
    omega
  · have := argumentsFrom_shrinks h close _ hf
    omega

theorem call_shrinks (callee : Formula) : Shrinks (call g e callee) := by
  intro cs f rest hf
  rw [call] at hf
  split at hf
  · cases hf
  · simp only at hf
    split at hf
    · cases hf
    · obtain ⟨⟨arguments, after⟩, harguments, hf⟩ := Reply.bind_eq_accepted.mp hf
      cases hf
      exact arguments_shrinks h _ _ harguments

theorem indexing_shrinks (target : Formula) : Shrinks (indexing g e target) := by
  intro cs f rest hf
  rw [indexing] at hf
  split at hf
  · cases hf
  · obtain ⟨⟨indices, after⟩, hindices, hf⟩ := Reply.bind_eq_accepted.mp hf
    cases hf
    exact arguments_shrinks h _ _ hindices

theorem follow_shrinks (limit : Int32) (left : Formula) (chained : Option Int32) :
    Shrinks (follow g e limit left chained) := by
  intro cs grown rest hgrown
  obtain ⟨f, c⟩ := grown
  have := length_skipped_le cs
  cases follow_eq_accepted_iff.mp hgrown with
  | call hopen hcall =>
      have := length_tail_of_head? hopen
      have := call_shrinks h left hcall
      omega
  | indexing hopen hindexing =>
      have := length_tail_of_head? hopen
      have := indexing_shrinks h left hindexing
      omega
  | @member op _ _ _ _ _ _ hname =>
      have := identifier?_consumes.token_shrinks hname
      have := length_skipped_le ((skipped cs).drop op.symbol.length)
      rw [List.length_drop] at this
      omega
  | @infixed op _ _ _ _ _ _ _ _ hright =>
      have := h _ hright
      rw [List.length_drop] at this
      omega

theorem chain_shrinks (limit : Int32) (fuel : Nat) {left f : Formula} {chained : Option Int32}
    {cs rest : List Char} (hf : chain g e limit fuel left chained cs = .accepted (f, rest)) :
    rest.length ≤ cs.length := by
  induction fuel generalizing left chained cs with
  | zero => cases hf
  | succ fuel ih =>
      rw [chain] at hf
      rcases Reply.resume_eq_accepted.mp hf with ⟨⟨grown, after⟩, hgrown, hf⟩ | ⟨-, hf⟩
      · have := follow_shrinks h limit left chained hgrown
        have := ih hf
        omega
      · cases hf
        exact Nat.le_refl _

theorem expressionBody_shrinks (limit : Int32) : Shrinks (expressionBody g e limit) := by
  intro cs f rest hf
  rw [expressionBody] at hf
  obtain ⟨⟨left, after⟩, hleft, hf⟩ := Reply.bind_eq_accepted.mp hf
  have := prefixed_shrinks h hleft
  have := chain_shrinks h limit _ hf
  omega

/-- How much may follow is never a bound that is met before the text ends. -/
theorem chain_fuel (limit : Int32) {fuel fuel' : Nat} {left : Formula} {chained : Option Int32}
    {cs : List Char} (hfuel : cs.length < fuel) (hfuel' : cs.length < fuel') :
    chain g e limit fuel left chained cs = chain g e limit fuel' left chained cs := by
  induction fuel generalizing fuel' left chained cs with
  | zero => exact absurd hfuel (Nat.not_lt_zero _)
  | succ fuel ih =>
      cases fuel' with
      | zero => exact absurd hfuel' (Nat.not_lt_zero _)
      | succ fuel' =>
          rw [chain, chain]
          cases hgrown : follow g e limit left chained cs with
          | accepted grown =>
              -- Less is left, so both bounds exceed it still.
              have hshrinks := follow_shrinks h limit left chained hgrown
              exact ih (by omega) (by omega)
          | rejected => rfl
          | exhausted => rfl

end Productions

theorem expression_shrinks (depth : Nat) (limit : Int32) : Shrinks (expression g depth limit) := by
  induction depth generalizing limit with
  | zero =>
      intro cs f rest hf
      cases hf
  | succ depth ih =>
      intro cs f rest hf
      exact expressionBody_shrinks ih limit hf

/-- Everything that follows an operand, with room for nested expressions. -/
def extend (g : Grammar) (depth : Nat) (limit : Int32) (left : Formula) (chained : Option Int32) :
    Silent Formula := fun cs =>
  chain g (expression g depth) limit (cs.length + 1) left chained cs

theorem extend_eq (depth : Nat) (limit : Int32) (left : Formula) (chained : Option Int32)
    (cs : List Char) :
    extend g depth limit left chained cs =
      (follow g (expression g depth) limit left chained cs).resume
        (fun ((f, chained), rest) => extend g depth limit f chained rest)
        (.accepted (left, cs)) := by
  rw [extend, chain]
  cases hgrown : follow g (expression g depth) limit left chained cs with
  | accepted grown =>
      have hshrinks := follow_shrinks (expression_shrinks depth) limit left chained hgrown
      exact chain_fuel (expression_shrinks depth) limit (by omega) (by omega)
  | rejected => rfl
  | exhausted => rfl

theorem expression_succ (depth : Nat) (limit : Int32) (cs : List Char) :
    expression g (depth + 1) limit cs =
      (prefixed g (expression g depth) cs).bind
        fun (left, rest) => extend g depth limit left none rest := rfl

end Silent

end Formulary
