import Formulary.Proofs.Progress

/-! # Room enough

The bounds of readers are never met. An expression inside another one starts further into the text,
so there are never more of them inside one another than characters left; only a prefix operator
without a symbol could start one in the same place.
-/

namespace Formulary

/-- No operator without a symbol stands before an operand. -/
def OperatorTable.PrefixesShow (table : OperatorTable) : Prop :=
  ∀ op ∈ table.prefixCandidates, op.symbol ≠ ""

instance (table : OperatorTable) : Decidable table.PrefixesShow :=
  inferInstanceAs (Decidable (∀ op ∈ table.prefixCandidates, op.symbol ≠ ""))

/-- The operand of a prefix operator starts further into the text than the operator. -/
theorem OperatorTable.PrefixesShow.length_drop_lt {table : OperatorTable} (h : table.PrefixesShow)
    {cs : List Char} {op : Operator} (hop : table.matchPrefix? cs = some op) :
    (cs.drop op.symbol.length).length < cs.length := by
  obtain ⟨rest, rfl⟩ := List.isPrefixOf_iff_prefix.mp (matchPrefix?_starts hop)
  have hsymbol : op.symbol.toList ≠ [] := by
    rw [Ne, String.toList_eq_nil_iff]
    exact h op (List.mem_of_find?_eq_some hop)
  have hpos := List.length_pos_iff.mpr hsymbol
  rw [drop_symbol, List.length_append]
  omega

namespace Reply

variable {α β : Type}

theorem resume_ne_exhausted {reply : Reply α} (h : reply ≠ exhausted) {accept : α → Reply β}
    {reject : Reply β} (haccept : ∀ a, reply = accepted a → accept a ≠ exhausted)
    (hreject : reject ≠ exhausted) : reply.resume accept reject ≠ exhausted := by
  cases reply with
  | accepted a => exact haccept a rfl
  | rejected => exact hreject
  | exhausted => exact absurd rfl h

theorem bind_ne_exhausted {reply : Reply α} (h : reply ≠ exhausted) {next : α → Reply β}
    (hnext : ∀ a, reply = accepted a → next a ≠ exhausted) : reply.bind next ≠ exhausted :=
  resume_ne_exhausted h hnext (by rintro ⟨⟩)

end Reply

namespace Silent

/-- Expressions in texts of less than `n` characters are read without meeting a bound. -/
def Ample (e : Int32 → Silent Formula) (n : Nat) : Prop :=
  ∀ limit cs, cs.length < n → e limit cs ≠ .exhausted

variable {g : Grammar}

theorem token_ne_exhausted {α : Type} (read? : Cursor → Option (α × Cursor)) (cs : List Char) :
    token read? cs ≠ .exhausted := by
  rw [token]
  split <;> rintro ⟨⟩

theorem precompiled_ne_exhausted (cs : List Char) : precompiled g cs ≠ .exhausted := by
  rw [precompiled]
  split
  · refine Reply.bind_ne_exhausted (token_ne_exhausted _ _) ?_
    rintro ⟨name, rest⟩ -
    simp only
    split <;> rintro ⟨⟩
  · rintro ⟨⟩

section Productions

variable {e : Int32 → Silent Formula} {n : Nat} (h : Ample e n)
include h

theorem parenthesis_ne_exhausted {cs : List Char} (hcs : cs.length ≤ n) :
    parenthesis g e cs ≠ .exhausted := by
  rw [parenthesis]
  split
  · rintro ⟨⟩
  split
  · next hopen =>
    have := length_tail_of_head? hopen
    refine Reply.bind_ne_exhausted (h _ _ (by omega)) ?_
    rintro ⟨inner, rest⟩ -
    simp only
    split <;> rintro ⟨⟩
  · rintro ⟨⟩

theorem operandBody_ne_exhausted {cs : List Char} (hcs : cs.length ≤ n) :
    operandBody g e cs ≠ .exhausted := by
  rw [operandBody]
  split
  · exact precompiled_ne_exhausted cs
  · exact parenthesis_ne_exhausted h hcs
  · exact Reply.bind_ne_exhausted (token_ne_exhausted _ _) fun read _ => by rintro ⟨⟩
  · exact Reply.bind_ne_exhausted (token_ne_exhausted _ _) fun read _ => by rintro ⟨⟩
  · refine Reply.resume_ne_exhausted (token_ne_exhausted _ _) (fun read _ => by rintro ⟨⟩) ?_
    exact Reply.bind_ne_exhausted (token_ne_exhausted _ _) fun read _ => by rintro ⟨⟩

theorem prefixed_ne_exhausted (hshow : g.operators.PrefixesShow) {cs : List Char}
    (hcs : cs.length ≤ n) : prefixed g e cs ≠ .exhausted := by
  have hskipped := length_skipped_le cs
  rw [prefixed]
  refine Reply.resume_ne_exhausted (operandBody_ne_exhausted h (by omega))
    (fun read _ => by rintro ⟨⟩) ?_
  split
  · rintro ⟨⟩
  · next hop =>
    have := hshow.length_drop_lt hop
    exact Reply.bind_ne_exhausted (h _ _ (by omega)) fun read _ => by rintro ⟨⟩

variable (hshrinks : ∀ limit, Shrinks (e limit))
include hshrinks

theorem argumentsFrom_ne_exhausted (close : Char) {fuel : Nat} {cs : List Char}
    (hcs : cs.length < n) (hfuel : cs.length < fuel) :
    argumentsFrom e close fuel cs ≠ .exhausted := by
  induction fuel generalizing cs with
  | zero => exact absurd hfuel (Nat.not_lt_zero _)
  | succ fuel ih =>
      rw [argumentsFrom]
      refine Reply.bind_ne_exhausted (h _ _ hcs) ?_
      rintro ⟨argument, rest⟩ hargument
      have := hshrinks _ hargument
      have := length_skipped_le rest
      simp only
      split
      · next hcomma =>
        have := length_tail_of_head? hcomma
        exact Reply.bind_ne_exhausted (ih (by omega) (by omega)) fun read _ => by rintro ⟨⟩
      · split <;> rintro ⟨⟩

theorem arguments_ne_exhausted (close : Char) (allowEmpty : Bool) {cs : List Char}
    (hcs : cs.length < n) : arguments e close allowEmpty cs ≠ .exhausted := by
  have := length_skipped_le cs
  rw [arguments]
  split
  · rintro ⟨⟩
  · exact argumentsFrom_ne_exhausted h hshrinks close (by omega) (by omega)

theorem call_ne_exhausted (callee : Formula) {cs : List Char} (hcs : cs.length < n) :
    call g e callee cs ≠ .exhausted := by
  rw [call]
  split
  · rintro ⟨⟩
  · simp only
    split
    · rintro ⟨⟩
    · exact Reply.bind_ne_exhausted (arguments_ne_exhausted h hshrinks ')' true hcs)
        fun read _ => by rintro ⟨⟩

theorem indexing_ne_exhausted (target : Formula) {cs : List Char} (hcs : cs.length < n) :
    indexing g e target cs ≠ .exhausted := by
  rw [indexing]
  split
  · rintro ⟨⟩
  · exact Reply.bind_ne_exhausted (arguments_ne_exhausted h hshrinks ']' false hcs)
      fun read _ => by rintro ⟨⟩

theorem follow_ne_exhausted (limit : Int32) (left : Formula) (chained : Option Int32)
    {cs : List Char} (hcs : cs.length < n) : follow g e limit left chained cs ≠ .exhausted := by
  have hskipped := length_skipped_le cs
  have htail : (skipped cs).tail.length < n := by
    rw [List.length_tail]
    omega
  rw [follow]
  simp only
  split
  · exact Reply.bind_ne_exhausted (call_ne_exhausted h hshrinks left htail)
      fun read _ => by rintro ⟨⟩
  split
  · exact Reply.bind_ne_exhausted (indexing_ne_exhausted h hshrinks left htail)
      fun read _ => by rintro ⟨⟩
  split
  · rintro ⟨⟩
  split
  · exact Reply.bind_ne_exhausted (token_ne_exhausted _ _) fun read _ => by rintro ⟨⟩
  split
  · rintro ⟨⟩
  split
  · rintro ⟨⟩
  · refine Reply.bind_ne_exhausted (h _ _ ?_) fun read _ => by rintro ⟨⟩
    rw [List.length_drop]
    omega

theorem chain_ne_exhausted (limit : Int32) {fuel : Nat} (left : Formula) (chained : Option Int32)
    {cs : List Char} (hcs : cs.length < n) (hfuel : cs.length < fuel) :
    chain g e limit fuel left chained cs ≠ .exhausted := by
  induction fuel generalizing left chained cs with
  | zero => exact absurd hfuel (Nat.not_lt_zero _)
  | succ fuel ih =>
      rw [chain]
      refine Reply.resume_ne_exhausted (follow_ne_exhausted h hshrinks limit left chained hcs) ?_
        (by rintro ⟨⟩)
      rintro ⟨⟨f, c⟩, rest⟩ hgrown
      have := follow_shrinks hshrinks limit left chained hgrown
      exact ih f c (by omega) (by omega)

theorem expressionBody_ne_exhausted (hshow : g.operators.PrefixesShow) (limit : Int32)
    {cs : List Char} (hcs : cs.length ≤ n) : expressionBody g e limit cs ≠ .exhausted := by
  rw [expressionBody]
  refine Reply.bind_ne_exhausted (prefixed_ne_exhausted h hshow hcs) ?_
  rintro ⟨left, rest⟩ hleft
  have := prefixed_shrinks hshrinks hleft
  exact chain_ne_exhausted h hshrinks limit left none (by omega) (Nat.lt_succ_self _)

end Productions

/-- Room for as many expressions inside one another as characters are left is enough. -/
theorem expression_ample (hshow : g.operators.PrefixesShow) (depth : Nat) :
    Ample (expression g depth) depth := by
  induction depth with
  | zero => exact fun limit cs hcs => absurd hcs (Nat.not_lt_zero _)
  | succ depth ih =>
      exact fun limit cs hcs => expressionBody_ne_exhausted ih (expression_shrinks depth) hshow
        limit (Nat.le_of_lt_succ hcs)

end Silent

end Formulary
