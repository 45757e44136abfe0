import Formulary.OperatorTable
import Formulary.Proofs.Tokens

/-! # Tables that operators were added to

Operators may be added in any order, under any symbols and again under a symbol that is
taken. A table then has for every symbol the operator that was added last under it, and
the candidates for a position are exactly those of them that can stand there, longest
symbol first. So the candidate that is found at the start of a text is the one with the
longest symbol. Operators with syntax of their own are also kept by form, and there an
operator stays whose symbol was taken by one of another form.
-/

namespace Formulary

namespace OperatorTable

/-- The last of the operators that have a property. -/
def latest? (has : Operator → Bool) (ops : List Operator) : Option Operator :=
  ops.reverse.find? has

/-- An operator of the table that can stand in a position and starts the text. -/
structure Offers (table : OperatorTable) (stands : Operator → Prop) (text : List Char)
    (op : Operator) : Prop where
  current : table.get? op.symbol = some op
  stands : stands op
  starts : op.starts text = true

/-- An operator that the table offers, with a symbol at least as long as those of all others that it
offers. -/
structure OffersLongest (table : OperatorTable) (stands : Operator → Prop) (text : List Char)
    (op : Operator) : Prop where
  offers : table.Offers stands text op
  longest : ∀ other, table.Offers stands text other → other.symbol.length ≤ op.symbol.length

/-- The candidates for a position are the operators of the table that can stand there,
longest symbol first. -/
structure Lists (table : OperatorTable) (stands : Operator → Bool) (candidates : List Operator) :
    Prop where
  mem_iff : ∀ op, op ∈ candidates ↔ table.get? op.symbol = some op ∧ stands op = true
  sorted : candidates.Pairwise fun first second => second.width ≤ first.width

/-- What a table knows of the operators that were added to it, one after another. -/
structure Records (table : OperatorTable) (ops : List Operator) : Prop where
  get?_eq : ∀ symbol, table.get? symbol = latest? (fun op => op.symbol == symbol) ops
  structural_eq : ∀ form,
    table.structural form = latest? (fun op => op.form.isStructural && form == op.form) ops
  infixes : table.Lists Operator.standsInfix table.infixCandidates
  prefixes : table.Lists Operator.standsPrefix table.prefixCandidates

variable {table : OperatorTable} {op : Operator} {ops : List Operator}

/-! ## Adding an operator -/

theorem latest?_append (has : Operator → Bool) (ops more : List Operator) :
    latest? has (ops ++ more) = (latest? has more).or (latest? has ops) := by
  simp only [latest?, List.reverse_append, List.find?_append]

theorem latest?_append_singleton (has : Operator → Bool) (ops : List Operator) (op : Operator) :
    latest? has (ops ++ [op]) = if has op then some op else latest? has ops := by
  rw [latest?_append, latest?, List.reverse_singleton, List.find?_singleton]
  cases has op <;> rfl

theorem mem_of_latest? {has : Operator → Bool} (h : latest? has ops = some op) : op ∈ ops :=
  List.mem_reverse.mp (List.mem_of_find?_eq_some h)

theorem exists_latest? (has : Operator → Bool) (hop : op ∈ ops) (hhas : has op = true) :
    ∃ last, latest? has ops = some last :=
  Option.isSome_iff_exists.mp (List.find?_isSome.mpr ⟨op, List.mem_reverse.mpr hop, hhas⟩)

/-- The last operator with a property stands before others that do not have it. -/
theorem latest?_eq_some_iff {has : Operator → Bool} :
    latest? has ops = some op ↔ has op = true ∧
      ∃ before after, ops = before ++ op :: after ∧ ∀ later ∈ after, has later = false := by
  simp only [latest?, List.find?_eq_some_iff_append, Bool.not_eq_true']
  refine and_congr_right fun _ => ⟨?_, ?_⟩
  · rintro ⟨after, before, hops, hafter⟩
    refine ⟨before.reverse, after.reverse, ?_, fun later hlater => ?_⟩
    · rw [← List.reverse_reverse ops, hops, List.reverse_append, List.reverse_cons,
        List.append_assoc, List.singleton_append]
    · exact hafter later (List.mem_reverse.mp hlater)
  · rintro ⟨before, after, rfl, hafter⟩
    refine ⟨after.reverse, before.reverse, ?_, fun later hlater => ?_⟩
    · rw [List.reverse_append, List.reverse_cons, List.append_assoc, List.singleton_append]
    · exact hafter later (List.mem_reverse.mp hlater)

theorem insertCandidate_perm (op : Operator) (ops : List Operator) :
    (insertCandidate op ops).Perm (op :: ops) := by
  induction ops with
  | nil => exact .refl _
  | cons other rest ih =>
      rw [insertCandidate]
      split
      · exact (ih.cons other).trans (.swap op other rest)
      · exact .refl _

theorem mem_insertCandidate {other : Operator} :
    op ∈ insertCandidate other ops ↔ op = other ∨ op ∈ ops :=
  (insertCandidate_perm other ops).mem_iff.trans List.mem_cons

theorem insertCandidate_sorted
    (h : ops.Pairwise fun first second => second.width ≤ first.width) (op : Operator) :
    (insertCandidate op ops).Pairwise fun first second => second.width ≤ first.width := by
  induction ops with
  | nil => exact List.pairwise_singleton _ _
  | cons other rest ih =>
      obtain ⟨hother, hrest⟩ := List.pairwise_cons.mp h
      rw [insertCandidate]
      split
      next hwidth =>
        refine List.pairwise_cons.mpr ⟨fun later hlater => ?_, ih hrest⟩
        rcases mem_insertCandidate.mp hlater with rfl | hlater
        · exact hwidth
        · exact hother later hlater
      next hwidth =>
        have hwidth : other.width ≤ op.width := Nat.le_of_not_le hwidth
        refine List.pairwise_cons.mpr ⟨fun later hlater => ?_, h⟩
        rcases List.mem_cons.mp hlater with rfl | hlater
        · exact hwidth
        · exact Nat.le_trans (hother later hlater) hwidth

theorem mem_without {symbol : String} :
    op ∈ without symbol ops ↔ op ∈ ops ∧ op.symbol ≠ symbol := by
  rw [without, List.mem_filter, bne_iff_ne]

theorem get?_register (table : OperatorTable) (op : Operator) (symbol : String) :
    (table.register op).get? symbol =
      if op.symbol == symbol then some op else table.get? symbol := by
  simp only [register, get?, without, List.find?_append, List.find?_filter, List.find?_singleton]
  by_cases hsymbol : op.symbol = symbol
  · have hnone : table.operators.find? (fun other =>
        decide (other.symbol != op.symbol ∧ other.symbol == symbol)) = none := by
      refine List.find?_eq_none.mpr fun other _ => ?_
      simp [hsymbol]
    rw [hnone, if_pos (beq_iff_eq.mpr hsymbol), if_pos (beq_iff_eq.mpr hsymbol), Option.none_or]
  · have hothers : (fun other : Operator =>
        decide ((other.symbol != op.symbol) = true ∧ (other.symbol == symbol) = true)) =
        fun other => other.symbol == symbol := by
      funext other
      by_cases hother : other.symbol = symbol
      · simp [hother, Ne.symm hsymbol]
      · simp [hother]
    rw [hothers, if_neg (by simpa using hsymbol), Option.or_none, if_neg (by simpa using hsymbol)]

/-- An operator takes the place of the candidate with its symbol, if there is one. -/
theorem Lists.register {stands : Operator → Bool} {candidates : List Operator}
    (h : table.Lists stands candidates) (op : Operator) :
    (table.register op).Lists stands
      (let others := without op.symbol candidates
       if stands op then insertCandidate op others else others) := by
  have hsorted := h.sorted.filter fun other => other.symbol != op.symbol
  have hmem (other : Operator) :
      other = op ∧ stands op = true ∨ other ∈ without op.symbol candidates ↔
        (table.register op).get? other.symbol = some other ∧ stands other = true := by
    rw [mem_without, h.mem_iff, get?_register]
    by_cases hsymbol : op.symbol = other.symbol
    · rw [if_pos (beq_iff_eq.mpr hsymbol), Option.some.injEq]
      constructor
      · rintro (⟨rfl, hstands⟩ | ⟨-, hother⟩)
        · exact ⟨rfl, hstands⟩
        · exact absurd hsymbol.symm hother
      · rintro ⟨rfl, hstands⟩
        exact Or.inl ⟨rfl, hstands⟩
    · rw [if_neg (by simpa using hsymbol)]
      constructor
      · rintro (⟨rfl, -⟩ | ⟨hother, -⟩)
        · exact absurd rfl hsymbol
        · exact hother
      · exact fun hother => Or.inr ⟨hother, Ne.symm hsymbol⟩
  dsimp only
  split
  next hstands =>
    refine ⟨fun other => ?_, insertCandidate_sorted hsorted op⟩
    rw [mem_insertCandidate, ← hmem, and_iff_left hstands]
  next hstands =>
    refine ⟨fun other => ?_, hsorted⟩
    rw [← hmem, or_iff_right fun hop => hstands hop.2]

theorem Records.register (h : table.Records ops) (op : Operator) :
    (table.register op).Records (ops ++ [op]) where
  get?_eq symbol := by rw [get?_register, latest?_append_singleton, h.get?_eq]
  structural_eq form := by rw [latest?_append_singleton, ← h.structural_eq]; rfl
  infixes := h.infixes.register op
  prefixes := h.prefixes.register op

theorem Records.registerAll (h : table.Records ops) (more : List Operator) :
    (table.registerAll more).Records (ops ++ more) := by
  induction more generalizing table ops with
  | nil => rwa [List.append_nil]
  | cons op rest ih =>
      rw [← List.singleton_append, ← List.append_assoc]
      exact ih (h.register op)

theorem records_empty : empty.Records [] where
  get?_eq _ := rfl
  structural_eq _ := rfl
  infixes := ⟨fun op => by simp [empty, get?], .nil⟩
  prefixes := ⟨fun op => by simp [empty, get?], .nil⟩

theorem records_registerAll (ops : List Operator) : (empty.registerAll ops).Records ops :=
  records_empty.registerAll ops

/-! ## Looking for an operator -/

/-- Of two symbols at the start of a text the one that takes up fewer bytes has fewer characters. -/
theorem length_le_of_starts {other : Operator} {text : List Char} (hop : op.starts text = true)
    (hother : other.starts text = true) (hwidth : other.width ≤ op.width) :
    other.symbol.length ≤ op.symbol.length := by
  have hop : op.symbol.toList <+: text := List.isPrefixOf_iff_prefix.mp hop
  have hother : other.symbol.toList <+: text := List.isPrefixOf_iff_prefix.mp hother
  simp only [← String.length_toList]
  rcases List.prefix_or_prefix_of_prefix hother hop with hprefix | ⟨more, hmore⟩
  · exact hprefix.length_le
  · -- The rest of the longer symbol takes up no bytes, so there is none.
    simp only [Operator.width, utf8ByteSize_eq_byteLength, ← hmore, byteLength_append] at hwidth
    cases more with
    | nil => exact Nat.le_of_eq (by rw [← hmore, List.append_nil])
    | cons c rest =>
        have hsize := c.utf8Size_pos
        rw [byteLength_cons] at hwidth
        omega

theorem OffersLongest.unique {stands : Operator → Prop} {text : List Char} {other : Operator}
    (h : table.OffersLongest stands text op) (h' : table.OffersLongest stands text other) :
    op = other := by
  have hlength : op.symbol.length = other.symbol.length :=
    Nat.le_antisymm (h'.longest op h.offers) (h.longest other h'.offers)
  have hstart : op.symbol.toList <+: other.symbol.toList :=
    List.prefix_of_prefix_length_le (List.isPrefixOf_iff_prefix.mp h.offers.starts)
      (List.isPrefixOf_iff_prefix.mp h'.offers.starts)
      (by simp only [String.length_toList, hlength, Nat.le_refl])
  have hsymbol : op.symbol = other.symbol :=
    String.toList_inj.mp (hstart.eq_of_length (by simp only [String.length_toList, hlength]))
  exact Option.some.inj (h.offers.current.symm.trans (hsymbol ▸ h'.offers.current))

namespace Lists

variable {stands : Operator → Bool} {candidates : List Operator} {text : List Char}

theorem offers_iff (h : table.Lists stands candidates) :
    table.Offers (stands · = true) text op ↔ op ∈ candidates ∧ op.starts text = true := by
  rw [h.mem_iff]
  exact ⟨fun ⟨hcurrent, hstands, hstarts⟩ => ⟨⟨hcurrent, hstands⟩, hstarts⟩,
    fun ⟨⟨hcurrent, hstands⟩, hstarts⟩ => ⟨hcurrent, hstands, hstarts⟩⟩

theorem find?_eq_none_iff (h : table.Lists stands candidates) :
    candidates.find? (fun op => op.starts text) = none ↔
      ∀ op, ¬table.Offers (stands · = true) text op := by
  simp only [List.find?_eq_none, h.offers_iff, not_and]

/-- The first candidate that starts the text has the longest symbol. -/
theorem offersLongest_of_find? (h : table.Lists stands candidates)
    (hfound : candidates.find? (fun op => op.starts text) = some op) :
    table.OffersLongest (stands · = true) text op := by
  obtain ⟨hstarts, before, after, hcandidates, hbefore⟩ :=
    List.find?_eq_some_iff_append.mp hfound
  have hop : op ∈ candidates := List.mem_of_find?_eq_some hfound
  refine ⟨h.offers_iff.mpr ⟨hop, hstarts⟩, fun other hother => ?_⟩
  obtain ⟨hmem, hother⟩ := h.offers_iff.mp hother
  refine length_le_of_starts hstarts hother ?_
  have hsorted := h.sorted
  rw [hcandidates] at hmem hsorted
  rcases List.mem_append.mp hmem with hmem | hmem
  · have hskipped := hbefore other hmem
    rw [hother] at hskipped
    cases hskipped
  · rcases List.mem_cons.mp hmem with rfl | hmem
    · exact Nat.le_refl _
    · exact (List.pairwise_cons.mp (List.pairwise_append.mp hsorted).2.1).1 other hmem

theorem find?_eq_some_iff (h : table.Lists stands candidates) :
    candidates.find? (fun op => op.starts text) = some op ↔
      table.OffersLongest (stands · = true) text op := by
  refine ⟨h.offersLongest_of_find?, fun hlongest => ?_⟩
  obtain ⟨hop, hstarts⟩ := h.offers_iff.mp hlongest.offers
  have hsome : (candidates.find? fun op => op.starts text).isSome :=
    List.find?_isSome.mpr ⟨op, hop, hstarts⟩
  obtain ⟨found, hfound⟩ := Option.isSome_iff_exists.mp hsome
  rw [hfound, (h.offersLongest_of_find? hfound).unique hlongest]

end Lists

/-- Whatever operators were added to a table, at the start of a text it finds the one with the
longest symbol among those that were the last to be added under their symbols, start the text and
can stand in the position; and it finds none only if there is none. -/
theorem matches_longest (ops : List Operator) (text : List Char) :
    let table := empty.registerAll ops
    let infixed := fun op : Operator => op.binary = true ∨ op.form = .dot
    let prefixed := fun op : Operator => op.unary = true ∧ op.form.isStructural = false
    (∀ symbol, table.get? symbol = latest? (fun op => op.symbol == symbol) ops) ∧
    (∀ op, table.matchInfix? text = some op ↔ table.OffersLongest infixed text op) ∧
    (table.matchInfix? text = none ↔ ∀ op, ¬table.Offers infixed text op) ∧
    (∀ op, table.matchPrefix? text = some op ↔ table.OffersLongest prefixed text op) ∧
    (table.matchPrefix? text = none ↔ ∀ op, ¬table.Offers prefixed text op) := by
  intro table infixed prefixed
  have hrecords : table.Records ops := records_registerAll ops
  have hinfixed : infixed = (Operator.standsInfix · = true) := by
    funext op
    simp only [infixed, Operator.standsInfix, Bool.or_eq_true, beq_iff_eq]
  have hprefixed : prefixed = (Operator.standsPrefix · = true) := by
    funext op
    simp only [prefixed, Operator.standsPrefix, Bool.and_eq_true, Bool.not_eq_true']
  rw [hinfixed, hprefixed]
  exact ⟨hrecords.get?_eq, fun op => hrecords.infixes.find?_eq_some_iff,
    hrecords.infixes.find?_eq_none_iff, fun op => hrecords.prefixes.find?_eq_some_iff,
    hrecords.prefixes.find?_eq_none_iff⟩

/-! ## Operators with syntax of their own -/

/-- The operator of a form is the last one that was added with that form. -/
theorem Records.structural_eq_some (h : table.Records ops) {form : Form}
    (hfound : table.structural form = some op) :
    op.form = form ∧ form.isStructural = true ∧
      ∃ before after, ops = before ++ op :: after ∧ ∀ later ∈ after, later.form ≠ form := by
  rw [h.structural_eq, latest?_eq_some_iff] at hfound
  obtain ⟨hform, before, after, hops, hafter⟩ := hfound
  obtain ⟨hstructural, rfl⟩ : op.form.isStructural = true ∧ form = op.form := by
    simpa only [Bool.and_eq_true, beq_iff_eq] using hform
  refine ⟨rfl, hstructural, before, after, hops, fun later hlater heq => ?_⟩
  simpa [heq, hstructural] using hafter later hlater

/-- The operator of a form is the last one that was added with that form. It is the operator of its
symbol, too, exactly if none was added under the symbol after it. -/
theorem structural_current_iff {form : Form}
    (h : (empty.registerAll ops).structural form = some op) :
    op.form = form ∧ form.isStructural = true ∧
      ∃ before after, ops = before ++ op :: after ∧ (∀ later ∈ after, later.form ≠ form) ∧
        ((empty.registerAll ops).get? op.symbol = some op ↔
          ∀ later ∈ after, later.symbol ≠ op.symbol) := by
  have hrecords : (empty.registerAll ops).Records ops := records_registerAll ops
  obtain ⟨rfl, hstructural, before, after, hops, hafter⟩ := hrecords.structural_eq_some h
  refine ⟨rfl, hstructural, before, after, hops, hafter, ?_⟩
  rw [hrecords.get?_eq]
  constructor
  · -- The last operator after it that has the symbol would be found, and has another form.
    intro hcurrent later hlater hsymbol
    obtain ⟨last, hlast⟩ := exists_latest? (fun op' => op'.symbol == op.symbol) hlater
      (beq_iff_eq.mpr hsymbol)
    rw [hops, List.append_cons, latest?_append, hlast, Option.some_or, Option.some_inj] at hcurrent
    exact hafter last (mem_of_latest? hlast) (hcurrent ▸ rfl)
  · intro hsymbols
    refine latest?_eq_some_iff.mpr ⟨beq_self_eq_true _, before, after, hops, fun later hlater => ?_⟩
    exact beq_eq_false_iff_ne.mpr (hsymbols later hlater)

/-- Built-in operators take no symbol from each other. -/
theorem indexing_current :
    standard.structural .indexer = some .indexing ∧ standard.get? "[]" = some .indexing := by
  have hindexing : standard.structural .indexer = some .indexing := rfl
  obtain ⟨-, -, before, after, hbuiltin, -, hcurrent⟩ := structural_current_iff hindexing
  refine ⟨hindexing, hcurrent.mpr fun later hlater => ?_⟩
  have hnodup : (builtin.map Operator.symbol).Nodup := by decide
  rw [hbuiltin, List.map_append, List.map_cons] at hnodup
  obtain ⟨hindexing, -⟩ := List.nodup_cons.mp (List.nodup_append.mp hnodup).2.1
  exact fun hsymbol => hindexing (hsymbol ▸ List.mem_map_of_mem hlater)

/-- The symbol of member accesses goes to an operator between operands, and the form keeps the
operator that had it. -/
theorem replaced_memberAccess_kept :
    let joining : Operator := { symbol := ".", name := "Joining", priority := 6, binary := true }
    let table := empty.registerAll [.memberAccess, joining]
    table.structural .dot = some .memberAccess ∧
      table.get? Operator.memberAccess.symbol = some joining ∧ joining.form ≠ .dot ∧
      ¬(table.get? Operator.memberAccess.symbol = some .memberAccess) := by
  intro joining table
  have hjoining : table.get? Operator.memberAccess.symbol = some joining := rfl
  refine ⟨rfl, hjoining, by decide, fun hcurrent => ?_⟩
  have hform := congrArg Operator.form (Option.some.inj (hjoining.symm.trans hcurrent))
  cases hform

end OperatorTable

end Formulary
