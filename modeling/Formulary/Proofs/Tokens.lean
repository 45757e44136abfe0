import Formulary.Operator
import Formulary.Cursor

/-! # What a cursor does to the characters left

Outside of characters a cursor is its position and the characters left. What is read depends on the
latter alone.
-/

namespace Formulary

theorem byteLength_cons (c : Char) (cs : List Char) :
    byteLength (c :: cs) = c.utf8Size + byteLength cs := rfl

theorem byteLength_append (cs ds : List Char) :
    byteLength (cs ++ ds) = byteLength cs + byteLength ds := by
  induction cs with
  | nil => exact (Nat.zero_add _).symm
  | cons c cs ih => rw [List.cons_append, byteLength_cons, byteLength_cons, ih, Nat.add_assoc]

theorem utf8ByteSize_eq_byteLength (s : String) : s.utf8ByteSize = byteLength s.toList := by
  induction s using String.push_induction with
  | empty => rfl
  | push s c ih =>
      rw [String.utf8ByteSize_push, ih, String.toList_push, byteLength_append, byteLength_cons]
      rfl

/-- What is left after blanks. -/
def skipped (cs : List Char) : List Char := cs.dropWhile isBlank

theorem skipped_of_head {c : Char} {cs : List Char} (h : isBlank c = false) :
    skipped (c :: cs) = c :: cs := by
  rw [skipped, List.dropWhile_cons_of_neg]
  simp only [h, Bool.false_eq_true, not_false_iff]

theorem skipped_space (cs : List Char) : skipped (' ' :: cs) = skipped cs := rfl

theorem skipped_skipped (cs : List Char) : skipped (skipped cs) = skipped cs := by
  induction cs with
  | nil => rfl
  | cons c cs ih =>
      by_cases hc : isBlank c = true
      · have hskip : skipped (c :: cs) = skipped cs := List.dropWhile_cons_of_pos hc
        rw [hskip, ih]
      · rw [Bool.not_eq_true] at hc
        rw [skipped_of_head hc, skipped_of_head hc]

theorem drop_symbol (op : Operator) (rest : List Char) :
    (op.symbol.toList ++ rest).drop op.symbol.length = rest := by
  rw [← String.length_toList]
  exact List.drop_left

theorem drop_length_takeWhile {α : Type} (p : α → Bool) (l : List α) :
    l.drop (l.takeWhile p).length = l.dropWhile p :=
  calc l.drop (l.takeWhile p).length
    _ = (l.takeWhile p ++ l.dropWhile p).drop (l.takeWhile p).length := by
        rw [List.takeWhile_append_dropWhile]
    _ = l.dropWhile p := List.drop_left

namespace Cursor

theorem passBytes_byteLength (cs rest : List Char) :
    passBytes (byteLength cs) (cs ++ rest) = (byteLength cs, rest, 0) := by
  induction cs with
  | nil =>
      cases rest with
      | nil => rfl
      | cons c rest =>
          have hpos : ¬c.utf8Size ≤ 0 := Nat.not_le.mpr c.utf8Size_pos
          simp only [byteLength, List.foldr_nil, List.nil_append, passBytes, if_neg hpos]
  | cons c cs ih =>
      rw [byteLength_cons, List.cons_append, passBytes, if_pos (Nat.le_add_right _ _),
        Nat.add_sub_cancel_left, ih]

variable {p : Nat} {cs : List Char}

theorem eat?_eq (x : Char) :
    (⟨p, cs, 0⟩ : Cursor).eat? x =
      if cs.head? = some x then some ⟨p + byteLength [x], cs.tail, 0⟩ else none := by
  simp only [eat?, peek?, if_true, past, List.length_singleton, List.drop_one]

theorem skipBlanks_eq :
    (⟨p, cs, 0⟩ : Cursor).skipBlanks = ⟨p + byteLength (cs.takeWhile isBlank), skipped cs, 0⟩ := by
  simp only [skipBlanks, if_true, past, drop_length_takeWhile, skipped]

/-- Moving past a symbol that stands under the cursor. -/
theorem advance_eq {op : Operator} (hstarts : op.starts cs) :
    (⟨p, cs, 0⟩ : Cursor).advance op.width =
      ⟨p + op.width, cs.drop op.symbol.length, 0⟩ := by
  obtain ⟨rest, rfl⟩ := List.isPrefixOf_iff_prefix.mp hstarts
  rw [drop_symbol, advance, Nat.zero_add, Operator.width, utf8ByteSize_eq_byteLength,
    passBytes_byteLength]
  rfl

/-- A reader of tokens that does not look at the position. -/
def Local {α : Type} (read? : Cursor → Option (α × Cursor)) : Prop :=
  ∀ p cs, read? ⟨p, cs, 0⟩ =
    (read? ⟨0, cs, 0⟩).map fun (a, next) => (a, ⟨p + next.position, next.rest, 0⟩)

theorem past_shift (taken : List Char) :
    (⟨p, cs, 0⟩ : Cursor).past taken =
      ⟨p + ((⟨0, cs, 0⟩ : Cursor).past taken).position,
        ((⟨0, cs, 0⟩ : Cursor).past taken).rest, 0⟩ := by
  simp only [past, Nat.zero_add]

theorem identifier?_local : Local identifier? := by
  intro p cs
  cases cs with
  | nil => rfl
  | cons x cs =>
      simp only [identifier?, peek?, if_true, List.head?_cons]
      split
      · rw [past_shift]
        rfl
      · rfl

theorem number?_local : Local number? := by
  intro p cs
  simp only [number?, past_shift (p := p)]
  simp only [ne_eq, not_true_eq_false, if_false]
  generalize (if (cs.head? == some '-') = true then ['-'] else []) = sign
  split
  · rfl
  · split
    · split <;> rfl
    · rfl

theorem quotedString?_local : Local quotedString? := by
  intro p cs
  cases cs with
  | nil => rfl
  | cons x cs =>
      simp only [quotedString?, peek?, if_true, List.head?_cons]
      split
      · split
        · rfl
        · rw [past_shift]
          rfl
      · rfl

end Cursor

end Formulary
