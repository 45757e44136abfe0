import Formulary.Proofs.Slices

/-! # Going back

A reader of formulas that rejects leaves the cursor where it was; one that accepts leaves it further
on, in the text and outside of characters.
-/

namespace Formulary

namespace Cursor

variable {text : String} {before after : List Char}

theorem seek_eq (h : before ++ after = text.toList) :
    seek text (byteLength before) = ⟨byteLength before, after, 0⟩ := by
  rw [seek, start, advance, Nat.zero_add, ← h, passBytes_byteLength]
  simp only [Nat.zero_add, Nat.sub_zero]

/-- What stands before and after the boundary of a character. -/
theorem exists_split {p : Nat} (h : String.Pos.Raw.IsValid text ⟨p⟩) :
    ∃ before after, before ++ after = text.toList ∧ p = byteLength before := by
  obtain ⟨first, second, htext, hp⟩ := String.Pos.Raw.isValid_iff_exists_append.mp h
  refine ⟨first.toList, second.toList, ?_, ?_⟩
  · rw [htext, String.toList_append]
  · rw [← utf8ByteSize_eq_byteLength]
    exact congrArg String.Pos.Raw.byteIdx hp

end Cursor

/-- How a reader ends that started at byte `p` of a text and does not get lost: either the cursor is
back at `p`, or it is at a boundary between characters further on. -/
inductive Backtracks (text : String) (p : Nat) : Reply Formula × ReadState → Prop where
  | rejected {failures : List ParseError} :
      Backtracks text p (.rejected, ⟨Cursor.seek text p, failures⟩)
  | accepted {f : Formula} {q : Nat} {failures : List ParseError} (hfurther : p < q)
      (hinText : q ≤ text.utf8ByteSize) (hboundary : String.Pos.Raw.IsValid text ⟨q⟩) :
      Backtracks text p (.accepted f, ⟨Cursor.seek text q, failures⟩)

theorem byteLength_pos {cs : List Char} (h : cs ≠ []) : 0 < byteLength cs := by
  cases cs with
  | nil => exact absurd rfl h
  | cons c cs => exact Nat.lt_of_lt_of_le c.utf8Size_pos (Nat.le_add_right _ _)

namespace Reading

variable {reader : Reading Formula} {silent : Silent Formula} {P : List Char → List Char → Prop}

/-- A reader whose silent one takes characters away and meets no bound. -/
theorem Tracks.backtracks (h : reader.Tracks silent P) (hshrinks : Silent.Shrinks silent)
    {text : String} {before after : List Char} (hsplit : before ++ after = text.toList)
    (hroom : silent after ≠ .exhausted) (failures : List ParseError) :
    Backtracks text (byteLength before)
      (reader ⟨⟨byteLength before, after, 0⟩, failures⟩) := by
  have htracked := h (byteLength before) after failures
  generalize hsilent : silent after = reply at htracked
  generalize reader _ = result at htracked ⊢
  cases htracked with
  | @accepted f taken rest noted htaken _ =>
      have hpassed : (before ++ taken) ++ rest = text.toList := by
        rw [List.append_assoc, htaken, hsplit]
      have hfurther : 0 < byteLength taken := by
        have hless := hshrinks hsilent
        refine byteLength_pos ?_
        rintro rfl
        rw [← htaken, List.nil_append] at hless
        exact Nat.lt_irrefl _ hless
      rw [← byteLength_append, ← Cursor.seek_eq hpassed]
      refine .accepted ?_ (byteLength_le ⟨_, hpassed⟩) (byteLength_isValid ⟨_, hpassed⟩)
      rw [byteLength_append]
      exact Nat.lt_add_of_pos_right hfurther
  | @rejected cursor _ hhome _ =>
      obtain rfl : cursor = _ := hhome
      rw [← Cursor.seek_eq hsplit]
      exact .rejected
  | exhausted => exact absurd hsilent hroom

end Reading

namespace Grammar

variable {g : Grammar}

/-- A reader of a formula that starts between characters either leaves the cursor there or moves it
on to another place between characters; and whatever is cut out of a text on the way can be cut out.
Bounds on nesting play no part as long as they are larger than what is left of the text. -/
theorem reading_backtracks (hshow : g.operators.PrefixesShow) (text : String) :
    (∀ p depth failures, String.Pos.Raw.IsValid text ⟨p⟩ →
      (Cursor.seek text p).rest.length < depth →
        let start : ReadState := ⟨Cursor.seek text p, failures⟩
        (∀ limit, Backtracks text p (g.expression depth limit start)) ∧
          Backtracks text p (g.prefixed (g.expression depth) start) ∧
          Backtracks text p (g.operand (g.expression depth) start) ∧
          Backtracks text p (g.parenthesis (g.expression depth) start) ∧
          Backtracks text p (g.precompiled start)) ∧
      (Slicing.read g text).1 = g.read text ∧
        ∀ slice ∈ (Slicing.read g text).2, slice.Fits text := by
  refine ⟨fun p depth failures hvalid hdepth => ?_, Slicing.read_fits text⟩
  obtain ⟨before, after, hsplit, rfl⟩ := Cursor.exists_split hvalid
  rw [Cursor.seek_eq hsplit] at hdepth ⊢
  have hroom := Silent.expression_ample hshow depth
  have hshrinks := Silent.expression_shrinks (g := g) depth
  have htracks := g.expression_tracks depth
  have hle := Nat.le_of_lt hdepth
  refine ⟨fun limit => ?_, ?_, ?_, ?_, ?_⟩
  · exact (htracks limit).backtracks (hshrinks limit) hsplit (hroom limit _ hdepth) failures
  · exact (prefixed_tracks htracks).backtracks (Silent.prefixed_shrinks hshrinks) hsplit
      (Silent.prefixed_ne_exhausted hroom hshow hle) failures
  · refine (operand_tracks htracks).backtracks ?_ hsplit ?_ failures
    · intro cs f rest hread
      exact Nat.lt_of_lt_of_le (Silent.operandBody_shrinks hshrinks hread)
        (Silent.length_skipped_le cs)
    · exact Silent.operandBody_ne_exhausted hroom
        (Nat.le_trans (Silent.length_skipped_le after) hle)
  · exact (parenthesis_tracks htracks).backtracks (Silent.parenthesis_shrinks hshrinks) hsplit
      (Silent.parenthesis_ne_exhausted hroom hle) failures
  · exact g.precompiled_tracks.backtracks Silent.precompiled_shrinks hsplit
      (Silent.precompiled_ne_exhausted after) failures

theorem quoted_sum_backtracks :
    standard.operators.PrefixesShow ∧ String.Pos.Raw.IsValid "'é' + " ⟨4⟩ ∧
      (Cursor.seek "'é' + " 4).rest.length < 4 ∧
      Backtracks "'é' + " 4 (standard.expression 4 topLimit ⟨Cursor.seek "'é' + " 4, []⟩) ∧
      ∀ slice ∈ (Slicing.read standard "'é' + ").2, slice.Fits "'é' + " := by
  have hshow : standard.operators.PrefixesShow := by decide +kernel
  have hvalid : String.Pos.Raw.IsValid "'é' + " ⟨4⟩ :=
    String.Pos.Raw.isValid_iff_exists_append.mpr ⟨"'é'", " + ", rfl, rfl⟩
  have hdepth : (Cursor.seek "'é' + " 4).rest.length < 4 := by decide +kernel
  obtain ⟨hbacktracks, -, hfits⟩ := reading_backtracks hshow "'é' + "
  exact ⟨hshow, hvalid, hdepth, (hbacktracks 4 4 [] hvalid hdepth).1 topLimit, hfits⟩

end Grammar

end Formulary
