import Mathlib.Data.List.TakeWhile
import Formulary.Proofs.Room
import Formulary.Proofs.Stumbles

/-! # The failure that is reported

Of all failures on record the first of those furthest into the text is reported. A reading that
fails ends before the end of the text, and that counts as a failure too: there is always one to
report, and it does not lie before the place where reading ended.
-/

namespace Formulary

theorem byteLength_isValid {text : String} {before : List Char} (h : before <+: text.toList) :
    String.Pos.Raw.IsValid text ⟨byteLength before⟩ := by
  obtain ⟨after, hafter⟩ := h
  rw [String.Pos.Raw.isValid_iff_exists_append]
  refine ⟨String.ofList before, String.ofList after, ?_, ?_⟩
  · rw [← String.ofList_append, hafter, String.ofList_toList]
  · rw [String.rawEndPos, utf8ByteSize_eq_byteLength, String.toList_ofList]

theorem byteLength_le {text : String} {before : List Char} (h : before <+: text.toList) :
    byteLength before ≤ text.utf8ByteSize := by
  obtain ⟨after, hafter⟩ := h
  rw [utf8ByteSize_eq_byteLength, ← hafter, byteLength_append]
  exact Nat.le_add_right _ _

/-- The error is the first of those furthest into the text, at byte `p`; the record has the latest
error first. -/
def FirstFurthest (record : List ParseError) (error : ParseError) (p : Nat) : Prop :=
  error.position? = some p ∧ ∃ later earlier, record = later ++ error :: earlier ∧
    (∀ other ∈ earlier, ∃ q < p, other.position? = some q) ∧
    ∀ other ∈ later, ∃ q ≤ p, other.position? = some q

namespace FirstFurthest

variable {record : List ParseError} {error latest : ParseError} {p q : Nat}

theorem mem (h : FirstFurthest record error p) : error ∈ record := by
  obtain ⟨-, later, earlier, rfl, -⟩ := h
  exact List.mem_append_right _ (List.mem_cons_self ..)

theorem le_of_mem (h : FirstFurthest record error p) {other : ParseError} (hmem : other ∈ record)
    (hother : other.position? = some q) : q ≤ p := by
  obtain ⟨hp, later, earlier, rfl, hearlier, hlater⟩ := h
  rcases List.mem_append.mp hmem with hmem | hmem
  · obtain ⟨r, hr, hlast⟩ := hlater other hmem
    rw [hother] at hlast
    cases hlast
    exact hr
  rcases List.mem_cons.mp hmem with rfl | hmem
  · rw [hother] at hp
    cases hp
    exact Nat.le_refl _
  · obtain ⟨r, hr, hfirst⟩ := hearlier other hmem
    rw [hother] at hfirst
    cases hfirst
    exact Nat.le_of_lt hr

/-- A failure that is not further into the text changes nothing. -/
theorem behind (h : FirstFurthest record error p) (hq : latest.position? = some q) (hle : q ≤ p) :
    FirstFurthest (latest :: record) error p := by
  obtain ⟨hp, later, earlier, rfl, hearlier, hlater⟩ := h
  refine ⟨hp, latest :: later, earlier, rfl, hearlier, ?_⟩
  intro other hmem
  rcases List.mem_cons.mp hmem with rfl | hmem
  · exact ⟨q, hle, hq⟩
  · exact hlater other hmem

/-- A failure that is further into the text than all before it. -/
theorem ahead (h : FirstFurthest record error p) (hq : latest.position? = some q) (hlt : p < q)
    (hplaced : ∀ other ∈ record, other.position? ≠ none) :
    FirstFurthest (latest :: record) latest q := by
  refine ⟨hq, [], record, rfl, ?_, fun other hmem => absurd hmem List.not_mem_nil⟩
  intro other hmem
  obtain ⟨r, hr⟩ := Option.ne_none_iff_exists'.mp (hplaced other hmem)
  exact ⟨r, Nat.lt_of_le_of_lt (h.le_of_mem hmem hr) hlt, hr⟩

end FirstFurthest

/-- Among failures that all have a position one is the furthest. -/
theorem exists_firstFurthest {record : List ParseError} (hne : record ≠ [])
    (hplaced : ∀ error ∈ record, error.position? ≠ none) :
    ∃ error p, furthest? record = some error ∧ FirstFurthest record error p := by
  induction record with
  | nil => exact absurd rfl hne
  | cons latest earlier ih =>
      have hearlier : ∀ error ∈ earlier, error.position? ≠ none :=
        fun error hmem => hplaced error (List.mem_cons_of_mem _ hmem)
      obtain ⟨q, hq⟩ := Option.ne_none_iff_exists'.mp (hplaced latest (List.mem_cons_self ..))
      cases earlier with
      | nil =>
          refine ⟨latest, q, rfl, hq, [], [], rfl, ?_, ?_⟩
          all_goals exact fun other hmem => absurd hmem List.not_mem_nil
      | cons next earlier =>
          obtain ⟨best, p, hbest, hfirst⟩ := ih (List.cons_ne_nil _ _) hearlier
          rw [furthest?, hbest]
          simp only [hfirst.1, hq]
          by_cases hlt : p < q
          · rw [if_pos hlt]
            exact ⟨latest, q, rfl, hfirst.ahead hq hlt hearlier⟩
          · rw [if_neg hlt]
            exact ⟨best, p, rfl, hfirst.behind hq (Nat.not_lt.mp hlt)⟩

namespace Grammar

variable {g : Grammar}

/-- What stands before a failure of reading a whole text. -/
inductive Fails (g : Grammar) (cs : List Char) : List Char → Prop where
  | inside {before : List Char}
      (h : Stumbles g (.expression topLimit) (skipped cs) before) : Fails g cs (blanks cs ++ before)
  | leftOver {taken rest : List Char} {f : Formula}
      (hread : Silent.expression g (cs.length + 1) topLimit (skipped cs) = .accepted (f, rest))
      (hcs : taken ++ rest = skipped cs) : Fails g cs (blanks cs ++ (taken ++ blanks rest))

theorem noted_finalFailures {cs passed rest : List Char} {failures : List ParseError}
    (hcs : passed ++ rest = cs) (hfails : Fails g cs passed)
    (hnoted : Noted (Fails g cs) 0 cs failures) :
    Noted (Fails g cs) 0 cs (finalFailures ⟨⟨byteLength passed, rest, 0⟩, failures⟩) := by
  rw [finalFailures]
  split
  · exact hnoted
  · intro error hmem
    rcases List.mem_cons.mp hmem with rfl | hmem
    · exact ⟨passed, ⟨rest, hcs⟩, hfails, (congrArg some (Nat.zero_add _)).symm⟩
    · exact hnoted error hmem

/-- How reading a whole text ends: the cursor has passed a beginning of the text, there is a place
for every failure, and at the end of the text a formula was read unless all of it is blank. -/
structure Ends (g : Grammar) (cs : List Char) (result : Reply Formula × ReadState) : Prop where
  passed : ∃ passed, passed ++ result.2.cursor.rest = cs ∧
    result.2.cursor.position = byteLength passed
  noted : Noted (Fails g cs) 0 cs (finalFailures result.2)
  whole : skipped cs ≠ [] → result.2.cursor.atEnd → ∃ f, result.1 = .accepted f

theorem ends_of_passed {cs passed rest : List Char} {failures : List ParseError}
    {reply : Reply Formula} (hcs : passed ++ rest = cs) (hfails : Fails g cs passed)
    (hnoted : Noted (Fails g cs) 0 cs failures)
    (hwhole : skipped cs ≠ [] → rest = [] → ∃ f, reply = .accepted f) :
    Ends g cs (reply, ⟨⟨byteLength passed, rest, 0⟩, failures⟩) where
  passed := ⟨passed, hcs, rfl⟩
  noted := noted_finalFailures hcs hfails hnoted
  whole := fun hne hend => hwhole hne (List.isEmpty_iff.mp hend)

theorem run_ends (hshow : g.operators.PrefixesShow) (text : String) :
    Ends g text.toList (g.run text) := by
  generalize hcs : text.toList = cs
  have hblanks := blanks_append_skipped cs
  have htracks := g.expression_tracks (cs.length + 1) topLimit (byteLength (blanks cs))
    (skipped cs) []
  have hroom : Silent.expression g (cs.length + 1) topLimit (skipped cs) ≠ .exhausted :=
    Silent.expression_ample hshow _ _ _ (Nat.lt_succ_of_le (Silent.length_skipped_le cs))
  rw [run, Cursor.start, Cursor.skipBlanks_eq, hcs, Nat.zero_add]
  change Tracked _ _ _ _ _ (g.expression _ _ ⟨⟨byteLength (cs.takeWhile isBlank), _, 0⟩, _⟩) _
    at htracks
  have hnoted : ∀ {noted}, Noted (Stumbles g (.expression topLimit) (skipped cs))
      (byteLength (blanks cs)) (skipped cs) noted → Noted (Fails g cs) 0 cs (noted ++ []) := by
    intro noted hnoted
    rw [List.append_nil]
    rw [← Nat.zero_add (byteLength (blanks cs))] at hnoted
    exact hnoted.after hblanks fun before hb => .inside hb
  generalize hreply : Silent.expression g _ _ _ = silent at htracks hroom
  generalize g.expression _ _ _ = result at htracks ⊢
  cases htracks with
  | @accepted f taken rest noted htaken hfailed =>
      have hpassed : (blanks cs ++ (taken ++ blanks rest)) ++ skipped rest = cs := by
        rw [List.append_assoc, List.append_assoc, blanks_append_skipped, htaken, hblanks]
      have hends := ends_of_passed hpassed (.leftOver hreply htaken) (hnoted hfailed)
        fun _ _ => ⟨f, rfl⟩
      rw [byteLength_append, byteLength_append, ← Nat.add_assoc] at hends
      simp only [Cursor.skipBlanks_eq]
      exact hends
  | @rejected cursor noted hhome hfailed =>
      obtain rfl : cursor = _ := hhome
      have hpassed : (blanks cs ++ blanks (skipped cs)) ++ skipped (skipped cs) = cs := by
        rw [List.append_assoc, blanks_append_skipped, hblanks]
      have hends := @ends_of_passed _ _ _ _ _ .rejected hpassed (.inside .operandMissing)
        (hnoted hfailed) fun hne hend => absurd (skipped_skipped cs ▸ hend) hne
      rw [byteLength_append] at hends
      simp only [Cursor.skipBlanks_eq]
      exact hends
  | exhausted => exact absurd rfl hroom

theorem isBlank_of_skipped {cs : List Char} (h : skipped cs = []) : ∀ c ∈ cs, isBlank c = true :=
  List.dropWhile_eq_nil_iff.mp h

theorem read_of_blank {text : String} (h : skipped text.toList = []) :
    g.read text = .error .emptyExpression := by
  rw [read, Cursor.start, Cursor.skipBlanks_eq, if_pos]
  rw [Cursor.atEnd, h]
  rfl

/-- A text that is not blank and holds no formula was not read to its end. -/
theorem read_eq_error {text : String} {error : ParseError} (hends : Ends g text.toList (g.run text))
    (hne : skipped text.toList ≠ []) (h : g.read text = .error error) :
    (g.run text).2.cursor.atEnd = false ∧
      error = (furthest? (finalFailures (g.run text).2)).getD (.expectedOperand 0) := by
  have hwhole := hends.whole hne
  rw [read, Cursor.start, Cursor.skipBlanks_eq,
    if_neg (by rw [Cursor.atEnd, List.isEmpty_iff]; exact hne)] at h
  generalize g.run text = result at h hwhole
  obtain ⟨reply, s⟩ := result
  cases hend : s.cursor.atEnd with
  | true =>
      obtain ⟨f, rfl⟩ := hwhole hend
      simp only [hend, if_true] at h
      cases h
  | false =>
      refine ⟨rfl, ?_⟩
      cases reply with
      | accepted f =>
          simp only [hend, Bool.false_eq_true, if_false] at h
          cases h
          rfl
      | rejected =>
          cases h
          rfl
      | exhausted =>
          cases h
          rfl

/-- What is true of an error that says why a text holds no formula. -/
structure Reported (g : Grammar) (text : String) (error : ParseError) (p : Nat) : Prop where
  /-- The error was found on record, as the first of those furthest into the text. -/
  found : furthest? (finalFailures (g.run text).2) = some error
  furthest : FirstFurthest (finalFailures (g.run text).2) error p
  inText : p ≤ text.utf8ByteSize
  boundary : String.Pos.Raw.IsValid text ⟨p⟩
  /-- It does not lie before the place where reading ended, blanks after it left out. -/
  reached : (g.run text).2.cursor.position ≤ p

theorem reported_of_read (hshow : g.operators.PrefixesShow) {text : String} {error : ParseError}
    (hne : skipped text.toList ≠ []) (h : g.read text = .error error) :
    ∃ p, Reported g text error p := by
  have hends := g.run_ends hshow text
  obtain ⟨hend, herror⟩ := read_eq_error hends hne h
  have hplaced : ∀ error ∈ finalFailures (g.run text).2, error.position? ≠ none := by
    intro error hmem
    obtain ⟨before, -, -, hposition⟩ := hends.noted error hmem
    rw [hposition]
    exact Option.some_ne_none _
  have hlast : ∃ found, ParseError.unexpectedInput found (g.run text).2.cursor.position ∈
      finalFailures (g.run text).2 := by
    rw [finalFailures, hend]
    exact ⟨_, List.mem_cons_self ..⟩
  obtain ⟨found, hlast⟩ := hlast
  obtain ⟨best, p, hbest, hfirst⟩ := exists_firstFurthest (List.ne_nil_of_mem hlast) hplaced
  obtain rfl : error = best := by rw [herror, hbest, Option.getD_some]
  obtain ⟨before, hbefore, -, hposition⟩ := hends.noted error hfirst.mem
  obtain rfl : p = byteLength before := by
    rw [hfirst.1, Nat.zero_add] at hposition
    exact Option.some.inj hposition
  exact ⟨_, hbest, hfirst, byteLength_le hbefore, byteLength_isValid hbefore,
    hfirst.le_of_mem hlast rfl⟩

/-- A text is called empty if it is blank. Any other error lies in the text, on the boundary of a
character, not before the place where reading ended; it is the first of those furthest into the
text. -/
theorem read_reports_furthest (hshow : g.operators.PrefixesShow) (text : String) :
    (g.read text = .error .emptyExpression ↔ ∀ c ∈ text.toList, isBlank c = true) ∧
      ∀ error, g.read text = .error error → error ≠ .emptyExpression →
        ∃ p, Reported g text error p := by
  refine ⟨⟨fun h => ?_, fun h => ?_⟩, fun error h hne => ?_⟩
  · by_cases hblank : skipped text.toList = []
    · exact isBlank_of_skipped hblank
    · obtain ⟨p, hreported⟩ := reported_of_read hshow hblank h
      cases hreported.furthest.1
  · exact read_of_blank (List.dropWhile_eq_nil_iff.mpr h)
  · refine reported_of_read hshow (fun hblank => hne ?_) h
    have hempty := h.symm.trans (read_of_blank hblank)
    cases hempty
    rfl

theorem truncated_sum_reported :
    standard.operators.PrefixesShow ∧ standard.read "1 + " = .error (.expectedOperand 4) ∧
      ∃ p, Reported standard "1 + " (.expectedOperand 4) p := by
  have hshow : standard.operators.PrefixesShow := by decide +kernel
  have hread : standard.read "1 + " = .error (.expectedOperand 4) := by rfl
  exact ⟨hshow, hread, (read_reports_furthest hshow "1 + ").2 _ hread (by decide)⟩

end Grammar

end Formulary
