import Mathlib.Tactic.Tauto
import Formulary.Proofs.Progress
import Formulary.Proofs.Stumbles

/-! # The grammar of formulas

Which trees the reader builds from a text. A primary is closed on its right; everything else ends in
an operand that reaches as far as its own limit allows, and whatever comes after it was refused
there first. With operators that cannot be chained a refusal does not mean that the operator is too
loose, which is why derivations speak of refusals and not of priorities.
-/

namespace Formulary

/-- One less is below the same numbers as it is among the integers, unless it wraps around. -/
theorem sub_one_lt_iff {p q : Int32} (h : p ≠ Int32.minValue) : p - 1 < q ↔ p ≤ q := by
  have hlow := p.le_toInt
  have hhigh := p.toInt_lt
  have hne : p.toInt ≠ -2147483648 := fun hp => h (Int32.toInt_inj.mp hp)
  have hone : (1 : Int32).toInt = 1 := rfl
  have hsub : (p - 1).toInt = p.toInt - 1 := by
    rw [Int32.toInt_sub, hone]
    exact Int.bmod_eq_of_le (by omega) (by omega)
  rw [Int32.lt_iff_toInt_lt, Int32.le_iff_toInt_le, hsub]
  exact Int.sub_one_lt_iff

namespace Operator

variable {op : Operator} (h : op.associativity ≠ .right)
include h

theorem rightLimit_eq : op.rightLimit = op.priority - 1 := by
  rw [rightLimit]
  split
  · next hright => exact absurd hright h
  · rfl
  · rfl

/-- What is too loose for the right side is as loose as the operator or looser. -/
theorem rightLimit_lt_iff (hleast : op.priority ≠ Int32.minValue) {q : Int32} :
    op.rightLimit < q ↔ op.priority ≤ q := by
  rw [rightLimit_eq h, sub_one_lt_iff hleast]

/-- Nothing is too loose for the right side of an operator of the least priority. -/
theorem rightLimit_of_least (hleast : op.priority = Int32.minValue) :
    op.rightLimit = Grammar.topLimit := by
  rw [rightLimit_eq h, hleast]
  rfl

end Operator

-- Left associative, and grouped to the right.
example :
    let op : Operator := { symbol := "~", name := "", priority := Int32.minValue, binary := true }
    let g : Grammar := ⟨OperatorTable.empty.register op, .standard⟩
    g.read "a ~ b ~ c" =
      .ok (.node op [.identifier "a", .node op [.identifier "b", .identifier "c"]]) := by
  rfl

namespace OperatorTable

/-- The operators that stand between operands, longest symbols first. -/
def infixes : List Operator :=
  [.lessOrEqual, .greaterOrEqual, .equality, .inequality, .conjunction, .disjunction, .power,
   .multiplication, .division, .modulo, .addition, .subtraction, .less, .greater]

/-- The operators that stand before an operand, longest symbols first. -/
def prefixes : List Operator := [.dump, .negation, .log, .subtraction]

theorem standard_prefixCandidates : standard.prefixCandidates = prefixes := rfl

theorem standard_infixCandidates :
    standard.infixCandidates =
      [.lessOrEqual, .greaterOrEqual, .equality, .inequality, .conjunction, .disjunction,
        .memberAccess, .power, .multiplication, .division, .modulo, .addition, .subtraction, .less,
        .greater] := rfl

theorem structural_parenthesis : standard.structural .parenthesis = some .grouping := rfl

theorem structural_functionCall : standard.structural .functionCall = some .functionCall := rfl

theorem structural_methodCall : standard.structural .methodCall = some .methodCall := rfl

theorem structural_indexer : standard.structural .indexer = some .indexing := rfl

theorem mem_infixCandidates {op : Operator} (h : op ∈ standard.infixCandidates) :
    op = .memberAccess ∨ op ∈ infixes := by
  rw [standard_infixCandidates] at h
  simp only [List.mem_cons] at h
  simp only [infixes, List.mem_cons]
  tauto

/-- A check of all infix operators. -/
theorem forall_mem_infixes {P : Operator → Prop} [DecidablePred P]
    (h : infixes.all (fun op => decide (P op)) = true) {op : Operator} (hop : op ∈ infixes) :
    P op :=
  of_decide_eq_true (List.all_eq_true.mp h op hop)

theorem forall_mem_prefixes {P : Operator → Prop} [DecidablePred P]
    (h : prefixes.all (fun op => decide (P op)) = true) {op : Operator} (hop : op ∈ prefixes) :
    P op :=
  of_decide_eq_true (List.all_eq_true.mp h op hop)

variable {op : Operator}

theorem isStructural_of_mem_infixes (h : op ∈ infixes) : op.form.isStructural = false :=
  forall_mem_infixes (P := fun op => op.form.isStructural = false) rfl h

theorem form_ne_dot_of_mem_infixes (h : op ∈ infixes) : op.form ≠ .dot :=
  forall_mem_infixes (P := fun op => op.form ≠ .dot) rfl h

theorem isStructural_of_mem_prefixes (h : op ∈ prefixes) : op.form.isStructural = false :=
  forall_mem_prefixes (P := fun op => op.form.isStructural = false) rfl h

theorem priority_ne_least (h : op ∈ infixes) : op.priority ≠ Int32.minValue :=
  forall_mem_infixes (P := fun op => op.priority ≠ Int32.minValue) rfl h

/-- Whether a symbol starts with something else than an opening bracket. -/
def opensNothing (op : Operator) : Bool :=
  match op.symbol.toList with
  | [] => false
  | c :: _ => c != '(' && c != '['

theorem head?_of_starts {cs : List Char} (h : op.starts cs) {c : Char} {symbol : List Char}
    (hsymbol : op.symbol.toList = c :: symbol) : cs.head? = some c := by
  obtain ⟨rest, rfl⟩ := List.isPrefixOf_iff_prefix.mp h
  rw [hsymbol]
  rfl

theorem head?_of_matchInfix? {cs : List Char} (h : standard.matchInfix? cs = some op) :
    cs.head? ≠ some '(' ∧ cs.head? ≠ some '[' := by
  have hmem : op ∈ standard.infixCandidates := List.mem_of_find?_eq_some h
  have hall : standard.infixCandidates.all opensNothing = true := by decide
  have hopens := List.all_eq_true.mp hall op hmem
  rw [opensNothing] at hopens
  split at hopens
  · cases hopens
  · next c symbol hsymbol =>
    rw [head?_of_starts (matchInfix?_starts h) hsymbol]
    simpa only [Bool.and_eq_true, bne_iff_ne, ne_eq, Option.some.injEq] using hopens

end OperatorTable

/-- Whether a value can be written as a constant. -/
def Value.IsWritable : Value → Prop
  | .object _ => False
  | .string s => '"' ∉ s.toList ∨ '\'' ∉ s.toList
  | _ => True

/-- What a formula shows at its edges. -/
inductive Edge where
  /-- Neither edge is an operand. -/
  | closed
  | prefixed (op : Operator) (operand : Formula)
  | infixed (op : Operator) (left right : Formula)

namespace Formula

/-- Which operator without brackets the formula applies, and to what. -/
def edge : Formula → Edge
  | .apply op _ [operand] => if op.form.isStructural then .closed else .prefixed op operand
  | .apply op _ [left, right] => if op.form.isStructural then .closed else .infixed op left right
  | _ => .closed

/-- The priority of the infix operator at the root. -/
def chained? (f : Formula) : Option Int32 :=
  match f.edge with
  | .infixed op _ _ => some op.priority
  | _ => none

/-- The operand at the right edge, with the limit up to which it was read. -/
def lastOperand? (f : Formula) : Option (Int32 × Formula) :=
  match f.edge with
  | .prefixed _ operand => some (prefixPriority, operand)
  | .infixed op _ right => some (op.rightLimit, right)
  | .closed => none

variable {op : Operator}

theorem edge_of_isStructural {native : Option (Native Formula)} {operands : List Formula}
    (h : op.form.isStructural = true) : (apply op native operands).edge = .closed := by
  unfold edge
  split
  · next heq =>
    cases heq
    rw [if_pos h]
  · next heq =>
    cases heq
    rw [if_pos h]
  · rfl

variable {operand left right : Formula}

theorem edge_prefix (h : op ∈ OperatorTable.prefixes) :
    (node op [operand]).edge = .prefixed op operand := by
  simp only [node, edge, OperatorTable.isStructural_of_mem_prefixes h, Bool.false_eq_true,
    if_false]

theorem edge_infix (h : op ∈ OperatorTable.infixes) :
    (node op [left, right]).edge = .infixed op left right := by
  simp only [node, edge, OperatorTable.isStructural_of_mem_infixes h, Bool.false_eq_true,
    if_false]

theorem chained?_infix (h : op ∈ OperatorTable.infixes) :
    (node op [left, right]).chained? = some op.priority := by
  rw [chained?, edge_infix h]

theorem chained?_prefix (h : op ∈ OperatorTable.prefixes) (operand : Formula) :
    (node op [operand]).chained? = none := by
  rw [chained?, edge_prefix h]

theorem lastOperand?_prefix (h : op ∈ OperatorTable.prefixes) :
    (node op [operand]).lastOperand? = some (prefixPriority, operand) := by
  rw [lastOperand?, edge_prefix h]

theorem lastOperand?_infix (h : op ∈ OperatorTable.infixes) :
    (node op [left, right]).lastOperand? = some (op.rightLimit, right) := by
  rw [lastOperand?, edge_infix h]

end Formula

namespace Grammar

open OperatorTable

/-- Whether an expression with this limit stops before an operator, after an infix operator of the
given priority. -/
def Refuses (limit : Int32) (chained : Option Int32) (op : Operator) : Prop :=
  limit < op.priority ∨ op.associativity = .nonAssociative ∧ chained = some op.priority

/-- Whether every expression that ends where the formula ends stops before an operator. -/
inductive Releases (op : Operator) : Formula → Prop where
  | closed {f : Formula} (hlast : f.lastOperand? = none) : Releases op f
  | last {f operand : Formula} {limit : Int32} (hlast : f.lastOperand? = some (limit, operand))
      (hrefuses : Refuses limit operand.chained? op) (hoperand : Releases op operand) :
      Releases op f

/-- A letter or underscore, then letters, digits and underscores. -/
def IsName (name : String) : Prop :=
  ∃ c cs, name.toList = c :: cs ∧ isNameStart c ∧ ∀ x ∈ cs, isNamePart x

/-- What a formula can stand for in a larger one. -/
inductive Rank where
  /-- The target of calls, indexings and member accesses. -/
  | primary
  /-- An expression with a limit. -/
  | upTo (limit : Int32)

/-- The formulas that are read from texts. -/
inductive Derives (g : Grammar) : Rank → Formula → Prop where
  | constant {value : Value} (hvalue : value.IsWritable) : Derives g .primary (.constant value)
  | identifier {name : String} (hname : IsName name) (hkeyword : keyword? name = none) :
      Derives g .primary (.identifier name)
  | precompiled {found : Precompiled Formula}
      (hfound : g.functions.precompiled? found.name = some found) (hname : IsName found.name) :
      Derives g .primary (.precompiled found)
  | parenthesis {inner : Formula} (hinner : Derives g (.upTo topLimit) inner) :
      Derives g .primary (.node .grouping [inner])
  | member {target : Formula} {name : String} (htarget : Derives g .primary target)
      (hname : IsName name) : Derives g .primary (.node .memberAccess [target, .identifier name])
  | functionCall {name : String} {arguments : List Formula} (hname : IsName name)
      (hkeyword : keyword? name = none)
      (harguments : ∀ argument ∈ arguments, Derives g (.upTo topLimit) argument) :
      Derives g .primary
        (.apply .functionCall (g.functions.function? name) (.identifier name :: arguments))
  | methodCall {target : Formula} {name : String} {arguments : List Formula}
      (htarget : Derives g .primary target) (hname : IsName name)
      (harguments : ∀ argument ∈ arguments, Derives g (.upTo topLimit) argument) :
      Derives g .primary (.node .methodCall (target :: .identifier name :: arguments))
  | indexing {target : Formula} {indices : List Formula} (htarget : Derives g .primary target)
      (hindices : indices ≠ []) (hall : ∀ index ∈ indices, Derives g (.upTo topLimit) index) :
      Derives g .primary (.node .indexing (target :: indices))
  | atom {f : Formula} {limit : Int32} (hf : Derives g .primary f) : Derives g (.upTo limit) f
  | prefixed {op : Operator} {operand : Formula} {limit : Int32} (hop : op ∈ prefixes)
      (hoperand : Derives g (.upTo prefixPriority) operand) :
      Derives g (.upTo limit) (.node op [operand])
  | infixed {op : Operator} {left right : Formula} {limit : Int32} (hop : op ∈ infixes)
      (hlimit : op.priority ≤ limit) (hleft : Derives g (.upTo limit) left)
      (hchained : ¬(op.associativity = .nonAssociative ∧ left.chained? = some op.priority))
      (hreleases : Releases op left) (hright : Derives g (.upTo op.rightLimit) right) :
      Derives g (.upTo limit) (.node op [left, right])

variable {g : Grammar}

namespace Derives

theorem edge_eq_closed {f : Formula} (h : Derives g .primary f) : f.edge = .closed := by
  cases h with
  | constant | identifier | precompiled => rfl
  | parenthesis | member | functionCall | methodCall | indexing =>
      exact Formula.edge_of_isStructural rfl

theorem chained?_eq_none {f : Formula} (h : Derives g .primary f) : f.chained? = none := by
  rw [Formula.chained?, h.edge_eq_closed]

/-- A primary is closed on its right. -/
theorem releases {f : Formula} (h : Derives g .primary f) (op : Operator) : Releases op f :=
  .closed (by rw [Formula.lastOperand?, h.edge_eq_closed])

/-- An infix node up to a limit has an operator up to it. -/
theorem chained?_eq_some {limit : Int32} {f : Formula} {q : Int32} (h : Derives g (.upTo limit) f)
    (hq : f.chained? = some q) :
    ∃ op left right, f = .node op [left, right] ∧ op ∈ infixes ∧ op.priority = q ∧ q ≤ limit ∧
      Derives g (.upTo limit) left ∧ Derives g (.upTo op.rightLimit) right ∧ Releases op left ∧
      ¬(op.associativity = .nonAssociative ∧ left.chained? = some op.priority) := by
  cases h with
  | atom hf =>
      rw [hf.chained?_eq_none] at hq
      cases hq
  | prefixed hop =>
      rw [Formula.chained?_prefix hop] at hq
      cases hq
  | @infixed op left right _ hop hlimit hleft hchained hreleases hright =>
      rw [Formula.chained?_infix hop] at hq
      cases hq
      exact ⟨op, left, right, rfl, hop, rfl, hlimit, hleft, hright, hreleases, hchained⟩

end Derives

/-- Whether an infix operator and an expression that it can take come next. -/
def Takes (g : Grammar) (cs : List Char) (op : Operator) : Prop :=
  g.operators.matchInfix? (skipped cs) = some op ∧ op.form ≠ .dot ∧
    ∃ depth right rest,
      Silent.expression g depth op.rightLimit ((skipped cs).drop op.symbol.length) =
        .accepted (right, rest)

/-- Nothing that follows the formula here could belong to it alone: no indexing, no member access,
and no operator but those that it releases. -/
structure Settled (g : Grammar) (f : Formula) (cs : List Char) : Prop where
  indexing : (skipped cs).head? = some '[' → ∀ depth read,
    Silent.arguments (Silent.expression g depth) ']' false (skipped cs).tail ≠ .accepted read
  member : ∀ op, g.operators.matchInfix? (skipped cs) = some op → op.form = .dot → ∀ read,
    Silent.token Cursor.identifier? (skipped ((skipped cs).drop op.symbol.length)) ≠
      .accepted read
  releases : ∀ op, Takes g cs op → Releases op f

/-- Reading up to a limit ends here. -/
structure Halts (g : Grammar) (limit : Int32) (f : Formula) (cs : List Char) : Prop
    extends Settled g f cs where
  refuses : ∀ op, Takes g cs op → Refuses limit f.chained? op

/-- What is known of an operand while more may follow. -/
inductive Standing (g : Grammar) (limit : Int32) : Formula → Option Int32 → List Char → Prop where
  | primary {f : Formula} {cs : List Char} (hf : Derives g .primary f) :
      Standing g limit f none cs
  | settled {f : Formula} {cs : List Char} (hf : Derives g (.upTo limit) f)
      (hcall : g.callShape f = none) (hsettled : Settled g f cs) :
      Standing g limit f f.chained? cs

namespace Standing

variable {limit : Int32} {f : Formula} {chained : Option Int32} {cs : List Char}

theorem derives (h : Standing g limit f chained cs) : Derives g (.upTo limit) f := by
  cases h with
  | primary hf => exact .atom hf
  | settled hf => exact hf

theorem chained_eq (h : Standing g limit f chained cs) : chained = f.chained? := by
  cases h with
  | primary hf => exact hf.chained?_eq_none.symm
  | settled => rfl

theorem releases (h : Standing g limit f chained cs) {op : Operator} (htakes : Takes g cs op) :
    Releases op f := by
  cases h with
  | primary hf => exact hf.releases op
  | settled _ _ hsettled => exact hsettled.releases op htakes

end Standing

/-- A refusal is final, however much room there is for nested expressions. -/
theorem follow_rejected_of_le {depth depth' : Nat} (hdepth : depth ≤ depth') {limit : Int32}
    {f : Formula} {chained : Option Int32} {cs : List Char}
    (h : Silent.follow g (Silent.expression g depth) limit f chained cs = .rejected) :
    Silent.follow g (Silent.expression g depth') limit f chained cs = .rejected :=
  (Silent.follow_below (fun limit cs => Silent.expression_below hdepth limit cs) limit f chained
    cs).rejected h

theorem accepted_of_le {depth depth' : Nat} (hdepth : depth ≤ depth') {limit : Int32}
    {cs : List Char} {read : Formula × List Char}
    (h : Silent.expression g depth limit cs = .accepted read) :
    Silent.expression g depth' limit cs = .accepted read :=
  (Silent.expression_below hdepth limit cs).accepted h

theorem arguments_accepted_of_le {depth depth' : Nat} (hdepth : depth ≤ depth') {close : Char}
    {allowEmpty : Bool} {cs : List Char} {read : List Formula × List Char}
    (h : Silent.arguments (Silent.expression g depth) close allowEmpty cs = .accepted read) :
    Silent.arguments (Silent.expression g depth') close allowEmpty cs = .accepted read :=
  (Silent.arguments_below (fun limit cs => Silent.expression_below hdepth limit cs) close
    allowEmpty cs).accepted h

/-- Where nothing more fits reading ends. -/
theorem Standing.halts (hstandard : g.operators = .standard) {limit : Int32} {f : Formula}
    {chained : Option Int32} {cs : List Char} (h : Standing g limit f chained cs) {depth : Nat}
    (hrejected : Silent.follow g (Silent.expression g depth) limit f chained cs = .rejected) :
    Halts g limit f cs := by
  -- Whatever could be read with other room for nesting can be read with room for both.
  have hnever : ∀ depth' grown rest,
      Silent.follow g (Silent.expression g (max depth depth')) limit f chained cs ≠
        .accepted (grown, rest) := by
    intro depth' grown rest haccepted
    rw [follow_rejected_of_le (Nat.le_max_left _ _) hrejected] at haccepted
    cases haccepted
  refine ⟨⟨fun hopen depth' read hread => ?_, fun op hoperator hdot read hread => ?_,
    fun op htakes => h.releases htakes⟩, fun op htakes => ?_⟩
  · obtain ⟨indices, rest⟩ := read
    have hindexing : Silent.indexing g (Silent.expression g (max depth depth')) f
        (skipped cs).tail = .accepted (.node .indexing (f :: indices), rest) := by
      rw [Silent.indexing, hstandard, arguments_accepted_of_le (Nat.le_max_right _ _) hread]
      rfl
    exact hnever depth' _ _ (Silent.follow_eq_accepted_iff.mpr (.indexing hopen hindexing))
  · obtain ⟨name, rest⟩ := read
    obtain ⟨hcall, hindex⟩ := head?_of_matchInfix? (hstandard ▸ hoperator)
    exact hnever depth _ _ (Silent.follow_eq_accepted_iff.mpr
      (.member hcall hindex hoperator hdot hread))
  · obtain ⟨hoperator, hdot, depth', right, rest, hright⟩ := htakes
    obtain ⟨hcall, hindex⟩ := head?_of_matchInfix? (hstandard ▸ hoperator)
    rw [Refuses, ← h.chained_eq]
    refine Decidable.byContradiction fun hfits => ?_
    rw [not_or, Int32.not_lt] at hfits
    exact hnever depth' _ _ (Silent.follow_eq_accepted_iff.mpr (.infixed hcall hindex hoperator hdot
      hfits.1 hfits.2 (accepted_of_le (Nat.le_max_right _ _) hright)))

/-- What is known of an expression that was read. -/
def Sound (g : Grammar) (e : Int32 → Silent Formula) : Prop :=
  ∀ {limit cs f rest}, e limit cs = .accepted (f, rest) →
    Derives g (.upTo limit) f ∧ Halts g limit f rest

theorem token_eq_accepted {α : Type} {read? : Cursor → Option (α × Cursor)} {cs rest : List Char}
    {a : α} (h : Silent.token read? cs = .accepted (a, rest)) :
    ∃ next, read? ⟨0, cs, 0⟩ = some (a, next) ∧ next.rest = rest := by
  rw [Silent.token] at h
  cases hread : read? ⟨0, cs, 0⟩ with
  | none =>
      rw [hread] at h
      cases h
  | some read =>
      rw [hread] at h
      cases h
      exact ⟨read.2, rfl, rfl⟩

theorem isName_of_token {cs rest : List Char} {name : String}
    (h : Silent.token Cursor.identifier? cs = .accepted (name, rest)) : IsName name := by
  obtain ⟨next, hread, -⟩ := token_eq_accepted h
  cases cs with
  | nil => cases hread
  | cons x cs =>
      simp only [Cursor.identifier?, Cursor.peek?, if_true, List.head?_cons] at hread
      split at hread
      · next hx =>
        cases hread
        refine ⟨x, cs.takeWhile isNamePart, ?_, hx, ?_⟩
        · rw [String.toList_ofList,
            List.takeWhile_cons_of_pos (Silent.isNamePart_of_isNameStart hx)]
        · exact fun c hc => List.all_eq_true.mp List.all_takeWhile c hc
      · cases hread

theorem isWritable_of_number {cs rest : List Char} {value : Value}
    (h : Silent.token Cursor.number? cs = .accepted (value, rest)) : value.IsWritable := by
  obtain ⟨next, hread, -⟩ := token_eq_accepted h
  have hinteger : ∀ negative digits, (integerValue negative digits).IsWritable := by
    intro negative digits
    simp only [integerValue]
    generalize (if negative = true then -(digitsValue digits : Int) else digitsValue digits) = i
    split <;> trivial
  simp only [Cursor.number?, ne_eq, not_true_eq_false, if_false] at hread
  -- The sign decides which number it is, but every number can be written.
  generalize (if (cs.head? == some '-') = true then ['-'] else []) = sign at hread
  split at hread
  · cases hread
  split at hread
  · split at hread <;> cases hread
    · exact hinteger _ _
    · trivial
  · cases hread
    exact hinteger _ _

theorem isWritable_of_quotedString {cs rest : List Char} {text : String}
    (h : Silent.token Cursor.quotedString? cs = .accepted (text, rest)) :
    (Value.string text).IsWritable := by
  obtain ⟨next, hread, -⟩ := token_eq_accepted h
  cases cs with
  | nil => cases hread
  | cons quote cs =>
      have habsent : quote ∉ cs.takeWhile (· != quote) := by
        intro hmem
        simpa using List.all_eq_true.mp List.all_takeWhile quote hmem
      simp only [Cursor.quotedString?, Cursor.peek?, if_true, List.head?_cons] at hread
      split at hread
      · next hquote =>
        split at hread
        · cases hread
        · cases hread
          simp only [Value.IsWritable, String.toList_ofList]
          rcases hquote with rfl | rfl
          · exact Or.inr habsent
          · exact Or.inl habsent
      · cases hread

theorem derives_wordFormula {name : String} (h : IsName name) :
    Derives g .primary (wordFormula name) := by
  rw [wordFormula]
  cases hkeyword : keyword? name with
  | none => exact .identifier h hkeyword
  | some value =>
      refine .constant ?_
      unfold keyword? at hkeyword
      split at hkeyword <;> cases hkeyword <;> trivial

/-- Only names and member accesses can be called. -/
theorem callShape_eq_none {op : Operator} {operands : List Formula}
    (h : op.form.isStructural = false) : g.callShape (.node op operands) = none := by
  have hdot : op.form ≠ .dot := by
    intro hdot
    rw [hdot] at h
    cases h
  simp only [Formula.node, callShape, if_neg hdot]

theorem memberAccess_of_dot {cs : List Char} {op : Operator}
    (h : OperatorTable.standard.matchInfix? cs = some op) (hdot : op.form = .dot) :
    op = .memberAccess := by
  rcases mem_infixCandidates (List.mem_of_find?_eq_some h) with heq | hmem
  · exact heq
  · have hform := isStructural_of_mem_infixes hmem
    rw [hdot] at hform
    cases hform

section Productions

variable {e : Int32 → Silent Formula} (h : Sound g e)
include h

theorem operandBody_sound (hstandard : g.operators = .standard) {cs rest : List Char}
    {f : Formula} (hf : Silent.operandBody g e cs = .accepted (f, rest)) :
    Derives g .primary f := by
  rw [Silent.operandBody] at hf
  split at hf
  · next hhead =>
    rw [Silent.precompiled, if_pos hhead] at hf
    obtain ⟨⟨name, after⟩, hname, hf⟩ := Reply.bind_eq_accepted.mp hf
    simp only at hf
    split at hf
    · next found hfound =>
      cases hf
      have hnamed : found.name = name := by
        simpa using List.find?_some hfound
      exact .precompiled (hnamed ▸ hfound) (hnamed ▸ isName_of_token hname)
    · cases hf
  · next hhead =>
    simp only [Silent.parenthesis, hstandard, structural_parenthesis, if_pos hhead] at hf
    obtain ⟨⟨inner, after⟩, hinner, hf⟩ := Reply.bind_eq_accepted.mp hf
    simp only at hf
    split at hf
    · cases hf
      exact .parenthesis (h hinner).1
    · cases hf
  · obtain ⟨⟨text, after⟩, htext, hf⟩ := Reply.bind_eq_accepted.mp hf
    cases hf
    exact .constant (isWritable_of_quotedString htext)
  · obtain ⟨⟨text, after⟩, htext, hf⟩ := Reply.bind_eq_accepted.mp hf
    cases hf
    exact .constant (isWritable_of_quotedString htext)
  · rcases Reply.resume_eq_accepted.mp hf with ⟨⟨value, after⟩, hvalue, hf⟩ | ⟨-, hf⟩
    · cases hf
      exact .constant (isWritable_of_number hvalue)
    · obtain ⟨⟨name, after⟩, hname, hf⟩ := Reply.bind_eq_accepted.mp hf
      cases hf
      exact derives_wordFormula (isName_of_token hname)

/-- Every formula between commas is an expression that stands by itself. -/
theorem argumentsFrom_sound (close : Char) (fuel : Nat) {cs rest : List Char}
    {arguments : List Formula}
    (hread : Silent.argumentsFrom e close fuel cs = .accepted (arguments, rest)) :
    arguments ≠ [] ∧ ∀ argument ∈ arguments, Derives g (.upTo topLimit) argument := by
  induction fuel generalizing cs arguments with
  | zero => cases hread
  | succ fuel ih =>
      rw [Silent.argumentsFrom] at hread
      obtain ⟨⟨argument, after⟩, hargument, hread⟩ := Reply.bind_eq_accepted.mp hread
      simp only at hread
      split at hread
      · obtain ⟨⟨others, last⟩, hothers, hread⟩ := Reply.bind_eq_accepted.mp hread
        cases hread
        exact ⟨List.cons_ne_nil _ _, List.forall_mem_cons.mpr ⟨(h hargument).1, (ih hothers).2⟩⟩
      split at hread
      · cases hread
        exact ⟨List.cons_ne_nil _ _, List.forall_mem_singleton.mpr (h hargument).1⟩
      · cases hread

theorem arguments_sound {close : Char} {allowEmpty : Bool} {cs rest : List Char}
    {arguments : List Formula}
    (hread : Silent.arguments e close allowEmpty cs = .accepted (arguments, rest)) :
    (allowEmpty = false → arguments ≠ []) ∧
      ∀ argument ∈ arguments, Derives g (.upTo topLimit) argument := by
  rw [Silent.arguments] at hread
  split at hread
  · next hempty =>
    cases hread
    refine ⟨fun hfalse => ?_, fun _ hmem => absurd hmem List.not_mem_nil⟩
    rw [hfalse] at hempty
    exact absurd hempty.1 Bool.false_ne_true
  · obtain ⟨hne, hall⟩ := argumentsFrom_sound h close _ hread
    exact ⟨fun _ => hne, hall⟩

theorem call_sound (hstandard : g.operators = .standard) {callee f : Formula}
    (hcallee : Derives g .primary callee) {cs rest : List Char}
    (hread : Silent.call g e callee cs = .accepted (f, rest)) : Derives g .primary f := by
  rw [Silent.call] at hread
  cases hcallee with
  | @identifier name hname hkeyword =>
      simp only [callShape, hstandard, structural_functionCall] at hread
      obtain ⟨⟨arguments, after⟩, harguments, hread⟩ := Reply.bind_eq_accepted.mp hread
      cases hread
      exact .functionCall hname hkeyword (arguments_sound h harguments).2
  | member htarget hname =>
      simp only [callShape, Formula.node, Operator.memberAccess, Operator.structural, if_true,
        hstandard, structural_methodCall] at hread
      obtain ⟨⟨arguments, after⟩, harguments, hread⟩ := Reply.bind_eq_accepted.mp hread
      cases hread
      exact .methodCall htarget hname (arguments_sound h harguments).2
  | constant | precompiled | parenthesis | functionCall | methodCall | indexing => cases hread

theorem indexing_sound (hstandard : g.operators = .standard) {target f : Formula}
    (htarget : Derives g .primary target) {cs rest : List Char}
    (hread : Silent.indexing g e target cs = .accepted (f, rest)) : Derives g .primary f := by
  simp only [Silent.indexing, hstandard, structural_indexer] at hread
  obtain ⟨⟨indices, after⟩, hindices, hread⟩ := Reply.bind_eq_accepted.mp hread
  cases hread
  obtain ⟨hne, hall⟩ := arguments_sound h hindices
  exact .indexing htarget (hne rfl) hall

/-- An operand, or a prefix operator that ends where its operand does. -/
theorem prefixed_sound (hstandard : g.operators = .standard) {limit : Int32} {f : Formula}
    {cs rest : List Char} (hread : Silent.prefixed g e cs = .accepted (f, rest)) :
    Standing g limit f none rest := by
  rw [Silent.prefixed] at hread
  rcases Reply.resume_eq_accepted.mp hread with ⟨⟨operand, after⟩, hoperand, hread⟩ | ⟨-, hread⟩
  · cases hread
    exact .primary (operandBody_sound h hstandard hoperand)
  · split at hread
    · cases hread
    next op hop =>
    obtain ⟨⟨operand, after⟩, hoperand, hread⟩ := Reply.bind_eq_accepted.mp hread
    cases hread
    have hmem : op ∈ prefixes := by
      rw [hstandard, OperatorTable.matchPrefix?] at hop
      exact List.mem_of_find?_eq_some hop
    obtain ⟨hderives, hhalts⟩ := h hoperand
    rw [← Formula.chained?_prefix hmem operand]
    refine .settled (.prefixed hmem hderives) ?_ ⟨hhalts.indexing, hhalts.member, ?_⟩
    · exact callShape_eq_none (isStructural_of_mem_prefixes hmem)
    · exact fun next htakes => .last (Formula.lastOperand?_prefix hmem)
        (hhalts.refuses next htakes) (hhalts.releases next htakes)

end Productions

/-- What follows an operand keeps what is known of it, up to where reading ends. -/
theorem chain_sound (hstandard : g.operators = .standard) {depth : Nat}
    (h : Sound g (Silent.expression g depth)) {limit : Int32} (fuel : Nat) {left f : Formula}
    {chained : Option Int32} {cs rest : List Char} (hleft : Standing g limit left chained cs)
    (hread : Silent.chain g (Silent.expression g depth) limit fuel left chained cs =
      .accepted (f, rest)) :
    Derives g (.upTo limit) f ∧ Halts g limit f rest := by
  induction fuel generalizing left chained cs with
  | zero => cases hread
  | succ fuel ih =>
      rw [Silent.chain] at hread
      rcases Reply.resume_eq_accepted.mp hread with ⟨⟨⟨grown, c⟩, after⟩, hgrown, hread⟩ |
        ⟨hrejected, hread⟩
      · refine ih ?_ hread
        -- Brackets and points follow primaries only: what is settled has refused them, or cannot be
        -- called in the first place.
        cases Silent.follow_eq_accepted_iff.mp hgrown with
        | call hopen hcall =>
            cases hleft with
            | primary hprimary => exact .primary (call_sound h hstandard hprimary hcall)
            | settled _ hnone =>
                rw [Silent.call, hnone] at hcall
                cases hcall
        | indexing hopen hindexing =>
            cases hleft with
            | primary hprimary => exact .primary (indexing_sound h hstandard hprimary hindexing)
            | settled _ _ hsettled =>
                simp only [Silent.indexing, hstandard, structural_indexer] at hindexing
                obtain ⟨read, hindices, -⟩ := Reply.bind_eq_accepted.mp hindexing
                exact absurd hindices (hsettled.indexing hopen depth read)
        | @member op name _ _ _ hoperator hdot hname =>
            cases hleft with
            | primary hprimary =>
                obtain rfl := memberAccess_of_dot (hstandard ▸ hoperator) hdot
                exact .primary (.member hprimary (isName_of_token hname))
            | settled _ _ hsettled =>
                exact absurd hname (hsettled.member op hoperator hdot _)
        | @infixed op right _ _ _ hoperator hdot hlimit hchained hright =>
            have hmem : op ∈ infixes := by
              rw [hstandard, OperatorTable.matchInfix?] at hoperator
              rcases mem_infixCandidates (List.mem_of_find?_eq_some hoperator) with rfl | hmem
              · exact absurd rfl hdot
              · exact hmem
            have htakes : Takes g cs op := ⟨hoperator, hdot, depth, right, after, hright⟩
            obtain ⟨hderives, hhalts⟩ := h hright
            rw [hleft.chained_eq] at hchained
            have hnode : Derives g (.upTo limit) (.node op [left, right]) :=
              .infixed hmem hlimit hleft.derives hchained (hleft.releases htakes) hderives
            -- What the operand on the right refused, the node releases.
            have hsettled : Settled g (.node op [left, right]) after :=
              ⟨hhalts.indexing, hhalts.member, fun next htakes =>
                .last (Formula.lastOperand?_infix hmem) (hhalts.refuses next htakes)
                  (hhalts.releases next htakes)⟩
            rw [← Formula.chained?_infix hmem]
            exact .settled hnode (callShape_eq_none (isStructural_of_mem_infixes hmem)) hsettled
      · cases hread
        exact ⟨hleft.derives, hleft.halts hstandard hrejected⟩

/-- Whatever is read is derived, and reading ended because nothing more fits. -/
theorem expression_sound (hstandard : g.operators = .standard) (depth : Nat) :
    Sound g (Silent.expression g depth) := by
  induction depth with
  | zero =>
      intro limit cs f rest hread
      cases hread
  | succ depth ih =>
      intro limit cs f rest hread
      rw [Silent.expression, Silent.expressionBody] at hread
      obtain ⟨⟨left, after⟩, hleft, hread⟩ := Reply.bind_eq_accepted.mp hread
      exact chain_sound hstandard ih _ (prefixed_sound ih hstandard hleft) hread

/-- Every formula that a text holds is derived. -/
theorem derives_of_read (hstandard : g.operators = .standard) {text : String} {f : Formula}
    (h : g.read text = .ok f) : Derives g (.upTo topLimit) f := by
  obtain ⟨-, rest, -, hread⟩ := g.read_eq_ok_iff.mp h
  exact (expression_sound hstandard _ hread).1

end Grammar

end Formulary
