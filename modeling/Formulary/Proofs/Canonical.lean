import Formulary.Proofs.RoundTrip

/-! # The grammar by levels

The documented grammar, with operators of one priority on one level. Everything it describes is read
back from its text. It describes less than is read: an operand on the left may be looser than it
allows where an operator was refused because it cannot be chained.
-/

namespace Formulary.Grammar

open OperatorTable

/-- The levels, from the tightest. -/
inductive Level where
  | primary
  /-- Prefix operators and `^`. -/
  | unary
  | product
  | sum
  | comparison
  | equality
  | conjunction
  | disjunction
deriving DecidableEq

namespace Level

/-- The loosest priority of infix operators on the level. -/
def limit : Level → Int32
  | primary => structuralPriority
  | unary => 2
  | product => 5
  | sum => 6
  | comparison => 8
  | equality => 9
  | conjunction => 13
  | disjunction => 14

/-- What a formula of the level can stand for. -/
def rank : Level → Rank
  | primary => .primary
  | level => .upTo level.limit

/-- Whether an operator of the level, looser than prefix operators, can have operands of the levels
`lefts` and `rights`. -/
def admits (level lefts rights : Level) (op : Operator) : Bool :=
  level.limit == op.priority && decide (prefixPriority < op.priority) &&
    op.associativity != .right && decide (lefts.limit ≤ op.priority) &&
    (op.associativity != .nonAssociative || decide (lefts.limit < op.priority)) &&
    decide (rights.limit < op.priority)

theorem admits_iff (level : Level) {lefts rights : Level} {op : Operator} :
    level.admits lefts rights op = true ↔
      level.limit = op.priority ∧ prefixPriority < op.priority ∧ op.associativity ≠ .right ∧
        lefts.limit ≤ op.priority ∧
        (op.associativity = .nonAssociative → lefts.limit < op.priority) ∧
        rights.limit < op.priority := by
  simp only [admits, Bool.and_eq_true, Bool.or_eq_true, beq_iff_eq, bne_iff_ne, decide_eq_true_eq,
    and_assoc, ne_eq, imp_iff_not_or]

end Level

/-- The formulas of a level. -/
inductive Canonical (g : Grammar) : Level → Formula → Prop where
  | constant {value : Value} (hvalue : value.IsWritable) : Canonical g .primary (.constant value)
  | named {name : String} (hname : IsName name) (hkeyword : keyword? name = none) :
      Canonical g .primary (.identifier name)
  | precompiled {found : Precompiled Formula}
      (hfound : g.functions.precompiled? found.name = some found) (hname : IsName found.name) :
      Canonical g .primary (.precompiled found)
  | parenthesis {inner : Formula} (hinner : Canonical g .disjunction inner) :
      Canonical g .primary (.node .grouping [inner])
  | member {target : Formula} {name : String} (htarget : Canonical g .primary target)
      (hname : IsName name) : Canonical g .primary (.node .memberAccess [target, .identifier name])
  | functionCall {name : String} {arguments : List Formula} (hname : IsName name)
      (hkeyword : keyword? name = none)
      (harguments : ∀ argument ∈ arguments, Canonical g .disjunction argument) :
      Canonical g .primary
        (.apply .functionCall (g.functions.function? name) (.identifier name :: arguments))
  | methodCall {target : Formula} {name : String} {arguments : List Formula}
      (htarget : Canonical g .primary target) (hname : IsName name)
      (harguments : ∀ argument ∈ arguments, Canonical g .disjunction argument) :
      Canonical g .primary (.node .methodCall (target :: .identifier name :: arguments))
  | indexing {target : Formula} {indices : List Formula} (htarget : Canonical g .primary target)
      (hne : indices ≠ []) (hindices : ∀ index ∈ indices, Canonical g .disjunction index) :
      Canonical g .primary (.node .indexing (target :: indices))
  /-- A tighter formula may stand for a looser one. -/
  | loosen {level looser : Level} {f : Formula} (hf : Canonical g level f)
      (hlevel : level.limit ≤ looser.limit) : Canonical g looser f
  | power {left right : Formula} (hleft : Canonical g .primary left)
      (hright : Canonical g .unary right) : Canonical g .unary (.node .power [left, right])
  | prefixed {op : Operator} {operand : Formula}
      (hop : op ∈ [Operator.negation, .subtraction, .log, .dump])
      (hoperand : Canonical g .unary operand) : Canonical g .unary (.node op [operand])
  | product {op : Operator} {left right : Formula}
      (hop : op ∈ [Operator.multiplication, .division, .modulo])
      (hleft : Canonical g .product left) (hright : Canonical g .unary right) :
      Canonical g .product (.node op [left, right])
  | sum {op : Operator} {left right : Formula} (hop : op ∈ [Operator.addition, .subtraction])
      (hleft : Canonical g .sum left) (hright : Canonical g .product right) :
      Canonical g .sum (.node op [left, right])
  | comparison {op : Operator} {left right : Formula}
      (hop : op ∈ [Operator.less, .lessOrEqual, .greater, .greaterOrEqual])
      (hleft : Canonical g .sum left) (hright : Canonical g .sum right) :
      Canonical g .comparison (.node op [left, right])
  | equality {op : Operator} {left right : Formula}
      (hop : op ∈ [Operator.equality, .inequality]) (hleft : Canonical g .comparison left)
      (hright : Canonical g .comparison right) : Canonical g .equality (.node op [left, right])
  | conjunction {left right : Formula} (hleft : Canonical g .equality left)
      (hright : Canonical g .equality right) :
      Canonical g .conjunction (.node .conjunction [left, right])
  | disjunction {left right : Formula} (hleft : Canonical g .conjunction left)
      (hright : Canonical g .conjunction right) :
      Canonical g .disjunction (.node .disjunction [left, right])

variable {g : Grammar}

theorem Derives.weaken {rank : Rank} {f : Formula} (h : Derives g rank f) {limit bound : Int32}
    (hrank : rank = .upTo limit) (hbound : limit ≤ bound) : Derives g (.upTo bound) f := by
  induction h generalizing limit with
  | constant | identifier | precompiled | parenthesis | member | functionCall | methodCall
  | indexing => cases hrank
  | atom hf => exact .atom hf
  | prefixed hop hoperand => exact .prefixed hop hoperand
  | infixed hop hlimit _ hchained hreleases hright ihleft =>
      cases hrank
      exact .infixed hop (Int32.le_trans hlimit hbound) (ihleft rfl hbound) hchained hreleases
        hright

/-- A formula is derived, and operators that are looser than its level are not its own. -/
structure Fits (g : Grammar) (level : Level) (f : Formula) : Prop where
  derives : Derives g level.rank f
  releases : ∀ op : Operator, prefixPriority < op.priority → level.limit ≤ op.priority →
    Releases op f

namespace Fits

theorem primary {f : Formula} (h : Derives g .primary f) : Fits g .primary f :=
  ⟨h, fun op _ _ => h.releases op⟩

theorem upTo {level : Level} {f : Formula} (h : Fits g level f) {limit : Int32}
    (hlimit : level.limit ≤ limit) : Derives g (.upTo limit) f := by
  have hderives := h.derives
  cases level with
  | primary => exact .atom hderives
  | unary | product | sum | comparison | equality | conjunction | disjunction =>
      exact hderives.weaken rfl hlimit

theorem loosen {level looser : Level} {f : Formula} (h : Fits g level f)
    (hlevel : level.limit ≤ looser.limit) : Fits g looser f := by
  refine ⟨?_, fun op hprefix hlimit => h.releases op hprefix (Int32.le_trans hlevel hlimit)⟩
  cases looser with
  | primary =>
      have hderives := h.derives
      cases level with
      | primary => exact hderives
      | unary | product | sum | comparison | equality | conjunction | disjunction =>
          exact absurd hlevel (by decide)
  | unary | product | sum | comparison | equality | conjunction | disjunction =>
      exact h.upTo hlevel

variable {op : Operator} {left right operand : Formula} {lefts rights level : Level}

theorem prefixed (hop : op ∈ prefixes) (h : Fits g .unary operand) :
    Fits g .unary (.node op [operand]) where
  derives := .prefixed hop (h.upTo (by decide))
  releases next hprefix hlimit :=
    .last (Formula.lastOperand?_prefix hop) (Or.inl hprefix) (h.releases next hprefix hlimit)

theorem power (hleft : Fits g .primary left) (hright : Fits g .unary right) :
    Fits g .unary (.node .power [left, right]) := by
  have hop : Operator.power ∈ infixes := by simp [infixes]
  refine ⟨?_, fun next hprefix hlimit => ?_⟩
  · exact .infixed hop (by decide) (hleft.upTo (by decide)) (fun hnon => absurd hnon.1 (by decide))
      (hleft.derives.releases _) (hright.upTo (by decide))
  · have hrefused : Operator.power.rightLimit < next.priority :=
      Int32.lt_trans (by decide) hprefix
    exact .last (Formula.lastOperand?_infix hop) (Or.inl hrefused)
      (hright.releases next hprefix hlimit)

/-- An infix operator of a level, whose operands are of levels that its priority and associativity
ask for. -/
theorem infixed {ops : List Operator} (hinfixes : ops ⊆ infixes)
    (hadmits : ops.all (level.admits lefts rights) = true) (hop : op ∈ ops)
    (hleft : Fits g lefts left) (hright : Fits g rights right) :
    Fits g level (.node op [left, right]) := by
  have hmem : op ∈ infixes := hinfixes hop
  obtain ⟨hlevel, hlooser, hassoc, hlefts, hstrict, hrights⟩ :=
    level.admits_iff.mp (List.all_eq_true.mp hadmits op hop)
  have hlimit : ∀ {q : Int32}, op.rightLimit < q ↔ op.priority ≤ q :=
    Operator.rightLimit_lt_iff hassoc (priority_ne_least hmem)
  have hrights' : rights.limit ≤ op.rightLimit := Int32.not_lt.mp fun h =>
    Int32.not_lt.mpr (hlimit.mp h) hrights
  have hchained : ¬(op.associativity = .nonAssociative ∧ left.chained? = some op.priority) := by
    rintro ⟨hnon, hq⟩
    obtain ⟨_, _, _, -, -, -, hle, -⟩ := (hleft.upTo (Int32.le_refl _)).chained?_eq_some hq
    exact Int32.not_lt.mpr hle (hstrict hnon)
  have hderives : Derives g (.upTo level.limit) (.node op [left, right]) :=
    .infixed hmem (Int32.le_of_eq hlevel.symm) (hleft.upTo (hlevel ▸ hlefts)) hchained
      (hleft.releases op hlooser hlefts) (hright.upTo hrights')
  refine ⟨?_, fun next hprefix hnext => ?_⟩
  · cases level with
    | primary =>
        rw [← hlevel] at hlooser
        exact absurd hlooser (by decide)
    | unary | product | sum | comparison | equality | conjunction | disjunction => exact hderives
  · rw [hlevel] at hnext
    exact .last (Formula.lastOperand?_infix hmem) (Or.inl (hlimit.mpr hnext))
      (hright.releases next hprefix (Int32.le_trans (Int32.le_of_lt hrights) hnext))

end Fits

/-- A canonical formula is one that is read. -/
theorem Canonical.fits {level : Level} {f : Formula} (h : Canonical g level f) :
    Fits g level f := by
  have hall : ∀ {fs : List Formula}, (∀ f ∈ fs, Fits g .disjunction f) →
      ∀ f ∈ fs, Derives g (.upTo topLimit) f := fun hfs f hf => (hfs f hf).upTo (by decide)
  induction h with
  | constant hvalue => exact .primary (.constant hvalue)
  | named hname hkeyword => exact .primary (.identifier hname hkeyword)
  | precompiled hfound hname => exact .primary (.precompiled hfound hname)
  | parenthesis _ ih => exact .primary (.parenthesis (ih.upTo (by decide)))
  | member _ hname ih => exact .primary (.member ih.derives hname)
  | functionCall hname hkeyword _ ih => exact .primary (.functionCall hname hkeyword (hall ih))
  | methodCall _ hname _ ihtarget ih =>
      exact .primary (.methodCall ihtarget.derives hname (hall ih))
  | indexing _ hne _ ihtarget ih => exact .primary (.indexing ihtarget.derives hne (hall ih))
  | loosen _ hlevel ih => exact ih.loosen hlevel
  | power _ _ ihleft ihright => exact .power ihleft ihright
  | prefixed hop _ ih =>
      refine .prefixed ?_ ih
      simp only [List.mem_cons, List.not_mem_nil, or_false] at hop
      rcases hop with rfl | rfl | rfl | rfl <;> simp [prefixes]
  | product hop _ _ ihleft ihright => exact .infixed (by simp [infixes]) rfl hop ihleft ihright
  | sum hop _ _ ihleft ihright => exact .infixed (by simp [infixes]) rfl hop ihleft ihright
  | comparison hop _ _ ihleft ihright => exact .infixed (by simp [infixes]) rfl hop ihleft ihright
  | equality hop _ _ ihleft ihright => exact .infixed (by simp [infixes]) rfl hop ihleft ihright
  | conjunction _ _ ihleft ihright =>
      exact .infixed (by simp [infixes]) rfl (List.mem_singleton_self _) ihleft ihright
  | disjunction _ _ ihleft ihright =>
      exact .infixed (by simp [infixes]) rfl (List.mem_singleton_self _) ihleft ihright

/-- The text of every canonical formula, of whatever size, is read back as that formula. -/
theorem read_text_of_canonical (hstandard : g.operators = .standard) {f : Formula}
    (h : Canonical g .disjunction f) (hexact : f.Exact) : g.read f.text = .ok f :=
  (h.fits.upTo (by decide)).read_text hstandard hexact

/-- `#` with a registered name that is no identifier is not read, nor are brackets without an
index. -/
theorem unreadable_name_and_indexing :
    let found : Precompiled Formula := ⟨"x y", fun _ => pure .null⟩
    let g : Grammar := ⟨.standard, FunctionTable.empty.registerPrecompiled found⟩
    g.functions.precompiled? found.name = some found ∧ Formula.Exact (.precompiled found) ∧
      (∀ f, g.read (Formula.precompiled found).text ≠ .ok f) ∧
      ∀ f, g.read (Formula.node .indexing [.identifier "a"]).text ≠ .ok f := by
  intro found g
  have hname : (g.read (Formula.precompiled found).text).isOk = false := by decide +kernel
  have hindexing : (g.read (Formula.node .indexing [.identifier "a"]).text).isOk = false := by
    decide +kernel
  refine ⟨rfl, Formula.exact_precompiled found, fun f hread => ?_, fun f hread => ?_⟩
  · rw [hread] at hname
    cases hname
  · rw [hread] at hindexing
    cases hindexing

theorem read_text_of_canonical_sum :
    let f : Formula := .node .addition [.constant (.float 2.5), .identifier "a"]
    standard.operators = .standard ∧ Canonical standard .disjunction f ∧ f.Exact ∧
      standard.read f.text = .ok f := by
  intro f
  have hname : IsName "a" := ⟨'a', [], rfl, rfl, fun _ hc => by cases hc⟩
  have hleft : Canonical standard .sum (.constant (.float 2.5)) :=
    .loosen (.constant trivial) (by decide)
  have hright : Canonical standard .product (.identifier "a") :=
    .loosen (.named hname rfl) (by decide)
  have hcanonical : Canonical standard .disjunction f :=
    .loosen (.sum List.mem_cons_self hleft hright) (by decide)
  exact ⟨rfl, hcanonical, exact_sum, read_text_of_canonical rfl hcanonical exact_sum⟩

end Formulary.Grammar
