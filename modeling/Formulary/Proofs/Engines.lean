import Formulary.Engine
import Formulary.Proofs.Faults
import Formulary.Proofs.Indistinct

/-! # Engines and what they remember

What an engine answers to a text is decided by its tables, by whether it is strict, and for
a strict engine by whether it lowers and how deep. The cache, the trees that were planted
and lowered before and their last results decide nothing: every tree in the cache is what
the tables make of its text, and the engine has not refused it.
-/

namespace Formulary

namespace Engine

/-- Why an engine refuses a formula that it has read. Only a strict one that lowers does. -/
def refusal? (e : Engine) (formula : Formula) : Option LoweringError :=
  if e.settings.allowCompilation && e.settings.strict then
    formula.refusal? e.settings.maxDepth
  else none

/-- What an engine makes of a text. -/
def reading (e : Engine) (text : String) : Except FormulaError Formula :=
  match e.grammar.read text with
  | .error error => .error (.parse error)
  | .ok formula =>
    match e.refusal? formula with
    | some error => .error (.compilation error)
    | none => .ok formula

/-- What an engine reports when the evaluation of a formula has ended. -/
def verdict (e : Engine) (formula : Formula) : Except EvalError Value → Except FormulaError Value
  | .error error => if e.settings.strict then .error (.evaluation error) else .ok .unknown
  | .ok value =>
    if e.settings.strict && value.isUnknown then .error (.unknownResult formula.text)
    else .ok value

/-- Reads a text and walks the formula on memory of its own: what evaluating comes down to. -/
def answer (e : Engine) (text : String) (host : Host) (w : World) :
    Except FormulaError Value × World :=
  match e.reading text with
  | .error error => (.error error, w)
  | .ok formula =>
    let (tree, w) := w.plant formula
    let (outcome, w) := tree.calcOn host true w
    (e.verdict formula outcome, w)

/-- The nodes that come into being when a text is read. -/
def planted (e : Engine) (text : String) (w : World) : Set Tree :=
  match e.grammar.read text with
  | .error _ => ∅
  | .ok formula => (w.plant formula).1.nodes

/-- The same when the text may be in the cache. -/
def added (e : Engine) (text : String) (w : World) : Set Tree :=
  match e.cached? text with
  | some _ => ∅
  | none => e.planted text w

/-- What can become of an engine, with the nodes and the world that there are then. -/
inductive Reachable : Engine → Set Tree → World → Prop where
  | new {nodes w} (h : w.Reachable nodes) (grammar : Grammar) (settings : Settings) :
      Reachable { grammar, settings } nodes w
  | withFunctions {e nodes w} (h : Reachable e nodes w) (functions : FunctionTable) :
      Reachable (e.withFunctions functions) nodes w
  | withOperators {e nodes w} (h : Reachable e nodes w) (operators : OperatorTable) :
      Reachable (e.withOperators operators) nodes w
  | withSettings {e nodes w} (h : Reachable e nodes w) (settings : Settings) :
      Reachable (e.withSettings settings) nodes w
  | clearCache {e nodes w} (h : Reachable e nodes w) : Reachable e.clearCache nodes w
  | parse {e nodes w} (h : Reachable e nodes w) (text : String) :
      Reachable e (nodes ∪ e.planted text w) (e.parse text w).2
  | parseCached {e nodes w} (h : Reachable e nodes w) (text : String) :
      Reachable (e.parseCached text w).2.1 (nodes ∪ e.added text w) (e.parseCached text w).2.2
  | evaluate {e nodes w} (h : Reachable e nodes w) (text : String) (host : Host) :
      Reachable (e.evaluate text host w).2.1 (nodes ∪ e.added text w) (e.evaluate text host w).2.2
  /-- In between trees may be lowered to any depth and evaluated on any host, and others
  planted or put together. -/
  | meanwhile {e nodes w nodes' w'} (h : Reachable e nodes w) (hworld : w'.Reachable nodes')
      (hnodes : nodes ⊆ nodes') : Reachable e nodes' w'

/-- A tree that an engine may take for what it makes of a text. -/
structure Vouches (e : Engine) (nodes : Set Tree) (text : String) (tree : Tree) : Prop where
  mem : tree ∈ nodes
  planted : ∃ serial, tree.layout = Layout.ofTree serial
  reading_eq : e.reading text = .ok tree.formula

/-- The engine vouches for all trees in the cache. -/
def Coherent (e : Engine) (nodes : Set Tree) : Prop :=
  ∀ text tree, (text, tree) ∈ e.cache → e.Vouches nodes text tree

variable {e : Engine} {nodes nodes' : Set Tree} {w : World} {text : String}

theorem Vouches.mono {tree : Tree} (h : e.Vouches nodes text tree) (hnodes : nodes ⊆ nodes') :
    e.Vouches nodes' text tree :=
  ⟨hnodes h.mem, h.planted, h.reading_eq⟩

namespace Coherent

theorem mono (h : e.Coherent nodes) (hnodes : nodes ⊆ nodes') : e.Coherent nodes' :=
  fun text tree hentry => (h text tree hentry).mono hnodes

/-- Of an empty cache there is nothing to say. -/
theorem of_empty (hcache : e.cache = []) : e.Coherent nodes := by
  intro text tree hentry
  rw [hcache] at hentry
  cases hentry

theorem cached? (h : e.Coherent nodes) {tree : Tree} (htree : e.cached? text = some tree) :
    e.Vouches nodes text tree := by
  obtain ⟨⟨text', tree'⟩, hfound, rfl⟩ := Option.map_eq_some_iff.mp htree
  obtain rfl : text' = text := by simpa using List.find?_some hfound
  exact h _ _ (List.mem_of_find?_eq_some hfound)

theorem cons (h : e.Coherent nodes) {tree : Tree} (htree : e.Vouches nodes text tree) :
    Coherent { e with cache := (text, tree) :: e.cache } nodes := by
  intro text' tree' hentry
  rcases List.mem_cons.mp hentry with hentry | hentry
  · obtain ⟨rfl, rfl⟩ := Prod.mk.inj hentry
    exact ⟨htree.mem, htree.planted, htree.reading_eq⟩
  · obtain ⟨hmem, hplanted, hreading⟩ := h text' tree' hentry
    exact ⟨hmem, hplanted, hreading⟩

end Coherent

/-! ## Reading -/

theorem reading_of_read_error {error : ParseError} (hread : e.grammar.read text = .error error) :
    e.reading text = .error (.parse error) := by
  simp only [reading, hread]

theorem reading_of_read_ok {formula : Formula} (hread : e.grammar.read text = .ok formula) :
    e.reading text = (e.refusal? formula).elim (.ok formula) fun error =>
      .error (.compilation error) := by
  simp only [reading, hread]
  cases e.refusal? formula <;> rfl

theorem read_of_reading {formula : Formula} (hreading : e.reading text = .ok formula) :
    e.grammar.read text = .ok formula := by
  cases hread : e.grammar.read text with
  | error error =>
      rw [reading_of_read_error hread] at hreading
      cases hreading
  | ok found =>
      rw [reading_of_read_ok hread] at hreading
      cases hrefusal : e.refusal? found with
      | none =>
          rw [hrefusal] at hreading
          rw [← Except.ok.inj hreading]
      | some error =>
          rw [hrefusal] at hreading
          cases hreading

/-- Reading a text gives a new tree of what the engine makes of it, or says why not. -/
theorem parse_spec (h : w.Reachable nodes) (e : Engine) (text : String) :
    let after := e.parse text w
    after.1 = (e.reading text).map (fun formula => (w.plant formula).1) ∧
      w.Alike after.2 ∧ after.2.Reachable (nodes ∪ e.planted text w) := by
  unfold parse Grammar.readLogged planted
  cases hread : e.grammar.read text with
  | error error =>
      rw [reading_of_read_error hread, Set.union_empty]
      exact ⟨rfl, ⟨rfl, rfl⟩, h.write _⟩
  | ok formula =>
      have hplanted := h.plant formula
      have hself : (w.plant formula).1 ∈ nodes ∪ (w.plant formula).1.nodes :=
        .inr (Tree.self_mem_nodes _)
      have halike : w.Alike (w.plant formula).2 := ⟨rfl, rfl⟩
      rw [reading_of_read_ok hread, refusal?]
      cases e.settings.allowCompilation with
      | false => exact ⟨rfl, halike, hplanted⟩
      | true =>
          cases e.settings.strict with
          | false =>
              exact ⟨rfl, halike.trans (Tree.compile_alike _ _ _), hplanted.compile hself _⟩
          | true =>
              have htried := hplanted.tryCompile hself e.settings.maxDepth
              have hunseen : w.Alike
                  ((w.plant formula).1.tryCompile e.settings.maxDepth (w.plant formula).2).2 :=
                ⟨rfl, rfl⟩
              have houtcome :=
                Tree.tryCompile_planted h.standing.fresh formula e.settings.maxDepth
              simp only [if_true, Bool.and_self] at houtcome ⊢
              generalize (w.plant formula).1.tryCompile e.settings.maxDepth (w.plant formula).2 =
                tried at htried hunseen houtcome ⊢
              obtain ⟨outcome, after⟩ := tried
              rcases houtcome with ⟨hnone, code, rfl⟩ | ⟨error, hsome, rfl⟩
              · rw [hnone]
                exact ⟨rfl, hunseen, htried⟩
              · rw [hsome]
                exact ⟨rfl, hunseen, htried⟩

/-- What an engine has when it was asked for the tree of a text: the tree or the reason why
there is none, and a cache that it still vouches for. No host has noticed. -/
structure Served (e : Engine) (nodes : Set Tree) (text : String) (w : World)
    (after : Except FormulaError Tree × Engine × World) : Prop where
  error : ∀ error, after.1 = .error error → e.reading text = .error error
  tree : ∀ tree, after.1 = .ok tree → e.Vouches nodes text tree
  settings_eq : after.2.1.settings = e.settings
  coherent : after.2.1.Coherent nodes
  alike : w.Alike after.2.2
  reachable : after.2.2.Reachable nodes

/-- Remembering a tree changes the cache, and the log at most. -/
theorem remember_served (h : w.Reachable nodes) (hcache : e.Coherent nodes) {tree : Tree}
    (htree : e.Vouches nodes text tree) {before : World} (halike : before.Alike w) :
    e.Served nodes text before (.ok tree, e.remember text tree w) := by
  have hempty : e.clearCache.Coherent nodes := .of_empty rfl
  have htree' : e.clearCache.Vouches nodes text tree :=
    ⟨htree.mem, htree.planted, htree.reading_eq⟩
  have hafter : (e.remember text tree w).1.settings = e.settings ∧
      (e.remember text tree w).1.Coherent nodes ∧ w.Alike (e.remember text tree w).2 ∧
      (e.remember text tree w).2.Reachable nodes := by
    simp only [remember]
    split <;> split
    · exact ⟨rfl, hempty.cons htree', ⟨rfl, rfl⟩, h.write _⟩
    · exact ⟨rfl, hempty, ⟨rfl, rfl⟩, h.write _⟩
    · exact ⟨rfl, hcache.cons htree, .refl w, h⟩
    · exact ⟨rfl, hcache, .refl w, h⟩
  obtain ⟨hsettings, hcoherent, hquiet, hreachable⟩ := hafter
  refine ⟨fun error herror => (by cases herror), fun found hfound => ?_, hsettings, hcoherent,
    halike.trans hquiet, hreachable⟩
  rwa [← Except.ok.inj hfound]

/-- The tree of a text is one that the engine vouches for, in the cache or not. -/
theorem parseCached_served (h : w.Reachable nodes) (hcache : e.Coherent nodes) (text : String) :
    e.Served (nodes ∪ e.added text w) text w (e.parseCached text w) := by
  cases hcached : e.cached? text with
  | some tree =>
      have hadded : e.added text w = ∅ := by simp only [added, hcached]
      have hafter : e.parseCached text w = (.ok tree, e, w) := by simp only [parseCached, hcached]
      rw [hadded, hafter, Set.union_empty]
      refine ⟨fun error herror => (by cases herror), fun found hfound => ?_, rfl, hcache,
        .refl w, h⟩
      rw [← Except.ok.inj hfound]
      exact hcache.cached? hcached
  | none =>
      have hadded : e.added text w = e.planted text w := by simp only [added, hcached]
      have hcoherent : e.Coherent (nodes ∪ e.planted text w) := hcache.mono Set.subset_union_left
      obtain ⟨hresult, halike, hreachable⟩ := parse_spec h e text
      rw [hadded, parseCached, hcached]
      cases hparse : e.parse text w with
      | mk result parsed =>
          rw [hparse] at hresult halike hreachable
          cases hreading : e.reading text with
          | error error =>
              rw [hreading] at hresult
              obtain rfl : result = .error error := hresult
              refine ⟨fun other hother => ?_, fun tree htree => (by cases htree), rfl, hcoherent,
                halike, hreachable⟩
              rw [hreading, Except.error.inj hother]
          | ok formula =>
              rw [hreading] at hresult
              obtain rfl : result = .ok (w.plant formula).1 := hresult
              refine remember_served hreachable hcoherent ⟨?_, ⟨_, rfl⟩, hreading⟩ halike
              rw [planted, read_of_reading hreading]
              exact .inr (Tree.self_mem_nodes _)

/-! ## Evaluating -/

theorem compute_eq (e : Engine) (tree : Tree) (host : Host) (w : World) :
    e.compute tree host w =
      (e.verdict tree.formula (tree.calcOn host true w).1, (tree.calcOn host true w).2) := by
  unfold compute
  cases hrun : tree.calcOn host true w with
  | mk outcome after => cases outcome <;> rfl

theorem verdict_congr {e' : Engine} (hstrict : e'.settings.strict = e.settings.strict) :
    e'.verdict = e.verdict := by
  funext formula outcome
  cases outcome <;> simp only [verdict, hstrict]

theorem evaluate_of_error {e' : Engine} {w' : World} {error : FormulaError}
    (hparse : e.parseCached text w = (.error error, e', w')) (host : Host) :
    e.evaluate text host w = (.error error, e', w') := by
  rw [evaluate, hparse]

theorem evaluate_of_ok {e' : Engine} {w' : World} {tree : Tree}
    (hparse : e.parseCached text w = (.ok tree, e', w')) (host : Host) :
    e.evaluate text host w = (e'.verdict tree.formula (tree.calcOn host true w').1, e',
      (tree.calcOn host true w').2) := by
  rw [evaluate, hparse]
  simp only [compute_eq]

theorem answer_of_error {error : FormulaError} (hreading : e.reading text = .error error)
    (host : Host) (w : World) : e.answer text host w = (.error error, w) := by
  rw [answer, hreading]

theorem answer_of_ok {formula : Formula} (hreading : e.reading text = .ok formula) (host : Host)
    (w : World) : e.answer text host w =
      let ending := (w.plant formula).1.calcOn host true (w.plant formula).2
      (e.verdict formula ending.1, ending.2) := by
  rw [answer, hreading]

/-- The tree that an engine takes for a text evaluates like a new one, in any world that looks
the same to the host. -/
theorem Vouches.calcOn_spec {tree : Tree} (htree : e.Vouches nodes text tree)
    (h : w.Reachable nodes) (host : Host) {w₀ : World} (hfresh : w₀.Fresh) (halike : w.Alike w₀) :
    let planted := w₀.plant tree.formula
    (tree.calcOn host true w).1 = (planted.1.calcOn host true planted.2).1 ∧
      (tree.calcOn host true w).2.Alike (planted.1.calcOn host true planted.2).2 := by
  obtain ⟨hmem, ⟨serial, hlayout⟩, -⟩ := htree
  obtain ⟨formula, layout⟩ := tree
  obtain rfl : layout = Layout.ofTree serial := hlayout
  have hplanted := (World.Standing.of_fresh hfresh).plant formula
  have hindistinct : w.Indistinct (w₀.plant formula).2 :=
    ⟨halike.trans ⟨rfl, rfl⟩, h.standing.fresh, hplanted.fresh⟩
  obtain ⟨hresult, hended⟩ := Tree.calcChecked_ends World.Indistinct.outward
    (Machine.ofHost_upholds host nestingLevels _) hindistinct h.standing.sound hplanted.sound hmem
    (.inr (Tree.self_mem_nodes _)) true
  exact ⟨hresult, hended.toAlike⟩

/-- An engine that vouches for its cache answers to a text as if it read it for the first time
and walked the formula. -/
theorem evaluate_spec (h : w.Reachable nodes) (hcache : e.Coherent nodes) (text : String)
    (host : Host) {w₀ : World} (hfresh : w₀.Fresh) (halike : w.Alike w₀) :
    let after := e.evaluate text host w
    let answer := e.answer text host w₀
    after.1 = answer.1 ∧ after.2.2.Alike answer.2 ∧ after.2.1 = (e.parseCached text w).2.1 ∧
      after.2.2.Reachable (nodes ∪ e.added text w) := by
  intro after answer
  have hserved := parseCached_served h hcache text
  cases hparse : e.parseCached text w with
  | mk result rest =>
      obtain ⟨e', w'⟩ := rest
      rw [hparse] at hserved
      have halike' : w'.Alike w₀ := hserved.alike.symm.trans halike
      cases result with
      | error error =>
          have hafter : after = _ := evaluate_of_error hparse host
          have hanswer : answer = _ := answer_of_error (hserved.error error rfl) host w₀
          rw [hafter, hanswer]
          exact ⟨rfl, halike', rfl, hserved.reachable⟩
      | ok tree =>
          have htree := hserved.tree tree rfl
          have hafter : after = _ := evaluate_of_ok hparse host
          have hanswer : answer = _ := answer_of_ok htree.reading_eq host w₀
          have hverdict : e'.verdict = e.verdict :=
            verdict_congr (congrArg Settings.strict hserved.settings_eq)
          obtain ⟨hresult, hended⟩ := htree.calcOn_spec hserved.reachable host hfresh halike'
          rw [hafter, hanswer, hverdict]
          exact ⟨congrArg (e.verdict tree.formula) hresult, hended, rfl,
            hserved.reachable.evaluate htree.mem host nestingLevels true⟩

/-- Whatever becomes of an engine, it vouches for its cache. -/
theorem Reachable.sound (h : e.Reachable nodes w) : w.Reachable nodes ∧ e.Coherent nodes := by
  induction h with
  | new h grammar settings => exact ⟨h, .of_empty rfl⟩
  | withFunctions _ functions ih => exact ⟨ih.1, .of_empty rfl⟩
  | withOperators _ operators ih => exact ⟨ih.1, .of_empty rfl⟩
  | withSettings _ settings ih => exact ⟨ih.1, .of_empty rfl⟩
  | clearCache _ ih => exact ⟨ih.1, .of_empty rfl⟩
  | parse _ text ih =>
      obtain ⟨-, -, hworld⟩ := parse_spec ih.1 _ text
      exact ⟨hworld, ih.2.mono Set.subset_union_left⟩
  | parseCached _ text ih =>
      have hserved := parseCached_served ih.1 ih.2 text
      exact ⟨hserved.reachable, hserved.coherent⟩
  | evaluate _ text host ih =>
      have hserved := parseCached_served ih.1 ih.2 text
      obtain ⟨-, -, hengine, hworld⟩ :=
        evaluate_spec ih.1 ih.2 text host ih.1.standing.fresh (.refl _)
      rw [hengine]
      exact ⟨hworld, hserved.coherent⟩
  | meanwhile _ hworld hnodes ih => exact ⟨hworld, ih.2.mono hnodes⟩

/-- A new engine with the same tables: a strict one with the same settings, and otherwise one
that neither lowers nor keeps trees. -/
def plain (e : Engine) : Engine where
  grammar := e.grammar
  settings :=
    if e.settings.strict then e.settings else { allowCompilation := false, maxCacheSize := 0 }

theorem plain_strict (e : Engine) : e.plain.settings.strict = e.settings.strict := by
  cases hstrict : e.settings.strict <;> simp [plain, hstrict]

theorem refusal?_plain (e : Engine) : e.plain.refusal? = e.refusal? := by
  funext formula
  cases hstrict : e.settings.strict <;> simp [refusal?, plain, hstrict]

/-- What is cached or lowered, and with which limit, has no part in the answers of a lenient
engine; in those of a strict one the cache has none. -/
theorem answer_plain (e : Engine) : e.plain.answer = e.answer := by
  have hreading : e.plain.reading = e.reading := by
    funext text
    simp only [reading, refusal?_plain]
    rfl
  funext text host w
  simp only [answer, hreading, verdict_congr e.plain_strict]

/-- Whatever was done with an engine and its trees, it evaluates a text to what a plain one
does, which asks the host the same. -/
theorem evaluate_eq_plain (h : e.Reachable nodes w) {nodes₀ : Set Tree} {w₀ : World}
    (h₀ : w₀.Reachable nodes₀) (halike : w.Alike w₀) (text : String) (host : Host) :
    let after := e.evaluate text host w
    let plain := e.plain.evaluate text host w₀
    after.1 = plain.1 ∧ after.2.2.calls = plain.2.2.calls := by
  obtain ⟨hresult, hended, -, -⟩ :=
    evaluate_spec h.sound.1 h.sound.2 text host h₀.standing.fresh halike
  have hempty : e.plain.Coherent nodes₀ := .of_empty rfl
  obtain ⟨hresult', hended', -, -⟩ :=
    evaluate_spec h₀ hempty text host h₀.standing.fresh (.refl w₀)
  rw [answer_plain] at hresult' hended'
  exact ⟨hresult.trans hresult'.symm, (hended'.trans hended.symm).calls_eq⟩

/-- A text that was read and lowered, could not be lowered under the next settings, and is
then taken from the cache. -/
theorem cached_evaluate_eq_plain :
    let text := "a || f(1)"
    let first := Engine.evaluate {} text .empty {}
    let second := (first.2.1.withSettings { maxDepth := 0 }).evaluate text .empty first.2.2
    ∃ nodes, second.2.1.Reachable nodes second.2.2 ∧ second.2.2.Reachable nodes ∧
      let third := second.2.1.evaluate text .empty second.2.2
      let plain := second.2.1.plain.evaluate text .empty second.2.2
      third.1 = plain.1 ∧ third.2.2.calls = plain.2.2.calls := by
  intro text first second
  have hfirst : first.2.1.Reachable _ first.2.2 :=
    (Reachable.new .start .standard {}).evaluate text .empty
  have hsecond : second.2.1.Reachable _ second.2.2 :=
    (hfirst.withSettings { maxDepth := 0 }).evaluate text .empty
  exact ⟨_, hsecond, hsecond.sound.1,
    evaluate_eq_plain hsecond hsecond.sound.1 (.refl _) text .empty⟩

end Engine

end Formulary
