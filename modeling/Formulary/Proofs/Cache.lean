import Formulary.Proofs.Constants
import Formulary.Proofs.Engines
import Mathlib.Data.List.Nodup

/-! # What the cache of an engine holds

A history tells what can become of an engine and, on the way, which texts it handed out
trees for and when its cache was emptied. The cache never holds more texts than the
settings allow. It holds exactly those that were served since it was last emptied, each
with the tree that was handed out every time; a text that the engine refuses changes
nothing.
-/

namespace Formulary

namespace Engine

/-- What happens to the cache of an engine. -/
inductive CacheEvent where
  | emptied
  /-- The tree of a text was handed out, be it a new one or one from the cache. -/
  | served (text : String) (tree : Tree)

/-- The texts that were served after the cache was last emptied, with their trees. The latest event
comes first. -/
def servedSince : List CacheEvent → List (String × Tree)
  | [] => []
  | .emptied :: _ => []
  | .served text tree :: earlier => (text, tree) :: servedSince earlier

/-- What asking for the tree of a text means for the cache, the latest event first. A new text
empties a cache that is full. -/
def arrival (e : Engine) (text : String) (w : World) : List CacheEvent :=
  match (e.parseCached text w).1 with
  | .error _ => []
  | .ok tree =>
    if e.cached? text = none ∧ e.cacheSize = e.settings.maxCacheSize then
      [.served text tree, .emptied]
    else [.served text tree]

/-- What can become of a new engine, with the nodes and the world that there are then, and what has
happened to its cache, the latest event first. An evaluation on a host that uses the engine itself
is told as the call for the tree, followed by what the host does. -/
inductive History : Engine → Set Tree → World → List CacheEvent → Prop where
  | new {nodes w} (h : w.Reachable nodes) (grammar : Grammar) (settings : Settings) :
      History { grammar, settings } nodes w []
  | withFunctions {e nodes w events} (h : History e nodes w events) (functions : FunctionTable) :
      History (e.withFunctions functions) nodes w (.emptied :: events)
  | withOperators {e nodes w events} (h : History e nodes w events) (operators : OperatorTable) :
      History (e.withOperators operators) nodes w (.emptied :: events)
  | withSettings {e nodes w events} (h : History e nodes w events) (settings : Settings) :
      History (e.withSettings settings) nodes w (.emptied :: events)
  | clearCache {e nodes w events} (h : History e nodes w events) :
      History e.clearCache nodes w (.emptied :: events)
  | parse {e nodes w events} (h : History e nodes w events) (text : String) :
      History e (nodes ∪ e.planted text w) (e.parse text w).2 events
  | parseCached {e nodes w events} (h : History e nodes w events) (text : String) :
      History (e.parseCached text w).2.1 (nodes ∪ e.added text w) (e.parseCached text w).2.2
        (e.arrival text w ++ events)
  | evaluate {e nodes w events} (h : History e nodes w events) (text : String) (host : Host) :
      History (e.evaluate text host w).2.1 (nodes ∪ e.added text w) (e.evaluate text host w).2.2
        (e.arrival text w ++ events)
  /-- In between trees may be lowered to any depth and evaluated on any host, and others
  planted or put together. -/
  | meanwhile {e nodes w events nodes' w'} (h : History e nodes w events)
      (hworld : w'.Reachable nodes') (hnodes : nodes ⊆ nodes') : History e nodes' w' events

/-- The cache is as large as it may be, at most, and holds what was served since it was last
emptied, unless it may hold nothing. -/
structure Keeps (e : Engine) (events : List CacheEvent) : Prop where
  size_le : e.cacheSize ≤ e.settings.maxCacheSize
  nodup : (e.cache.map Prod.fst).Nodup
  mem_iff : ∀ text tree, (text, tree) ∈ e.cache ↔
    0 < e.settings.maxCacheSize ∧ (text, tree) ∈ servedSince events

variable {e : Engine} {nodes : Set Tree} {w : World} {events : List CacheEvent} {text : String}
  {tree : Tree}

/-! ## Looking into the cache -/

theorem mem_of_cached? (h : e.cached? text = some tree) : (text, tree) ∈ e.cache := by
  obtain ⟨⟨text', tree'⟩, hfound, rfl⟩ := Option.map_eq_some_iff.mp h
  obtain rfl : text' = text := by simpa using List.find?_some hfound
  exact List.mem_of_find?_eq_some hfound

theorem notMem_of_cached?_eq_none (h : e.cached? text = none) : text ∉ e.cache.map Prod.fst := by
  rw [cached?, Option.map_eq_none_iff, List.find?_eq_none] at h
  intro htext
  obtain ⟨entry, hentry, rfl⟩ := List.mem_map.mp htext
  exact h entry hentry (beq_self_eq_true _)

/-- No text has two trees. -/
theorem cached?_of_mem (hnodup : (e.cache.map Prod.fst).Nodup) (h : (text, tree) ∈ e.cache) :
    e.cached? text = some tree := by
  cases hfound : e.cached? text with
  | none => exact absurd (List.mem_map_of_mem h) (notMem_of_cached?_eq_none hfound)
  | some found =>
      have hsame : (text, found) = (text, tree) :=
        List.inj_on_of_nodup_map hnodup (mem_of_cached? hfound) h rfl
      rw [(Prod.mk.inj hsame).2]

/-- A text that is in the cache changes nothing, nor does one that cannot be read; what was read is
remembered. -/
theorem parseCached_cases (e : Engine) (text : String) (w : World) :
    (∃ tree, e.cached? text = some tree ∧ e.parseCached text w = (.ok tree, e, w)) ∨
      (∃ error w', e.cached? text = none ∧ e.parseCached text w = (.error error, e, w')) ∨
      ∃ tree w', e.cached? text = none ∧
        e.parseCached text w = (.ok tree, e.remember text tree w') := by
  unfold parseCached
  cases hcached : e.cached? text with
  | some tree => exact Or.inl ⟨tree, rfl, rfl⟩
  | none =>
      cases hparse : e.parse text w with
      | mk result w' =>
          cases result with
          | error error => exact Or.inr (Or.inl ⟨error, w', rfl, rfl⟩)
          | ok tree => exact Or.inr (Or.inr ⟨tree, w', rfl, rfl⟩)

/-- What the cache holds when a tree is remembered. -/
theorem remember_engine (e : Engine) (text : String) (tree : Tree) (w : World) :
    let kept := if e.settings.maxCacheSize ≤ e.cacheSize then [] else e.cache
    (e.remember text tree w).1 =
      { e with cache := if 0 < e.settings.maxCacheSize then (text, tree) :: kept else kept } := by
  by_cases hfull : e.settings.maxCacheSize ≤ e.cacheSize <;>
    by_cases hroom : 0 < e.settings.maxCacheSize <;>
    simp [remember, clearCache, hfull, hroom]

theorem evaluate_engine (e : Engine) (text : String) (host : Host) (w : World) :
    (e.evaluate text host w).2.1 = (e.parseCached text w).2.1 := by
  cases hparse : e.parseCached text w with
  | mk result rest =>
      cases result with
      | error error => rw [evaluate_of_error hparse]
      | ok tree => rw [evaluate_of_ok hparse]

/-! ## One operation -/

namespace Keeps

/-- An empty cache, of which nothing was served since. -/
theorem of_empty (hcache : e.cache = []) (hevents : servedSince events = []) : e.Keeps events where
  size_le := by rw [cacheSize, hcache]; exact Nat.zero_le _
  nodup := by rw [hcache]; exact List.nodup_nil
  mem_iff text tree := by rw [hcache, hevents]; simp only [List.not_mem_nil, and_false]

/-- What a cache serves is no news. -/
theorem again (h : e.Keeps events) (htree : e.cached? text = some tree) :
    e.Keeps (.served text tree :: events) where
  size_le := h.size_le
  nodup := h.nodup
  mem_iff text' tree' := by
    obtain ⟨hroom, hserved⟩ := (h.mem_iff text tree).mp (mem_of_cached? htree)
    rw [h.mem_iff, servedSince, List.mem_cons]
    refine and_congr_right fun _ => ⟨Or.inr, ?_⟩
    rintro (heq | hserved')
    · rwa [heq]
    · exact hserved'

/-- A new tree goes into a cache that has room for it, or that is emptied before. -/
theorem remember (h : e.Keeps events) (hnew : e.cached? text = none) (tree : Tree) (w : World) :
    (e.remember text tree w).1.Keeps
      (.served text tree ::
        if e.cacheSize = e.settings.maxCacheSize then .emptied :: events else events) := by
  rw [remember_engine]
  by_cases hfull : e.cacheSize = e.settings.maxCacheSize
  · rw [if_pos hfull, if_pos hfull.ge]
    by_cases hroom : 0 < e.settings.maxCacheSize
    · rw [if_pos hroom]
      exact ⟨hroom, List.nodup_singleton _, fun _ _ => (and_iff_right hroom).symm⟩
    · rw [if_neg hroom]
      refine ⟨Nat.zero_le _, List.nodup_nil, fun _ _ => ?_⟩
      simp only [List.not_mem_nil, hroom, false_and]
  · have hless : e.cacheSize < e.settings.maxCacheSize := lt_of_le_of_ne h.size_le hfull
    have hroom : 0 < e.settings.maxCacheSize := Nat.zero_lt_of_lt hless
    rw [if_neg hfull, if_neg hless.not_ge, if_pos hroom]
    refine ⟨hless, ?_, fun text' tree' => ?_⟩
    · rw [List.map_cons]
      exact List.nodup_cons.mpr ⟨notMem_of_cached?_eq_none hnew, h.nodup⟩
    · rw [List.mem_cons, h.mem_iff, and_iff_right hroom, servedSince, List.mem_cons]
      exact (and_iff_right hroom).symm

theorem parseCached (h : e.Keeps events) (text : String) (w : World) :
    (e.parseCached text w).2.1.Keeps (e.arrival text w ++ events) := by
  rcases e.parseCached_cases text w with ⟨tree, hcached, hparse⟩ | ⟨error, w', hnew, hparse⟩ |
    ⟨tree, w', hnew, hparse⟩
  · have harrival : e.arrival text w = [.served text tree] := by
      simp only [arrival, hparse, hcached, reduceCtorEq, false_and, if_false]
    rw [hparse, harrival]
    exact h.again hcached
  · have harrival : e.arrival text w = [] := by simp only [arrival, hparse]
    rw [hparse, harrival]
    exact h
  · have harrival : e.arrival text w ++ events = .served text tree ::
        if e.cacheSize = e.settings.maxCacheSize then .emptied :: events else events := by
      simp only [arrival, hparse, hnew, true_and]
      split <;> rfl
    rw [hparse, harrival]
    exact h.remember hnew tree w'

end Keeps

/-- A text that the engine refuses leaves the engine as it is. -/
theorem parseCached_of_refused {error : FormulaError} (h : w.Reachable nodes)
    (hcache : e.Coherent nodes) (hreading : e.reading text = .error error) :
    ∃ w', e.parseCached text w = (.error error, e, w') := by
  have hserved := parseCached_served h hcache text
  rcases e.parseCached_cases text w with ⟨tree, -, hparse⟩ | ⟨error', w', -, hparse⟩ |
    ⟨tree, w', -, hparse⟩
  · rw [hparse] at hserved
    cases hreading.symm.trans (hserved.tree tree rfl).reading_eq
  · rw [hparse] at hserved
    have hreading' := hserved.error error' rfl
    rw [Except.error.inj (hreading.symm.trans hreading')]
    exact ⟨w', hparse⟩
  · rw [hparse] at hserved
    cases hreading.symm.trans (hserved.tree tree rfl).reading_eq

/-- A text that it does not refuse gets a tree of what it reads. -/
theorem parseCached_of_read {formula : Formula} (h : w.Reachable nodes)
    (hcache : e.Coherent nodes) (hreading : e.reading text = .ok formula) :
    ∃ tree, (e.parseCached text w).1 = .ok tree ∧ tree.formula = formula := by
  have hserved := parseCached_served h hcache text
  cases hresult : (e.parseCached text w).1 with
  | error error => cases hreading.symm.trans (hserved.error error hresult)
  | ok tree =>
      have hreading' := (hserved.tree tree hresult).reading_eq
      exact ⟨tree, rfl, Except.ok.inj (hreading'.symm.trans hreading)⟩

/-! ## Histories -/

namespace History

theorem reachable (h : History e nodes w events) : e.Reachable nodes w := by
  induction h with
  | new h grammar settings => exact .new h grammar settings
  | withFunctions _ functions ih => exact ih.withFunctions functions
  | withOperators _ operators ih => exact ih.withOperators operators
  | withSettings _ settings ih => exact ih.withSettings settings
  | clearCache _ ih => exact ih.clearCache
  | parse _ text ih => exact ih.parse text
  | parseCached _ text ih => exact ih.parseCached text
  | evaluate _ text host ih => exact ih.evaluate text host
  | meanwhile _ hworld hnodes ih => exact ih.meanwhile hworld hnodes

theorem keeps (h : History e nodes w events) : e.Keeps events := by
  induction h with
  | new | withFunctions | withOperators | withSettings | clearCache => exact .of_empty rfl rfl
  | parse _ text ih => exact ih
  | parseCached _ text ih => exact ih.parseCached text _
  | evaluate _ text host ih =>
      rw [evaluate_engine]
      exact ih.parseCached text _
  | meanwhile _ hworld hnodes ih => exact ih

/-- Whatever was done with an engine: its cache is not larger than the settings allow; a text that
is refused leaves the engine as it is, and any other gets a tree; the cached texts are, each once,
those that were served since the cache was last emptied, if there is room for any; and as long as
a text is cached it is served with one and the same tree. -/
theorem cache_holds_served (h : History e nodes w events) :
    e.cacheSize ≤ e.settings.maxCacheSize ∧
    (∀ text error, e.reading text = .error error →
      ((e.parseCached text w).1 = .error error ∧ (e.parseCached text w).2.1 = e) ∧
        ∀ host, (e.evaluate text host w).1 = .error error ∧ (e.evaluate text host w).2.1 = e) ∧
    (∀ text formula, e.reading text = .ok formula →
      ∃ tree, (e.parseCached text w).1 = .ok tree ∧ tree.formula = formula) ∧
    (e.cache.map Prod.fst).Nodup ∧
    (∀ text, text ∈ e.cache.map Prod.fst ↔
      0 < e.settings.maxCacheSize ∧ ∃ tree, (text, tree) ∈ servedSince events) ∧
    (∀ text tree, e.cached? text = some tree → e.parseCached text w = (.ok tree, e, w) ∧
      ∀ tree', (text, tree') ∈ servedSince events → tree' = tree) := by
  obtain ⟨hworld, hcache⟩ := h.reachable.sound
  have hkeeps : e.Keeps events := h.keeps
  refine ⟨hkeeps.size_le, fun text error hreading => ?_,
    fun text formula hreading => parseCached_of_read hworld hcache hreading, hkeeps.nodup,
    fun text => ?_, fun text tree hcached => ⟨?_, fun tree' hserved => ?_⟩⟩
  · obtain ⟨w', hparse⟩ := parseCached_of_refused hworld hcache hreading
    rw [hparse]
    exact ⟨⟨rfl, rfl⟩, fun host => by rw [evaluate_of_error hparse]; exact ⟨rfl, rfl⟩⟩
  · simp only [List.mem_map, Prod.exists, exists_and_right, exists_eq_right, hkeeps.mem_iff,
      exists_and_left]
  · simp only [Engine.parseCached, hcached]
  · have hroom := ((hkeeps.mem_iff text tree).mp (mem_of_cached? hcached)).1
    have hcached' := cached?_of_mem hkeeps.nodup ((hkeeps.mem_iff text tree').mpr ⟨hroom, hserved⟩)
    exact Option.some.inj (hcached'.symm.trans hcached)

/-- In a cache for one text the second text drives out the first. -/
theorem small_cache_holds_served :
    let e : Engine := { settings := { allowCompilation := false, maxCacheSize := 1 } }
    let first := e.parseCached "a" {}
    let second := first.2.1.parseCached "b" first.2.2
    ∃ nodes events, History second.2.1 nodes second.2.2 events ∧ second.2.1.cacheSize ≤ 1 ∧
      "a" ∉ second.2.1.cache.map Prod.fst ∧ "b" ∈ second.2.1.cache.map Prod.fst := by
  intro e first second
  have hread {name : String} {c : Char} (hname : name.toList = [c]) (hc : isNameStart c = true)
      (hkeyword : Grammar.keyword? name = none) :
      Grammar.standard.read name = .ok (.identifier name) :=
    Grammar.read_name ⟨c, [], hname, hc, fun _ hmem => by cases hmem⟩ hkeyword rfl
  let a : Tree := ⟨.identifier "a", Layout.ofTree 0⟩
  let b : Tree := ⟨.identifier "b", Layout.ofTree 1⟩
  have hfirst : first = (.ok a, { e with cache := [("a", a)] }, { nextTree := 1 }) := by
    have ha : e.grammar.read "a" = .ok (.identifier "a") := hread rfl rfl rfl
    simp only [first, Engine.parseCached, Engine.parse, Grammar.readLogged, ha]
    rfl
  have hsecond : first.2.1.parseCached "b" first.2.2 = (.ok b, { e with cache := [("b", b)] },
      ({ nextTree := 2 } : World).write (.cacheFull 1)) := by
    have hb : e.grammar.read "b" = .ok (.identifier "b") := hread rfl rfl rfl
    rw [hfirst]
    simp only [Engine.parseCached, Engine.parse, Grammar.readLogged, hb]
    rfl
  have harrival : first.2.1.arrival "b" first.2.2 = [.served "b" b, .emptied] := by
    simp only [arrival, hsecond]
    rw [hfirst]
    rfl
  have hhistory : History second.2.1 _ second.2.2 (first.2.1.arrival "b" first.2.2 ++ _) :=
    ((History.new .start e.grammar e.settings).parseCached "a").parseCached "b"
  obtain ⟨hsize, -, -, -, htexts, -⟩ := cache_holds_served hhistory
  have hsettings : second.2.1.settings = e.settings := congrArg (fun s => s.2.1.settings) hsecond
  rw [hsettings] at hsize
  have hserved (text : String) : text ∈ second.2.1.cache.map Prod.fst ↔ text = "b" := by
    rw [htexts, hsettings, harrival]
    simp [e, servedSince]
  exact ⟨_, _, hhistory, hsize, fun ha => absurd ((hserved "a").mp ha) (by decide),
    (hserved "b").mpr rfl⟩

end History

end Engine

end Formulary
