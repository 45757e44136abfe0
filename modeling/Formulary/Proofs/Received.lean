import Formulary.Proofs.Evaluation

/-! # What a host has received

Calls are noted in the order in which a host receives them, before it does anything about
them, and none is forgotten: what code outside the language asks while it answers a
question comes behind that question.
-/

namespace Formulary

/-- The question of a call that is one. -/
def Call.request? : Call → Option Request
  | request question => some question
  | describe => none

/-- The questions that the host has received, the earliest first. -/
def World.requests (w : World) : List Request := w.calls.filterMap Call.request?

theorem World.requests_noteCall (w : World) (request : Request) :
    (w.noteCall (.request request)).requests = w.requests ++ [request] :=
  List.filterMap_append

theorem World.requests_noteCall_describe (w : World) :
    (w.noteCall .describe).requests = w.requests :=
  List.filterMap_append.trans (List.append_nil _)

/-- A machine that forgets no call. -/
structure Machine.Remembers (m : Machine) : Prop where
  ask : ∀ request w, w.calls <+: (m.ask request w).2.calls
  describe : ∀ w, w.calls <+: (m.describe w).2.calls
  evaluate : ∀ formula compiled asValue w,
    w.calls <+: (m.evaluate formula compiled asValue w).2.calls

section Run

variable {m : Machine}

theorem Routine.calls_grow (hm : m.Remembers) {ε α : Type} (routine : Routine Formula ε α)
    (w : World) : w.calls <+: (routine.run m w).2.calls := by
  induction routine generalizing w with
  | done answer | fail error | panic message => exact List.prefix_rfl
  | ask request next ih =>
      have hasked := hm.ask request w
      rw [run]
      split
      all_goals
        next heq =>
          rw [heq] at hasked
          first | exact hasked | exact hasked.trans (ih _ _)
  | evaluate formula compiled asValue next ih =>
      have hevaluated := hm.evaluate formula compiled asValue w
      rw [run]
      split
      next heq =>
        rw [heq] at hevaluated
        exact hevaluated.trans (ih _ _)
      next heq =>
        rw [heq] at hevaluated
        exact hevaluated
  | fresh next ih => exact ih w.nextSerial { w with nextSerial := w.nextSerial + 1 }
  | misread text error next ih => exact ih (w.write (.misread text error))

theorem Program.calls_grow (hm : m.Remembers) {α : Type} (p : Program α) (w : World) :
    w.calls <+: (p.run m w).2.calls := by
  induction p generalizing w with
  | done result | fail error => exact List.prefix_rfl
  | ask request next ih =>
      have hasked := hm.ask request w
      rw [run]
      split
      next heq =>
        rw [heq] at hasked
        exact hasked.trans (ih _ _)
      all_goals
        next heq =>
          rw [heq] at hasked
          exact hasked
  | invoke routine next ih =>
      have hinvoked := routine.calls_grow hm w
      rw [run]
      split
      next heq =>
        rw [heq] at hinvoked
        exact hinvoked.trans (ih _ _)
      all_goals
        next heq =>
          rw [heq] at hinvoked
          exact hinvoked
  | operate operator operands next ih => exact ih _ w
  | record cell result next ih => exact ih (w.keep cell result)
  | log text value next ih => exact ih (w.write (.logged text value))
  | dump tree value next ih =>
      have hdescribed := hm.describe w
      rw [run]
      split
      next host after heq =>
        rw [heq] at hdescribed
        exact hdescribed.trans
          (ih (after.write (.dump tree.formula.text value host (tree.traceLines "  " after))))
      next error _ _ => cases error
      next heq =>
        rw [heq] at hdescribed
        exact hdescribed

end Run

namespace Tree

/-- The boundary makes no calls of its own. -/
theorem calcChecked_calls (m : Machine) (tree : Tree) (asValue : Bool) (w : World) :
    (tree.calcChecked m asValue w).2.calls =
      ((tree.program w.slots asValue).run m w.entered).2.calls := by
  unfold calcChecked World.entered
  simp only
  split <;> cases w.evaluating <;> rfl

theorem compile_calls (tree : Tree) (limit : Nat) (w : World) :
    (tree.compile limit w).2.calls = w.calls := by
  unfold compile tryCompile
  split
  · rfl
  · rfl
  · simp only
    split
    all_goals
      next heq =>
        obtain ⟨-, rfl⟩ := Prod.mk.inj heq
        rfl

end Tree

namespace Machine

theorem ofHost_remembers (host : Host) (levels : Nat) : (ofHost host levels).Remembers := by
  induction levels with
  | zero =>
      constructor
      all_goals intros; exact List.prefix_rfl
  | succ levels ih =>
      -- The call is noted first, and what it leads to is served one level down.
      have hnoted (w : World) (call : Call) : w.calls <+: (w.noteCall call).calls :=
        List.prefix_append w.calls [call]
      constructor
      · intro request w
        exact (hnoted w _).trans ((host.respond w.calls request).calls_grow ih _)
      · intro w
        exact (hnoted w _).trans ((host.describe w.calls).calls_grow ih _)
      · intro formula compiled asValue w
        simp only [ofHost, Tree.calcChecked_calls]
        refine List.IsPrefix.trans ?_ (Program.calls_grow ih _ _)
        cases compiled with
        | false => exact List.prefix_rfl
        | true => exact (Tree.compile_calls _ defaultDepthLimit _).symm ▸ List.prefix_rfl

/-- A question is received first, and then whatever is asked in order to answer it. -/
theorem requests_ask (host : Host) (levels : Nat) (request : Request) (w : World) :
    ∃ nested, ((ofHost host (levels + 1)).ask request w).2.requests =
      w.requests ++ request :: nested := by
  obtain ⟨nested, hnested⟩ := (host.respond w.calls request).calls_grow
    (ofHost_remembers host levels) (w.noteCall (.request request))
  refine ⟨nested.filterMap Call.request?, ?_⟩
  have hreceived : ((ofHost host (levels + 1)).ask request w).2.requests =
      (w.noteCall (.request request)).requests ++ nested.filterMap Call.request? := by
    rw [World.requests, World.requests, ← List.filterMap_append, hnested]
    rfl
  rw [hreceived, World.requests_noteCall, List.append_assoc]
  rfl

end Machine

end Formulary
