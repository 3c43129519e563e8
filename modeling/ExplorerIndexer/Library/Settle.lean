import ExplorerIndexer.Library.Transition
import Mathlib.Order.WellFounded

/-!
# Runs that come to rest

Some steps of a system are its own and others are its environment's. When the environment is still
and its own steps decrease something well founded, the system comes to rest: no schedule of its own
steps goes on for ever, and each can be continued to a state that enables none. What a state of rest
looks like is then a question about one state.

## Main definitions

* `TransitionSystem.After` — one step that satisfies a condition
* `TransitionSystem.AtRest` — no step that satisfies a condition is enabled

## Main results

* `wellFounded_after` — steps that decrease a measure
* `exists_run_atRest`, `not_after_forever` — they come to rest, and never go on for ever
-/

namespace TransitionSystem

variable {σ α β : Type*} (S : TransitionSystem σ α) (c : σ → α → Prop)

/-- `t` is one step after `s`, by a label that satisfies `c` in `s`. -/
def After (t s : σ) : Prop := ∃ a, c s a ∧ S.step s a = some t

/-- No label that satisfies `c` is enabled. -/
def AtRest (s : σ) : Prop := ∀ a, c s a → S.step s a = none

variable {S c}

/-- **Steps that decrease a measure are well founded.** -/
theorem wellFounded_after {r : β → β → Prop} (hr : WellFounded r) (measure : σ → β)
    (h : ∀ s a t, c s a → S.step s a = some t → r (measure t) (measure s)) :
    WellFounded (S.After c) :=
  (InvImage.wf measure hr).mono fun t s ⟨a, hc, hstep⟩ => h s a t hc hstep

theorem not_atRest {s : σ} (h : ¬ S.AtRest c s) : ∃ a t, c s a ∧ S.step s a = some t := by
  simp only [AtRest, not_forall] at h
  obtain ⟨a, hc, hstep⟩ := h
  obtain ⟨t, ht⟩ := Option.ne_none_iff_exists'.mp hstep
  exact ⟨a, t, hc, ht⟩

/-- **Each schedule can be continued until the system is at rest.** -/
theorem exists_run_atRest (h : WellFounded (S.After c)) (s : σ) :
    ∃ as t, S.AllSteps c s as ∧ S.run s as = some t ∧ S.AtRest c t := by
  induction s using h.induction with
  | _ s ih =>
    by_cases hrest : S.AtRest c s
    · exact ⟨[], s, trivial, rfl, hrest⟩
    · obtain ⟨a, t, hc, ht⟩ := not_atRest hrest
      obtain ⟨as, u, hall, hrun, hu⟩ := ih t ⟨a, hc, ht⟩
      refine ⟨a :: as, u, ⟨hc, fun t' ht' => ?_⟩, ?_, hu⟩
      · cases ht.symm.trans ht'
        exact hall
      · rw [run_cons_eq_some]
        exact ⟨t, ht, hrun⟩

/-- **No schedule goes on for ever.** -/
theorem not_after_forever (h : WellFounded (S.After c)) (states : ℕ → σ) :
    ∃ n, ¬ S.After c (states (n + 1)) (states n) :=
  have : IsWellFounded σ (S.After c) := ⟨h⟩
  WellFounded.not_rel_apply_succ states

end TransitionSystem
