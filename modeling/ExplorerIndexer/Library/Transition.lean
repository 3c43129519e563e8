import Mathlib.Data.List.Basic
import Mathlib.Data.Nat.Init

/-!
# Labelled transition systems

A system has initial states and a partial step function: a label that is not enabled in a state
gives no successor. All choices of the environment are in the labels, so a list of labels is a
schedule and a run is a computation that can be evaluated.

## Main definitions

* `TransitionSystem.run` — a whole schedule
* `TransitionSystem.Reachable` — the states that schedules lead to from the initial ones
* `TransitionSystem.AllSteps` — a condition on every step a schedule takes
* `TransitionSystem.Execution` — a run seen moment by moment, with pauses

## Main results

* `run_invariant`, `run_relation` — what steps preserve, runs preserve
* `Execution.run_of_le` — between two moments of an execution lies a run
* `AllSteps.invariant` — what steps that meet a condition preserve, their schedules preserve
-/

/-- A transition system with labels `α` over states `σ`. -/
structure TransitionSystem (σ α : Type*) where
  /-- Where a run may start. -/
  init : σ → Prop
  /-- The successor under a label, when the label is enabled. -/
  step : σ → α → Option σ

namespace TransitionSystem

variable {σ α : Type*} (S : TransitionSystem σ α)

/-- Follow a schedule; `none` when some label of it is not enabled. -/
def run : σ → List α → Option σ
  | s, [] => some s
  | s, a :: as => (S.step s a).bind fun s' => run s' as

@[simp] theorem run_nil (s : σ) : S.run s [] = some s := rfl

theorem run_cons (s : σ) (a : α) (as : List α) :
    S.run s (a :: as) = (S.step s a).bind fun s' => S.run s' as := rfl

theorem run_cons_eq_some {s u : σ} {a : α} {as : List α} :
    S.run s (a :: as) = some u ↔ ∃ t, S.step s a = some t ∧ S.run t as = some u := by
  rw [run_cons, Option.bind_eq_some_iff]

theorem run_append (s : σ) (as bs : List α) :
    S.run s (as ++ bs) = (S.run s as).bind fun t => S.run t bs := by
  induction as generalizing s with
  | nil => rfl
  | cons a as ih =>
    rw [List.cons_append, run_cons, run_cons, Option.bind_assoc]
    exact congrArg _ (funext ih)

/-- A state some schedule leads to. -/
inductive Reachable : σ → Prop where
  /-- A run may start here. -/
  | init {s : σ} (h : S.init s) : Reachable s
  /-- One more step. -/
  | step {s t : σ} {a : α} (hs : Reachable s) (ht : S.step s a = some t) : Reachable t

variable {S}

theorem Reachable.trans_run {s t : σ} {as : List α} (h : S.Reachable s)
    (hr : S.run s as = some t) : S.Reachable t := by
  induction as generalizing s with
  | nil => cases hr; exact h
  | cons a as ih =>
    obtain ⟨u, hu, hr⟩ := (run_cons_eq_some S).mp hr
    exact ih (h.step hu) hr

/-- What every step preserves, every run preserves. -/
theorem run_invariant {P : σ → Prop} (hstep : ∀ s a t, P s → S.step s a = some t → P t)
    {as : List α} {s t : σ} (hr : S.run s as = some t) (hs : P s) : P t := by
  induction as generalizing s with
  | nil => cases hr; exact hs
  | cons a as ih =>
    obtain ⟨u, hu, hr⟩ := (run_cons_eq_some S).mp hr
    exact ih hr (hstep s a u hs hu)

/-- A reflexive and transitive relation between the two ends of a step holds between the two ends
of a run, given an invariant under which the steps satisfy it. -/
theorem run_relation {P : σ → Prop} {R : σ → σ → Prop} (hrefl : ∀ s, R s s)
    (htrans : ∀ s t u, R s t → R t u → R s u) (hinv : ∀ s a t, P s → S.step s a = some t → P t)
    (hstep : ∀ s a t, P s → S.step s a = some t → R s t)
    {as : List α} {s t : σ} (hr : S.run s as = some t) (hs : P s) : R s t := by
  induction as generalizing s with
  | nil => cases hr; exact hrefl _
  | cons a as ih =>
    obtain ⟨u, hu, hr⟩ := (run_cons_eq_some S).mp hr
    exact htrans s u t (hstep s a u hs hu) (ih hr (hinv s a u hs hu))

variable (S) in
/-- The states of a run at all moments: one step, or none, from each to the next. -/
structure Execution where
  /-- The state at a moment. -/
  states : ℕ → σ
  reachable : S.Reachable (states 0)
  step : ∀ n, states (n + 1) = states n ∨ ∃ a, S.step (states n) a = some (states (n + 1))

namespace Execution

variable (e : S.Execution)

/-- Between two moments lies a run. -/
theorem run_of_le {i j : ℕ} (h : i ≤ j) : ∃ as, S.run (e.states i) as = some (e.states j) := by
  induction j, h using Nat.le_induction with
  | base => exact ⟨[], rfl⟩
  | succ j _ ih =>
    obtain ⟨as, has⟩ := ih
    rcases e.step j with hstay | ⟨a, ha⟩
    · exact ⟨as, by rw [hstay, has]⟩
    · refine ⟨as ++ [a], ?_⟩
      rw [run_append, has]
      exact (run_cons_eq_some S).mpr ⟨_, ha, rfl⟩

theorem reachable_states (n : ℕ) : S.Reachable (e.states n) := by
  obtain ⟨as, has⟩ := e.run_of_le (Nat.zero_le n)
  exact e.reachable.trans_run has

end Execution

variable (S) in
/-- The state after the first `n` labels of a schedule; the run stays where a label is not enabled
and where the schedule ends. -/
def path : σ → List α → ℕ → σ
  | s, _, 0 => s
  | s, [], _ => s
  | s, a :: as, n + 1 => (S.step s a).elim s fun t => path t as n

theorem path_succ (s : σ) (as : List α) (n : ℕ) : S.path s as (n + 1) = S.path s as n ∨
    ∃ a, S.step (S.path s as n) a = some (S.path s as (n + 1)) := by
  induction as generalizing s n with
  | nil => cases n <;> exact Or.inl rfl
  | cons a as ih =>
    cases ha : S.step s a with
    | none => cases n <;> exact Or.inl (by simp [path, ha])
    | some t =>
      cases n with
      | zero => exact Or.inr ⟨a, by simp [path, ha]⟩
      | succ n => simpa [path, ha] using ih t n

/-- The execution of a schedule. -/
def Execution.ofSchedule {s : σ} (hs : S.Reachable s) (as : List α) : S.Execution where
  states := S.path s as
  reachable := by rwa [show S.path s as 0 = s by cases as <;> rfl]
  step := path_succ s as

variable (S) in
/-- Every step the schedule takes satisfies `c`, in the state it is taken in. -/
def AllSteps (c : σ → α → Prop) : σ → List α → Prop
  | _, [] => True
  | s, a :: as => c s a ∧ ∀ t, S.step s a = some t → AllSteps c t as

instance decidableAllSteps {c : σ → α → Prop} [∀ s a, Decidable (c s a)] :
    ∀ s as, Decidable (S.AllSteps c s as)
  | _, [] => .isTrue trivial
  | s, a :: as =>
    match h : S.step s a with
    | none => decidable_of_iff (c s a) ⟨fun hc => ⟨hc, by simp [h]⟩, And.left⟩
    | some t =>
      have := decidableAllSteps (c := c) t as
      decidable_of_iff (c s a ∧ S.AllSteps c t as) (by simp [AllSteps, h])

theorem AllSteps.of_forall {c : σ → α → Prop} {as : List α} (h : ∀ a ∈ as, ∀ s, c s a) (s : σ) :
    S.AllSteps c s as := by
  induction as generalizing s with
  | nil => trivial
  | cons a as ih =>
    exact ⟨h a List.mem_cons_self s, fun t _ => ih (fun b hb => h b (List.mem_cons_of_mem a hb)) t⟩

/-- An invariant that only the steps satisfying `c` preserve holds along the schedules all of whose
steps do. -/
theorem AllSteps.invariant {c : σ → α → Prop} {P : σ → Prop}
    (hstep : ∀ s a t, P s → c s a → S.step s a = some t → P t) {as : List α} {s t : σ}
    (hc : S.AllSteps c s as) (hr : S.run s as = some t) (hs : P s) : P t := by
  induction as generalizing s with
  | nil => cases hr; exact hs
  | cons a as ih =>
    obtain ⟨u, hu, hr⟩ := (run_cons_eq_some S).mp hr
    exact ih (hc.2 u hu) hr (hstep s a u hs hc.1 hu)

end TransitionSystem
