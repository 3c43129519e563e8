import ExplorerIndexer.Library.Settle
import Mathlib.Algebra.BigOperators.Group.List.Basic
import Mathlib.Algebra.GroupWithZero.Nat
import Mathlib.Data.List.Forall2

/-!
# Agents that share a resource

Any number of agents of one kind take steps on a resource they share, in any interleaving. A step is
a function of the resource and of the one agent that takes it, so what it does to a total over all
agents is what it does to that agent's part: a quantity that each step moves between the resource
and its agent is conserved, and a quantity that each step takes from its agent decreases.

## Main definitions

* `Agents` — the resource and the agents
* `Agents.system` — any agents may join, and each takes its steps

## Main results

* `step_cases` — one agent and the resource change, and all others stay
* `conserved_of_reachable`, `forall_of_reachable` — totals, and facts about each agent
* `related_of_run` — what an agent's own steps preserve, runs preserve
* `wellFounded_after` — when each step takes from its agent, the agents come to rest
-/

/-- A resource and the agents that share it, in the order they joined. -/
structure Agents (ρ κ : Type*) where
  shared : ρ
  agents : List κ

/-- A new agent joins, or the agent number `k` takes a step. -/
inductive Agents.Label (α : Type*) where
  | join
  | act (k : ℕ) (a : α)
  deriving DecidableEq, Repr

namespace Agents

variable {ρ κ α : Type*}

/-- One step of any of the agents. -/
def step (agent : ρ → κ → α → Option (ρ × κ)) (fresh : κ) (s : Agents ρ κ) :
    Label α → Option (Agents ρ κ)
  | .join => some ⟨s.shared, s.agents ++ [fresh]⟩
  | .act k a =>
    s.agents[k]?.bind fun self =>
      (agent s.shared self a).map fun next => ⟨next.1, s.agents.set k next.2⟩

/-- The runs of agents that share `shared` at first. -/
def system (agent : ρ → κ → α → Option (ρ × κ)) (fresh : κ) (shared : ρ) :
    TransitionSystem (Agents ρ κ) (Label α) where
  init s := s = ⟨shared, []⟩
  step := step agent fresh

/-- The total of a quantity over the agents. -/
def total (q : κ → ℕ) (s : Agents ρ κ) : ℕ := (s.agents.map q).sum

variable {agent : ρ → κ → α → Option (ρ × κ)} {fresh : κ} {shared : ρ} {s t : Agents ρ κ}

/-- Setting one entry of a list leaves the entries before and after it. -/
theorem exists_split {l : List κ} {k : ℕ} {self : κ} (h : l[k]? = some self) :
    ∃ front back, l = front ++ self :: back ∧ ∀ other, l.set k other = front ++ other :: back := by
  obtain ⟨hk, rfl⟩ := List.getElem?_eq_some_iff.mp h
  refine ⟨l.take k, l.drop (k + 1), ?_, fun other => ?_⟩
  · rw [List.getElem_cons_drop, List.take_append_drop]
  · exact List.set_eq_take_append_cons_drop.trans (if_pos hk)

/-- **One agent and the resource change, and all others stay.** -/
theorem step_act {k : ℕ} {a : α}
    (h : (system agent fresh shared).step s (.act k a) = some t) :
    ∃ front self back self', s.agents = front ++ self :: back ∧
      agent s.shared self a = some (t.shared, self') ∧ t.agents = front ++ self' :: back := by
  obtain ⟨self, hself, h⟩ := Option.bind_eq_some_iff.mp h
  obtain ⟨⟨r, self'⟩, hstep, rfl⟩ := Option.map_eq_some_iff.mp h
  obtain ⟨front, back, hagents, hset⟩ := exists_split hself
  exact ⟨front, self, back, self', hagents, hstep, hset self'⟩

theorem total_split (q : κ → ℕ) {front back : List κ} {self : κ}
    (h : s.agents = front ++ self :: back) :
    s.total q = q self + ((front ++ back).map q).sum := by
  simp only [total, h, List.map_append, List.map_cons, List.sum_append, List.sum_cons]
  omega

/-- **What each step moves between the resource and its agent is conserved.** -/
theorem conserved_of_reachable (free : ρ → ℕ) (held : κ → ℕ) (hfresh : held fresh = 0)
    (hstep : ∀ r self a r' self', agent r self a = some (r', self') →
      free r' + held self' = free r + held self)
    (hs : (system agent fresh shared).Reachable s) :
    free s.shared + s.total held = free shared := by
  induction hs with
  | init h =>
    cases h
    rfl
  | @step s t label _ ht ih =>
    cases label with
    | join =>
      cases ht
      simp only [total, List.map_append, List.map_cons, List.map_nil, List.sum_append,
        List.sum_cons, List.sum_nil, hfresh] at ih ⊢
      omega
    | act k a =>
      obtain ⟨front, self, back, self', hagents, hrun, hagents'⟩ := step_act ht
      have hmoved := hstep _ _ _ _ _ hrun
      rw [total_split held hagents] at ih
      rw [total_split held hagents']
      omega

/-- What each step of an agent preserves about it holds of all agents. -/
theorem forall_of_reachable {P : κ → Prop} (hfresh : P fresh)
    (hstep : ∀ r self a r' self', P self → agent r self a = some (r', self') → P self')
    (hs : (system agent fresh shared).Reachable s) : ∀ self ∈ s.agents, P self := by
  induction hs with
  | init h =>
    cases h
    exact fun self hmem => absurd hmem List.not_mem_nil
  | @step s t label _ ht ih =>
    cases label with
    | join =>
      cases ht
      intro self hmem
      rcases List.mem_append.mp hmem with hmem | hmem
      · exact ih self hmem
      · rwa [List.mem_singleton.mp hmem]
    | act k a =>
      obtain ⟨front, self, back, self', hagents, hrun, hagents'⟩ := step_act ht
      rw [hagents] at ih
      rw [hagents']
      intro other hmem
      rcases List.mem_append.mp hmem with hmem | hmem
      · exact ih other (List.mem_append_left _ hmem)
      · rcases List.mem_cons.mp hmem with rfl | hmem
        · exact hstep _ _ _ _ _ (ih self (by simp)) hrun
        · exact ih other (List.mem_append_right _ (List.mem_cons_of_mem _ hmem))

theorem forall₂_trans {R : κ → κ → Prop} (htrans : ∀ x y z, R x y → R y z → R x z)
    {xs ys zs : List κ} (h : List.Forall₂ R xs ys) (h' : List.Forall₂ R ys zs) :
    List.Forall₂ R xs zs := by
  induction h generalizing zs with
  | nil => exact h'
  | cons hxy _ ih =>
    cases h' with
    | cons hyz hrest => exact .cons (htrans _ _ _ hxy hyz) (ih hrest)

/-- The steps of agents that satisfy `c`. -/
def Acts (c : α → Prop) (_ : Agents ρ κ) : Label α → Prop
  | .join => False
  | .act _ a => c a

/-- A reflexive and transitive relation between an agent before and after its own steps holds
between the two ends of a run in which none joins. -/
theorem related_of_run {c : α → Prop} {R : κ → κ → Prop} (hrefl : ∀ self, R self self)
    (htrans : ∀ x y z, R x y → R y z → R x z)
    (hstep : ∀ r self a r' self', c a → agent r self a = some (r', self') → R self self')
    {labels : List (Label α)} (hall : (system agent fresh shared).AllSteps (Acts c) s labels)
    (hrun : (system agent fresh shared).run s labels = some t) :
    List.Forall₂ R s.agents t.agents := by
  induction labels generalizing s with
  | nil =>
    cases hrun
    exact List.forall₂_same.mpr fun self _ => hrefl self
  | cons label labels ih =>
    obtain ⟨u, hu, hrun⟩ := (TransitionSystem.run_cons_eq_some _).mp hrun
    have hrest := ih (hall.2 u hu) hrun
    cases label with
    | join => exact hall.1.elim
    | act k a =>
      obtain ⟨front, self, back, self', hagents, hself, hagents'⟩ := step_act hu
      rw [hagents'] at hrest
      rw [hagents]
      refine forall₂_trans (R := R) htrans ?_ hrest
      refine List.rel_append (List.forall₂_same.mpr fun other _ => hrefl other) ?_
      exact .cons (hstep _ _ _ _ _ hall.1 hself) (List.forall₂_same.mpr fun other _ => hrefl other)

/-- **Agents whose steps take from them come to rest.** -/
theorem wellFounded_after {c : α → Prop} {weight : κ → ℕ}
    (hstep : ∀ r self a r' self', agent r self a = some (r', self') → weight self' < weight self) :
    WellFounded ((system agent fresh shared).After (Acts c)) := by
  refine TransitionSystem.wellFounded_after (r := fun a b : ℕ => a < b) wellFounded_lt
    (total weight) ?_
  intro s label t hc ht
  cases label with
  | join => exact hc.elim
  | act k a =>
    obtain ⟨front, self, back, self', hagents, hrun, hagents'⟩ := step_act ht
    have hless := hstep _ _ _ _ _ hrun
    rw [total_split weight hagents, total_split weight hagents']
    omega

/-- At rest, no agent can take a step. -/
theorem eq_none_of_atRest {c : α → Prop} (h : (system agent fresh shared).AtRest (Acts c) s)
    {self : κ} (hmem : self ∈ s.agents) {a : α} (ha : c a) : agent s.shared self a = none := by
  obtain ⟨k, hk, rfl⟩ := List.getElem_of_mem hmem
  have hnone : s.step agent fresh (.act k a) = none := h (.act k a) ha
  rw [step, List.getElem?_eq_getElem hk, Option.bind_some] at hnone
  exact Option.map_eq_none_iff.mp hnone

end Agents
