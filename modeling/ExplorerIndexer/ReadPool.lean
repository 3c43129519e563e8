import ExplorerIndexer.Library.Agents
import Mathlib.Data.List.Range

/-!
# The pool of read connections

A request runs its statements inside `ReadPool::with_conn`: wait for a permit, pop a connection on a
blocking thread, run the closure, push the connection back, and drop the permit at the end of the
task. Permits and connections are two resources. A permit is released by a drop guard, on any way
out; a connection goes back by a push, which a closure that unwinds skips.

The mutex around the connections is held for one pop or one push and never while the closure runs,
so it is not poisoned, and a pop or a push is one step.

## Main definitions

* `CallStage.step` — the steps of one call
* `poolSystem` — any number of calls, in any interleaving

## Main results

* `CallStage.Step.conserves` — a step moves permits and connections, and loses a connection only by
  unwinding
* `pool_whole_iff` — while no closure unwinds every call finds a connection; and an idle pool has
  all its connections exactly when no closure has unwound
-/

namespace ExplorerIndexer

def READ_POOL_SIZE : ℕ := 4

/-! ### One call -/

/-- What a call comes to. -/
inductive Outcome where
  /-- The closure returned `Ok`. -/
  | ok
  /-- The closure returned `Err`. -/
  | err
  /-- The closure unwound: the caller gets a `JoinError`. -/
  | panicked
  /-- The error `read pool exhausted`. -/
  | exhausted
  deriving DecidableEq, Repr

/-- Where a call stands. -/
inductive CallStage where
  /-- Waiting for a permit. -/
  | waiting
  /-- A permit is held, and the task is not spawned yet. -/
  | permitted
  /-- The blocking task has not popped a connection yet. -/
  | spawned
  /-- The closure runs on a connection. -/
  | running (conn : ℕ)
  /-- The closure has returned, and the connection is not back yet. -/
  | returned (conn : ℕ) (outcome : Outcome)
  /-- The end of the task: the permit is dropped next. -/
  | leaving (outcome : Outcome)
  | finished (outcome : Outcome)
  /-- The caller was dropped while it waited. -/
  | abandoned
  deriving DecidableEq, Repr

/-- The free permits and the pooled connections, the last one first. `closed` are the connections
that an unwinding closure has dropped. -/
structure ReadPool where
  permits : ℕ
  conns : List ℕ
  closed : List ℕ
  deriving DecidableEq, Repr

/-- A step of a call. The environment decides how the closure ends and when the caller is
dropped. -/
inductive CallAction where
  | acquire
  | spawn
  | pop
  | finish (ok : Bool)
  | unwind
  | push
  | release
  | dropCaller
  deriving DecidableEq, Repr

/-- One step of `with_conn`. A task that has been spawned runs to its end without its caller. -/
def CallStage.step (pool : ReadPool) : CallStage → CallAction → Option (ReadPool × CallStage)
  | .waiting, .acquire =>
    if 0 < pool.permits then some ({ pool with permits := pool.permits - 1 }, .permitted) else none
  | .waiting, .dropCaller => some (pool, .abandoned)
  | .permitted, .spawn => some (pool, .spawned)
  | .spawned, .pop =>
    match pool.conns with
    | conn :: conns => some ({ pool with conns := conns }, .running conn)
    | [] => some (pool, .leaving .exhausted)
  | .running conn, .finish ok => some (pool, .returned conn (if ok then .ok else .err))
  | .running conn, .unwind =>
    some ({ pool with closed := conn :: pool.closed }, .leaving .panicked)
  | .returned conn outcome, .push =>
    some ({ pool with conns := conn :: pool.conns }, .leaving outcome)
  | .leaving outcome, .release =>
    some ({ pool with permits := pool.permits + 1 }, .finished outcome)
  | .spawned, .dropCaller => some (pool, .spawned)
  | .running conn, .dropCaller => some (pool, .running conn)
  | .returned conn outcome, .dropCaller => some (pool, .returned conn outcome)
  | .leaving outcome, .dropCaller => some (pool, .leaving outcome)
  | _, _ => none

/-- The permits a call holds. -/
def CallStage.permits : CallStage → ℕ
  | .waiting | .finished _ | .abandoned => 0
  | .permitted | .spawned | .running _ | .returned .. | .leaving _ => 1

/-- The connections a call holds. -/
def CallStage.conns : CallStage → List ℕ
  | .running conn | .returned conn _ => [conn]
  | .waiting | .permitted | .spawned | .leaving _ | .finished _ | .abandoned => []

/-- What a call comes to, when that is decided. -/
def CallStage.outcome : CallStage → Option Outcome
  | .returned _ outcome | .leaving outcome | .finished outcome => some outcome
  | .waiting | .permitted | .spawned | .running _ | .abandoned => none

/-- A call is in flight until its task has ended or its caller has given up. -/
def CallStage.InFlight : CallStage → Prop
  | .finished _ | .abandoned => False
  | _ => True

/-- A connection is held under a permit. -/
theorem CallStage.length_conns_le (stage : CallStage) : stage.conns.length ≤ stage.permits := by
  cases stage <;> simp [CallStage.conns, CallStage.permits]

theorem CallStage.resources_of_not_inFlight {stage : CallStage} (h : ¬ stage.InFlight) :
    stage.permits = 0 ∧ stage.conns = [] := by
  cases stage with
  | finished | abandoned => exact ⟨rfl, rfl⟩
  | _ => exact absurd trivial h

/-- What a step does to the resources. -/
structure CallStage.Conserves (pool : ReadPool) (stage : CallStage) (action : CallAction)
    (pool' : ReadPool) (stage' : CallStage) : Prop where
  permits : pool'.permits + stage'.permits = pool.permits + stage.permits
  conns : (pool'.closed ++ (pool'.conns ++ stage'.conns)).Perm
    (pool.closed ++ (pool.conns ++ stage.conns))
  /-- A connection is lost by unwinding only. -/
  closed : pool'.closed.length = pool.closed.length + if action = .unwind then 1 else 0
  /-- A call that finds no connection has a permit, and the pool is empty. -/
  exhausted : stage'.outcome = some .exhausted →
    stage.outcome = some .exhausted ∨ stage = .spawned ∧ pool.conns = []

/-- **A step moves permits and connections**, and loses a connection only by unwinding. -/
theorem CallStage.conserves_of_step {pool pool' : ReadPool} {stage stage' : CallStage}
    {action : CallAction} (h : stage.step pool action = some (pool', stage')) :
    CallStage.Conserves pool stage action pool' stage' := by
  unfold CallStage.step at h
  split at h
  · split at h
    · next hpos =>
      cases h
      exact ⟨Nat.sub_add_cancel hpos, .refl _, rfl, fun ho => by cases ho⟩
    · cases h
  · cases h
    exact ⟨rfl, .refl _, rfl, fun ho => by cases ho⟩
  · cases h
    exact ⟨rfl, .refl _, rfl, fun ho => by cases ho⟩
  · split at h
    · next conn conns hconns =>
      cases h
      refine ⟨rfl, ?_, rfl, fun ho => by cases ho⟩
      rw [hconns, CallStage.conns, CallStage.conns, List.append_nil]
      exact (List.perm_append_singleton conn conns).append_left _
    · next hempty =>
      cases h
      exact ⟨rfl, .refl _, rfl, fun _ => Or.inr ⟨rfl, hempty⟩⟩
  · next conn ok =>
    cases h
    exact ⟨rfl, .refl _, rfl, fun ho => by cases ok <;> cases ho⟩
  · next conn =>
    cases h
    refine ⟨rfl, ?_, rfl, fun ho => by cases ho⟩
    rw [CallStage.conns, CallStage.conns, List.append_nil, List.cons_append, ← List.append_assoc]
    exact (List.perm_append_singleton conn _).symm
  · next conn outcome =>
    cases h
    refine ⟨rfl, ?_, rfl, fun ho => Or.inl ho⟩
    rw [CallStage.conns, CallStage.conns, List.append_nil]
    exact (List.perm_append_singleton conn pool.conns).symm.append_left _
  · cases h
    exact ⟨rfl, .refl _, rfl, fun ho => Or.inl ho⟩
  · cases h
    exact ⟨rfl, .refl _, rfl, fun ho => by cases ho⟩
  · cases h
    exact ⟨rfl, .refl _, rfl, fun ho => by cases ho⟩
  · cases h
    exact ⟨rfl, .refl _, rfl, fun ho => Or.inl ho⟩
  · cases h
    exact ⟨rfl, .refl _, rfl, fun ho => Or.inl ho⟩
  · cases h

/-! ### Any number of calls -/

/-- The pool and its calls, in the order they came. -/
structure PoolState where
  pool : ReadPool
  calls : List CallStage
  deriving DecidableEq, Repr

/-- A new call, or a step of the call number `k`. -/
inductive PoolAction where
  | call
  | step (k : ℕ) (action : CallAction)
  deriving DecidableEq, Repr

/-- Calls interleave their steps in any order. -/
def PoolState.step (s : PoolState) : PoolAction → Option PoolState
  | .call => some { s with calls := s.calls ++ [.waiting] }
  | .step k action => do
    let stage ← s.calls[k]?
    let (pool, stage) ← stage.step s.pool action
    some ⟨pool, s.calls.set k stage⟩

/-- `ReadPool::open`: all connections pooled, and a permit for each. -/
def PoolState.opened : PoolState := ⟨⟨READ_POOL_SIZE, List.range READ_POOL_SIZE, []⟩, []⟩

/-- Runs of the pool. -/
def poolSystem : TransitionSystem PoolState PoolAction where
  init s := s = .opened
  step := PoolState.step

/-- No call is in flight. -/
def PoolState.Idle (s : PoolState) : Prop := ∀ stage ∈ s.calls, ¬ stage.InFlight

/-- The actions in which a closure unwinds. -/
def PoolAction.unwinds : PoolAction → Bool
  | .step _ .unwind => true
  | _ => false

/-- Permits and connections are in the pool, or held by calls, or closed. -/
structure PoolInvariant (s : PoolState) : Prop where
  permits : s.pool.permits + (s.calls.map CallStage.permits).sum = READ_POOL_SIZE
  conns : (s.pool.closed ++ (s.pool.conns ++ s.calls.flatMap CallStage.conns)).Perm
    (List.range READ_POOL_SIZE)
  /-- A call came away without a connection only when one had been closed. -/
  exhausted : (∃ stage ∈ s.calls, stage.outcome = some .exhausted) → s.pool.closed ≠ []

variable {s t : PoolState}

/-- The connections held are at most the permits held. -/
theorem length_conns_le (calls : List CallStage) :
    (calls.flatMap CallStage.conns).length ≤ (calls.map CallStage.permits).sum := by
  induction calls with
  | nil => exact le_rfl
  | cons stage calls ih =>
    have hstage := stage.length_conns_le
    rw [List.flatMap_cons, List.length_append, List.map_cons, List.sum_cons]
    omega

/-- **While nothing is closed a call with a permit finds a connection.** -/
theorem PoolInvariant.conns_ne_nil (h : PoolInvariant s) (hclosed : s.pool.closed = []) {k : ℕ}
    (hcall : s.calls[k]? = some .spawned) : s.pool.conns ≠ [] := by
  intro hconns
  obtain ⟨front, back, hcalls, -⟩ := Agents.exists_split hcall
  have hpermits := h.permits
  have hlength := h.conns.length_eq
  have hfront := length_conns_le front
  have hback := length_conns_le back
  rw [hclosed, hconns, hcalls] at hlength
  rw [hcalls] at hpermits
  simp only [List.nil_append, List.flatMap_append, List.flatMap_cons, List.length_append,
    List.length_range, List.map_append, List.map_cons, List.sum_append, List.sum_cons,
    CallStage.conns, CallStage.permits] at hlength hpermits
  omega

/-- The connections of the other calls stand aside. -/
theorem perm_aside (front back closed conns held : List ℕ) :
    (closed ++ (conns ++ (front ++ (held ++ back)))).Perm
      ((closed ++ (conns ++ held)) ++ (front ++ back)) := by
  rw [List.append_assoc, List.append_assoc]
  refine (List.Perm.append_left _ ?_).append_left _
  rw [← List.append_assoc, ← List.append_assoc]
  exact List.perm_append_comm.append_right _

theorem PoolInvariant.called (h : PoolInvariant s) :
    PoolInvariant { s with calls := s.calls ++ [.waiting] } := by
  refine ⟨?_, ?_, fun hex => h.exhausted ?_⟩
  · simpa [CallStage.permits] using h.permits
  · simpa [CallStage.conns] using h.conns
  · obtain ⟨stage, hmem, houtcome⟩ := hex
    rcases List.mem_append.mp hmem with hmem | hmem
    · exact ⟨stage, hmem, houtcome⟩
    · cases List.mem_singleton.mp hmem
      cases houtcome

/-- After a step with nothing closed, a call that came away without a connection is one from before:
the stepping call itself finds one. -/
theorem PoolInvariant.not_exhausted (h : PoolInvariant s) (hclosed : s.pool.closed = []) {k : ℕ}
    {stage stage' : CallStage} {action : CallAction} {pool : ReadPool}
    (hcall : s.calls[k]? = some stage)
    (hconserves : CallStage.Conserves s.pool stage action pool stage') :
    ∀ other ∈ s.calls.set k stage', other.outcome ≠ some .exhausted := by
  have hold : ∀ other ∈ s.calls, other.outcome ≠ some .exhausted := fun other hmem houtcome =>
    h.exhausted ⟨other, hmem, houtcome⟩ hclosed
  intro other hmem houtcome
  rcases List.mem_or_eq_of_mem_set hmem with hmem | rfl
  · exact hold other hmem houtcome
  · rcases hconserves.exhausted houtcome with hsame | ⟨rfl, hempty⟩
    · exact hold stage (List.mem_of_getElem? hcall) hsame
    · exact h.conns_ne_nil hclosed hcall hempty

theorem PoolInvariant.stepped (h : PoolInvariant s) {k : ℕ} {stage stage' : CallStage}
    {action : CallAction} {pool : ReadPool} (hcall : s.calls[k]? = some stage)
    (hconserves : CallStage.Conserves s.pool stage action pool stage') :
    PoolInvariant ⟨pool, s.calls.set k stage'⟩ := by
  obtain ⟨front, back, hcalls, hset⟩ := Agents.exists_split hcall
  have hpermits := h.permits
  have hconns := h.conns
  have hmoved := hconserves.permits
  rw [hcalls, List.map_append, List.map_cons, List.sum_append, List.sum_cons] at hpermits
  rw [hcalls, List.flatMap_append, List.flatMap_cons] at hconns
  refine ⟨?_, ?_, ?_⟩
  · dsimp only
    rw [hset, List.map_append, List.map_cons, List.sum_append, List.sum_cons]
    omega
  · dsimp only
    rw [hset, List.flatMap_append, List.flatMap_cons]
    exact ((perm_aside _ _ _ _ _).trans (hconserves.conns.append_right _)).trans
      ((perm_aside _ _ _ _ _).symm.trans hconns)
  · rintro ⟨other, hmem, houtcome⟩ hclosed
    refine h.not_exhausted ?_ hcall hconserves other hmem houtcome
    have hlength := hconserves.closed
    dsimp only at hclosed
    rw [hclosed, List.length_nil] at hlength
    exact List.length_eq_zero_iff.mp (by omega)

theorem PoolInvariant.step (h : PoolInvariant s) {action : PoolAction}
    (hstep : s.step action = some t) : PoolInvariant t := by
  cases action with
  | call =>
    cases hstep
    exact h.called
  | step k action =>
    obtain ⟨stage, hcall, hstep⟩ := Option.bind_eq_some_iff.mp hstep
    obtain ⟨⟨pool, stage'⟩, hrun, hstep⟩ := Option.bind_eq_some_iff.mp hstep
    cases hstep
    exact h.stepped hcall (CallStage.conserves_of_step hrun)

theorem poolInvariant_opened : PoolInvariant .opened where
  permits := by decide
  conns := .refl _
  exhausted := by rintro ⟨stage, hmem, -⟩; cases hmem

/-- A step closes a connection exactly when a closure unwinds. -/
theorem closed_of_step {action : PoolAction} (hstep : s.step action = some t) :
    t.pool.closed.length = s.pool.closed.length + if action.unwinds then 1 else 0 := by
  cases action with
  | call => cases hstep; rfl
  | step k action =>
    obtain ⟨stage, -, hstep⟩ := Option.bind_eq_some_iff.mp hstep
    obtain ⟨⟨pool, stage'⟩, hrun, hstep⟩ := Option.bind_eq_some_iff.mp hstep
    cases hstep
    rw [(CallStage.conserves_of_step hrun).closed]
    cases action <;> rfl

/-- A run closes one connection for each closure that unwinds. -/
theorem closed_of_run {actions : List PoolAction} (hrun : poolSystem.run s actions = some t) :
    t.pool.closed.length = s.pool.closed.length + actions.countP PoolAction.unwinds := by
  induction actions generalizing s with
  | nil => cases hrun; rfl
  | cons action actions ih =>
    obtain ⟨u, hu, hrun⟩ := (TransitionSystem.run_cons_eq_some poolSystem).mp hrun
    rw [ih hrun, closed_of_step hu, List.countP_cons]
    omega

theorem PoolState.Idle.resources (h : s.Idle) :
    (s.calls.map CallStage.permits).sum = 0 ∧ s.calls.flatMap CallStage.conns = [] := by
  refine ⟨List.sum_eq_zero fun n hn => ?_, List.flatMap_eq_nil_iff.mpr fun stage hmem =>
    (CallStage.resources_of_not_inFlight (h stage hmem)).2⟩
  obtain ⟨stage, hmem, rfl⟩ := List.mem_map.mp hn
  exact (CallStage.resources_of_not_inFlight (h stage hmem)).1

/-- **The pool is never exhausted while no closure unwinds.** Then every call that obtained a permit
finds a connection. In an idle pool all permits are back, whatever happened; and all connections are
back exactly when no closure has unwound. -/
theorem pool_whole_iff {actions : List PoolAction}
    (hrun : poolSystem.run .opened actions = some s) :
    ((∀ action ∈ actions, action.unwinds = false) →
      ∀ stage ∈ s.calls, stage.outcome ≠ some .exhausted) ∧
    (s.Idle → s.pool.permits = READ_POOL_SIZE ∧
      (s.pool.conns.Perm (List.range READ_POOL_SIZE) ↔
        ∀ action ∈ actions, action.unwinds = false)) := by
  have hinv : PoolInvariant s := poolSystem.run_invariant (P := PoolInvariant)
    (fun _ _ _ h hstep => h.step hstep) hrun poolInvariant_opened
  have hcount : s.pool.closed.length = actions.countP PoolAction.unwinds := by
    have hclosed := closed_of_run hrun
    rwa [show PoolState.opened.pool.closed.length = 0 from rfl, Nat.zero_add] at hclosed
  have hclosed : s.pool.closed = [] ↔ ∀ action ∈ actions, action.unwinds = false := by
    rw [← List.length_eq_zero_iff, hcount, List.countP_eq_zero]
    simp
  refine ⟨fun hnone stage hmem houtcome => ?_, fun hidle => ?_⟩
  · exact hinv.exhausted ⟨stage, hmem, houtcome⟩ (hclosed.mpr hnone)
  · obtain ⟨hpermits, hheld⟩ := hidle.resources
    have hconns := hinv.conns
    rw [hheld, List.append_nil] at hconns
    refine ⟨by rw [← hinv.permits, hpermits, Nat.add_zero], ?_⟩
    rw [← hclosed]
    constructor
    · intro hall
      have hlength := hconns.length_eq
      rw [List.length_append, hall.length_eq] at hlength
      exact List.length_eq_zero_iff.mp (by omega)
    · intro hnil
      rwa [hnil, List.nil_append] at hconns

/-- A call whose closure returns, unless it unwinds. -/
def callActions (k : ℕ) (unwinds : Bool) : List PoolAction :=
  .call :: (if unwinds then [.acquire, .spawn, .pop, .unwind, .release]
    else [.acquire, .spawn, .pop, .finish true, .push, .release]).map (.step k)

/-- Four calls, one after the other, whose closures unwind. -/
def unwindActions : List PoolAction := (List.range 4).flatMap (callActions · true)

/-- They leave an idle pool without connections, and the next call is told that the pool is
exhausted. -/
theorem pool_exhausted_after_unwinds :
    (poolSystem.run .opened unwindActions).map PoolState.pool = some ⟨4, [], [3, 2, 1, 0]⟩ ∧
    (poolSystem.run .opened (unwindActions ++ [.call, .step 4 .acquire, .step 4 .spawn,
      .step 4 .pop, .step 4 .release])).map (·.calls[4]?) = some (some (.finished .exhausted)) ∧
    ¬ ∀ actions s, poolSystem.run .opened actions = some s →
      ∀ stage ∈ s.calls, stage.outcome ≠ some .exhausted := by
  have hexhausted : (poolSystem.run .opened (unwindActions ++ [.call, .step 4 .acquire,
      .step 4 .spawn, .step 4 .pop, .step 4 .release])).map (·.calls[4]?) =
        some (some (.finished .exhausted)) := by decide +kernel
  refine ⟨by decide +kernel, hexhausted, fun hall => ?_⟩
  obtain ⟨s, hs, hcall⟩ := Option.map_eq_some_iff.mp hexhausted
  exact hall _ s hs _ (List.mem_of_getElem? hcall) rfl

/-- Three interleaved calls, of which two lose their callers. -/
def interleavedActions : List PoolAction :=
  [.call, .call, .step 0 .acquire, .step 1 .acquire, .step 1 .spawn, .step 1 .pop, .step 0 .spawn,
    .step 1 (.finish false), .step 1 .dropCaller, .step 0 .pop, .call, .step 2 .dropCaller,
    .step 0 (.finish true), .step 0 .push, .step 1 .push, .step 1 .release, .step 0 .release]

/-- They give everything back. -/
theorem pool_whole_interleaved : ∃ s : PoolState,
    poolSystem.run .opened interleavedActions = some s ∧
    (∀ stage ∈ s.calls, stage.outcome ≠ some .exhausted) ∧
    s.pool.permits = READ_POOL_SIZE ∧ s.pool.conns.Perm (List.range READ_POOL_SIZE) := by
  have hrun : (poolSystem.run .opened interleavedActions).map PoolState.calls =
      some [.finished .ok, .finished .err, .abandoned] := by decide +kernel
  have hnone : ∀ action ∈ interleavedActions, action.unwinds = false := by decide
  obtain ⟨s, hs, hcalls⟩ := Option.map_eq_some_iff.mp hrun
  obtain ⟨hfound, hidle⟩ := pool_whole_iff hs
  have hs' : s.Idle := by
    rw [PoolState.Idle, hcalls]
    simp [CallStage.InFlight]
  exact ⟨s, hs, hfound hnone, (hidle hs').1, (hidle hs').2.mpr hnone⟩

end ExplorerIndexer
