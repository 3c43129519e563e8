import ExplorerIndexer.Library.Agents
import ExplorerIndexer.NodeReads

/-!
# Blocking reads of the node

Every read of the node's databases goes through `NodeReader::read`: wait for one of the permits,
move it into a closure on the blocking pool, and wait for the closure's reply. The permit travels
with the closure, so it comes back when the closure is over, whether its caller is still there or
not, and whether it returned or unwound.

A read is two parties with a channel between them. The closure sends its reply before its permit is
dropped, so a caller may be answered while the pool is still occupied. A caller can only be dropped
where it waits: for the permit, which it may have been assigned without having been polled yet, or
for the reply. The runtime may drop a closure that it has not started.

The semaphore is never closed. It hands permits out in the order of the requests; here, any caller
that waits may be next.

## Main definitions

* `NodeRead.step` — the steps of one read
* `nodeReads` — any number of reads, in any interleaving

## Main results

* `NodeRead.conserves_of_step` — a step moves a permit, and loses none
* `node_reads_bounded` — never more than `MAX_CONCURRENT_NODE_READS` closures, no permit is lost,
  and a caller is answered by its own closure or by its end, never turned away
* `node_reads_drain` — every caller that waits is answered, however the closures end
-/

namespace ExplorerIndexer

open Agents (Acts)

def MAX_CONCURRENT_NODE_READS : ℕ := 64

/-! ### One read -/

section Read

variable {β : Type}

/-- What the caller receives: what the closure returned, or `RecvError` when the closure unwound or
was dropped. -/
inductive Reply (β : Type) where
  | sent (result : Except Report β)
  | closed

/-- Where the closure of a read stands. -/
inductive BlockingTask (β : Type) where
  /-- `acquire_owned` waits. -/
  | acquiring
  /-- The semaphore has assigned a permit, and the closure is not spawned yet. -/
  | granted
  /-- Spawned, not started. -/
  | queued
  | running
  /-- The reply is sent, or its channel is closed; the permit is dropped next. -/
  | ending (reply : Reply β)
  | ended (reply : Reply β)
  /-- The caller was dropped before the closure was spawned. -/
  | withdrawn

/-- Where the caller of a read stands. -/
inductive Caller (β : Type) where
  | awaits
  | answered (reply : Reply β)
  | gone

/-- A read: the closure and its caller. -/
structure NodeRead (β : Type) where
  task : BlockingTask β
  caller : Caller β

/-- A step of a read. The environment decides what the closure returns, and when the caller is
dropped. -/
inductive ReadAction (β : Type) where
  | grant
  | spawn
  | start
  /-- The runtime drops the closure, unstarted, with its permit and its end of the channel. -/
  | discard
  | finish (result : Except Report β)
  | unwind
  /-- The permit is dropped. -/
  | release
  | receive
  | dropCaller

/-- The reply, when it is there. -/
def BlockingTask.reply : BlockingTask β → Option (Reply β)
  | .ending reply | .ended reply => some reply
  | .acquiring | .granted | .queued | .running | .withdrawn => none

/-- One step of a read, with the free permits. -/
def NodeRead.step (permits : ℕ) (r : NodeRead β) : ReadAction β → Option (ℕ × NodeRead β)
  | .grant =>
    match r.task with
    | .acquiring => if 0 < permits then some (permits - 1, { r with task := .granted }) else none
    | _ => none
  | .spawn =>
    match r.task with
    | .granted => some (permits, { r with task := .queued })
    | _ => none
  | .start =>
    match r.task with
    | .queued => some (permits, { r with task := .running })
    | _ => none
  | .discard =>
    match r.task with
    | .queued => some (permits + 1, { r with task := .ended .closed })
    | _ => none
  | .finish result =>
    match r.task with
    | .running => some (permits, { r with task := .ending (.sent result) })
    | _ => none
  | .unwind =>
    match r.task with
    | .running => some (permits, { r with task := .ending .closed })
    | _ => none
  | .release =>
    match r.task with
    | .ending reply => some (permits + 1, { r with task := .ended reply })
    | _ => none
  | .receive =>
    match r.caller with
    | .awaits => r.task.reply.map fun reply => (permits, { r with caller := .answered reply })
    | _ => none
  | .dropCaller =>
    match r.caller, r.task with
    | .awaits, .acquiring => some (permits, ⟨.withdrawn, .gone⟩)
    | .awaits, .granted => some (permits + 1, ⟨.withdrawn, .gone⟩)
    | .awaits, task => some (permits, ⟨task, .gone⟩)
    | _, _ => none

/-- A new read. -/
def NodeRead.fresh : NodeRead β := ⟨.acquiring, .awaits⟩

/-- The permits a read holds. -/
def NodeRead.permits (r : NodeRead β) : ℕ :=
  match r.task with
  | .granted | .queued | .running | .ending _ => 1
  | .acquiring | .ended _ | .withdrawn => 0

/-- The closure is on the blocking pool. -/
def NodeRead.onPool (r : NodeRead β) : Bool :=
  match r.task with
  | .queued | .running | .ending _ => true
  | .acquiring | .granted | .ended _ | .withdrawn => false

/-- The steps that are left. -/
def NodeRead.weight (r : NodeRead β) : ℕ :=
  (match r.task with
    | .acquiring => 6
    | .granted => 5
    | .queued => 4
    | .running => 3
    | .ending _ => 2
    | .ended _ => 1
    | .withdrawn => 0) +
  match r.caller with
  | .awaits => 1
  | .answered _ | .gone => 0

/-- What holds of a read at any time: an answer is the reply of its own closure, and until the
closure is spawned its caller waits. -/
structure NodeRead.Valid (r : NodeRead β) : Prop where
  answered : ∀ reply, r.caller = .answered reply → r.task.reply = some reply
  waits : r.task = .acquiring ∨ r.task = .granted → r.caller = .awaits
  withdrawn : r.task = .withdrawn → r.caller = .gone

/-- What a step does to a read. -/
structure NodeRead.Conserves (permits : ℕ) (r : NodeRead β) (action : ReadAction β) (permits' : ℕ)
    (r' : NodeRead β) : Prop where
  permits : permits' + r'.permits = permits + r.permits
  weight : r'.weight < r.weight
  valid : r.Valid → r'.Valid
  /-- Only `dropCaller` drops a caller. -/
  caller : action ≠ .dropCaller → r'.caller = .gone → r.caller = .gone

/-- **A step moves a permit, and loses none.** -/
theorem NodeRead.conserves_of_step {permits permits' : ℕ} {r r' : NodeRead β}
    {action : ReadAction β} (h : r.step permits action = some (permits', r')) :
    NodeRead.Conserves permits r action permits' r' := by
  obtain ⟨task, caller⟩ := r
  cases action with
  | grant =>
    cases task with
    | acquiring =>
      simp only [NodeRead.step] at h
      split at h
      · next hpos =>
        cases h
        refine ⟨Nat.sub_add_cancel hpos, ?_, fun hv => ⟨fun reply ha => ?_, fun _ => ?_, nofun⟩,
          fun _ hg => hg⟩
        · exact Nat.add_lt_add_right (show 5 < 6 by decide) _
        · cases (hv.waits (Or.inl rfl)).symm.trans ha
        · exact hv.waits (Or.inl rfl)
      · cases h
    | _ => cases h
  | spawn =>
    cases task with
    | granted =>
      cases h
      refine ⟨rfl, ?_, fun hv => ⟨fun reply ha => ?_, nofun, nofun⟩, fun _ hg => hg⟩
      · exact Nat.add_lt_add_right (show 4 < 5 by decide) _
      · cases (hv.waits (Or.inr rfl)).symm.trans ha
    | _ => cases h
  | start =>
    cases task with
    | queued =>
      cases h
      refine ⟨rfl, ?_, fun hv => ⟨fun reply ha => ?_, nofun, nofun⟩, fun _ hg => hg⟩
      · exact Nat.add_lt_add_right (show 3 < 4 by decide) _
      · cases hv.answered reply ha
    | _ => cases h
  | discard =>
    cases task with
    | queued =>
      cases h
      refine ⟨rfl, ?_, fun hv => ⟨fun reply ha => ?_, nofun, nofun⟩, fun _ hg => hg⟩
      · exact Nat.add_lt_add_right (show 1 < 4 by decide) _
      · cases hv.answered reply ha
    | _ => cases h
  | finish result =>
    cases task with
    | running =>
      cases h
      refine ⟨rfl, ?_, fun hv => ⟨fun reply ha => ?_, nofun, nofun⟩, fun _ hg => hg⟩
      · exact Nat.add_lt_add_right (show 2 < 3 by decide) _
      · cases hv.answered reply ha
    | _ => cases h
  | unwind =>
    cases task with
    | running =>
      cases h
      refine ⟨rfl, ?_, fun hv => ⟨fun reply ha => ?_, nofun, nofun⟩, fun _ hg => hg⟩
      · exact Nat.add_lt_add_right (show 2 < 3 by decide) _
      · cases hv.answered reply ha
    | _ => cases h
  | release =>
    cases task with
    | ending reply =>
      cases h
      refine ⟨rfl, ?_, fun hv => ⟨hv.answered, nofun, nofun⟩, fun _ hg => hg⟩
      exact Nat.add_lt_add_right (show 1 < 2 by decide) _
    | _ => cases h
  | receive =>
    cases caller with
    | awaits =>
      obtain ⟨reply, hreply, heq⟩ := Option.map_eq_some_iff.mp h
      cases heq
      refine ⟨rfl, Nat.lt_succ_self _, fun hv => ⟨fun other ha => ?_, fun ht => ?_, fun ht => ?_⟩,
        nofun⟩
      · cases ha
        exact hreply
      · rcases ht with rfl | rfl <;> cases hreply
      · obtain rfl : task = .withdrawn := ht
        cases hreply
    | _ => cases h
  | dropCaller =>
    cases caller with
    | awaits =>
      cases task with
      | acquiring | granted =>
        cases h
        refine ⟨rfl, by show 0 < _; exact Nat.succ_pos _, fun _ => ⟨nofun, ?_, fun _ => rfl⟩,
          fun hne => absurd rfl hne⟩
        rintro (ht | ht) <;> cases ht
      | _ =>
        cases h
        refine ⟨rfl, Nat.lt_succ_self _, fun _ => ⟨nofun, ?_, fun _ => rfl⟩,
          fun hne => absurd rfl hne⟩
        rintro (ht | ht) <;> cases ht
    | _ => cases h

end Read


/-! ### All reads -/

section Reads

variable {β : Type} {s t : Agents ℕ (NodeRead β)}

/-- Any number of reads, over one semaphore. -/
def nodeReads (β : Type) : TransitionSystem (Agents ℕ (NodeRead β)) (Agents.Label (ReadAction β)) :=
  Agents.system NodeRead.step NodeRead.fresh MAX_CONCURRENT_NODE_READS

theorem NodeRead.valid_fresh : (NodeRead.fresh : NodeRead β).Valid := ⟨nofun, fun _ => rfl, nofun⟩

theorem valid_of_reachable (hs : (nodeReads β).Reachable s) : ∀ r ∈ s.agents, r.Valid :=
  Agents.forall_of_reachable NodeRead.valid_fresh
    (fun _ _ _ _ _ hv h => (NodeRead.conserves_of_step h).valid hv) hs

theorem permits_of_reachable (hs : (nodeReads β).Reachable s) :
    s.shared + s.total NodeRead.permits = MAX_CONCURRENT_NODE_READS :=
  Agents.conserved_of_reachable id NodeRead.permits rfl
    (fun _ _ _ _ _ h => (NodeRead.conserves_of_step h).permits) hs

/-- A closure on the pool holds a permit. -/
theorem NodeRead.countP_onPool_le (reads : List (NodeRead β)) :
    reads.countP NodeRead.onPool ≤ (reads.map NodeRead.permits).sum := by
  induction reads with
  | nil => exact Nat.le_refl 0
  | cons r reads ih =>
    have hone : (if r.onPool then 1 else 0) ≤ r.permits := by
      obtain ⟨task, caller⟩ := r
      cases task <;> simp [NodeRead.onPool, NodeRead.permits]
    rw [List.countP_cons, List.map_cons, List.sum_cons]
    omega

/-- A read without a permit, which the semaphore need not serve any more. -/
def NodeRead.Over (r : NodeRead β) : Prop :=
  r.task = .withdrawn ∨ ∃ reply, r.task = .ended reply

theorem NodeRead.Over.permits {r : NodeRead β} (h : r.Over) : r.permits = 0 := by
  rcases h with h | ⟨reply, h⟩ <;> rw [NodeRead.permits, h]

/-- **The pool is bounded, and no permit is lost.** In every interleaving, with clients that
disconnect anywhere and closures that unwind or are never run: the free permits and those the reads
hold are all there are, so no more than that many closures are on the pool, and when all reads are
over every permit is free. A caller that is answered has the reply of its own closure. -/
theorem node_reads_bounded (hs : (nodeReads β).Reachable s) :
    s.shared + s.total NodeRead.permits = MAX_CONCURRENT_NODE_READS ∧
      s.agents.countP NodeRead.onPool ≤ MAX_CONCURRENT_NODE_READS ∧
      ((∀ r ∈ s.agents, r.Over) → s.shared = MAX_CONCURRENT_NODE_READS) ∧
      ∀ r ∈ s.agents, ∀ reply, r.caller = .answered reply →
        r.task = .ending reply ∨ r.task = .ended reply := by
  have hpermits := permits_of_reachable hs
  refine ⟨hpermits, ?_, fun hover => ?_, fun r hr reply hcaller => ?_⟩
  · have hpool := NodeRead.countP_onPool_le s.agents
    rw [Agents.total] at hpermits
    omega
  · have hzero : s.total NodeRead.permits = 0 := by
      refine List.sum_eq_zero fun n hn => ?_
      obtain ⟨r, hr, rfl⟩ := List.mem_map.mp hn
      exact (hover r hr).permits
    omega
  · have hreply := (valid_of_reachable hs r hr).answered reply hcaller
    cases htask : r.task with
    | ending other =>
      rw [htask] at hreply
      cases hreply
      exact Or.inl rfl
    | ended other =>
      rw [htask] at hreply
      cases hreply
      exact Or.inr rfl
    | _ => rw [htask] at hreply; cases hreply

/-- One more read than there are permits: all but the last are spawned, and the caller of the first
is gone. -/
def overload : List (Agents.Label (ReadAction Unit)) :=
  List.replicate (MAX_CONCURRENT_NODE_READS + 1) .join ++
    (List.range MAX_CONCURRENT_NODE_READS).flatMap (fun k => [.act k .grant, .act k .spawn]) ++
    [.act 0 .dropCaller]

theorem overload_run : ∃ s, (nodeReads Unit).run ⟨MAX_CONCURRENT_NODE_READS, []⟩ overload = some s ∧
    s.agents.length = MAX_CONCURRENT_NODE_READS + 1 ∧ s.agents.countP NodeRead.onPool =
      MAX_CONCURRENT_NODE_READS := by
  have hrun : ((nodeReads Unit).run ⟨MAX_CONCURRENT_NODE_READS, []⟩ overload).map
      (fun s => (s.agents.length, s.agents.countP NodeRead.onPool)) = some (65, 64) := by
    decide +kernel
  obtain ⟨s, hs, heq⟩ := Option.map_eq_some_iff.mp hrun
  exact ⟨s, hs, congrArg Prod.fst heq, congrArg Prod.snd heq⟩

/-- The pool is full, and no permit is free. -/
theorem node_reads_bounded_overload : ∃ s,
    (nodeReads Unit).run ⟨MAX_CONCURRENT_NODE_READS, []⟩ overload = some s ∧
      s.agents.countP NodeRead.onPool = MAX_CONCURRENT_NODE_READS ∧ s.shared = 0 := by
  obtain ⟨s, hrun, -, hpool⟩ := overload_run
  obtain ⟨hpermits, -⟩ := node_reads_bounded (TransitionSystem.Reachable.trans_run (.init rfl) hrun)
  have hle := NodeRead.countP_onPool_le s.agents
  rw [Agents.total] at hpermits
  exact ⟨s, hrun, hpool, by omega⟩

/-- A step that is not a client's disconnect. -/
def ReadAction.Stays (action : ReadAction β) : Prop := action ≠ .dropCaller

/-- A read that can take no step of its own is over, unless it waits for a permit. -/
theorem NodeRead.over_of_rest {r : NodeRead β} {permits : ℕ}
    (hrest : ∀ action : ReadAction β, action.Stays → r.step permits action = none) :
    r.Over ∨ r.task = .acquiring ∧ permits = 0 := by
  obtain ⟨task, caller⟩ := r
  cases task with
  | acquiring =>
    right
    refine ⟨rfl, Nat.eq_zero_of_not_pos fun hpos => ?_⟩
    have hnone := hrest .grant nofun
    simp [NodeRead.step, hpos] at hnone
  | granted => exact nomatch hrest .spawn nofun
  | queued => exact nomatch hrest .start nofun
  | running => exact nomatch hrest .unwind nofun
  | ending reply => exact nomatch hrest .release nofun
  | ended reply => exact Or.inl (Or.inr ⟨reply, rfl⟩)
  | withdrawn => exact Or.inl (Or.inl rfl)

/-- A caller that waits and can take no step waits for a closure that has not ended. -/
theorem NodeRead.answered_of_rest {r : NodeRead β} {permits : ℕ} (hv : r.Valid) (hover : r.Over)
    (hrest : ∀ action : ReadAction β, action.Stays → r.step permits action = none) :
    r.caller = .gone ∨ ∃ reply, r.caller = .answered reply ∧ r.task = .ended reply := by
  rcases hover with htask | ⟨reply, htask⟩
  · exact Or.inl (hv.withdrawn htask)
  · cases hcaller : r.caller with
    | gone => exact Or.inl rfl
    | answered other =>
      have hreply := hv.answered other hcaller
      rw [htask] at hreply
      cases hreply
      exact Or.inr ⟨_, rfl, htask⟩
    | awaits =>
      have hnone := hrest .receive nofun
      simp [NodeRead.step, hcaller, htask, BlockingTask.reply] at hnone

/-- **Overload queues, and the queue drains.** Let no new read begin. The reads take finitely many
steps, and come to rest; where they rest, every permit is free and every caller that had not
disconnected before, and does not, is answered by the end of its closure. -/
theorem node_reads_drain (hs : (nodeReads β).Reachable s) :
    (∀ states : ℕ → Agents ℕ (NodeRead β),
      ∃ k, ¬ (nodeReads β).After (Acts fun _ => True) (states (k + 1)) (states k)) ∧
    (∃ schedule t, (nodeReads β).AllSteps (Acts ReadAction.Stays) s schedule ∧
      (nodeReads β).run s schedule = some t ∧
      (nodeReads β).AtRest (Acts ReadAction.Stays) t) ∧
    ∀ schedule t, (nodeReads β).AllSteps (Acts ReadAction.Stays) s schedule →
      (nodeReads β).run s schedule = some t → (nodeReads β).AtRest (Acts ReadAction.Stays) t →
      t.shared = MAX_CONCURRENT_NODE_READS ∧
        List.Forall₂ (fun r r' : NodeRead β => r.caller = .gone ∧ r'.caller = .gone ∨
          ∃ reply, r'.caller = .answered reply ∧ r'.task = .ended reply) s.agents t.agents := by
  have hwf : ∀ c : ReadAction β → Prop, WellFounded ((nodeReads β).After (Acts c)) := fun c =>
    Agents.wellFounded_after fun _ _ _ _ _ h => (NodeRead.conserves_of_step h).weight
  refine ⟨TransitionSystem.not_after_forever (hwf _), TransitionSystem.exists_run_atRest (hwf _) s,
    fun schedule t hall hrun hrest => ?_⟩
  have ht := hs.trans_run hrun
  have hown : ∀ r ∈ t.agents, ∀ action : ReadAction β, action.Stays →
      r.step t.shared action = none := fun r hr action hstays =>
    Agents.eq_none_of_atRest hrest hr hstays
  have hpermits := permits_of_reachable ht
  -- no read at rest holds a permit, so all of them are free, and none waits for one
  have hzero : t.total NodeRead.permits = 0 := by
    refine List.sum_eq_zero fun n hn => ?_
    obtain ⟨r, hr, rfl⟩ := List.mem_map.mp hn
    rcases NodeRead.over_of_rest (hown r hr) with hover | ⟨htask, -⟩
    · exact hover.permits
    · rw [NodeRead.permits, htask]
  have hfree : t.shared = MAX_CONCURRENT_NODE_READS := by omega
  refine ⟨hfree, ?_⟩
  have hkept : List.Forall₂ (fun r r' : NodeRead β => r'.caller = .gone → r.caller = .gone)
      s.agents t.agents :=
    Agents.related_of_run (fun _ h => h) (fun _ _ _ h h' hgone => h (h' hgone))
      (fun _ _ _ _ _ hstays h => (NodeRead.conserves_of_step h).caller hstays) hall hrun
  refine List.forall₂_iff_get.mpr ⟨hkept.length_eq, fun k hk hk' => ?_⟩
  have hmem := List.get_mem t.agents ⟨k, hk'⟩
  rcases NodeRead.over_of_rest (hown _ hmem) with hover | ⟨-, hnone⟩
  · rcases NodeRead.answered_of_rest (valid_of_reachable ht _ hmem) hover (hown _ hmem) with
      hgone | hanswered
    · exact Or.inl ⟨hkept.get hk hk' hgone, hgone⟩
    · exact Or.inr hanswered
  · rw [hfree] at hnone
    cases hnone

/-- From the full pool, every permit comes back. -/
theorem node_reads_drain_overload : ∃ s t schedule,
    (nodeReads Unit).run ⟨MAX_CONCURRENT_NODE_READS, []⟩ overload = some s ∧
      (nodeReads Unit).run s schedule = some t ∧ t.shared = MAX_CONCURRENT_NODE_READS ∧
      t.agents.length = MAX_CONCURRENT_NODE_READS + 1 := by
  obtain ⟨s, hrun, hlength, -⟩ := overload_run
  obtain ⟨-, ⟨schedule, t, hall, hdrains, hrest⟩, hdrained⟩ :=
    node_reads_drain (TransitionSystem.Reachable.trans_run (.init rfl) hrun)
  obtain ⟨hfree, hanswered⟩ := hdrained schedule t hall hdrains hrest
  exact ⟨s, t, schedule, hrun, hdrains, hfree, hanswered.length_eq ▸ hlength⟩

end Reads

end ExplorerIndexer
