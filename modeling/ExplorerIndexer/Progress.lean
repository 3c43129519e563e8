import ExplorerIndexer.Delivery

/-!
# What the loop records of its progress

The loop keeps three records of how far it is: the cursor in the file, the status it shares with the
API, and the heights it has reported to the node. They are written at different moments, and only
the first survives a crash. Wherever the loop stands the other two are determined by the first: they
are behind it between a commit and its record, and while a replay is in progress.

Heights are 64-bit numbers, and the status stores a height plus one, saturating.

## Main definitions

* `Pc.looping`, `Pc.Counts`, `Pc.Bounds` — the status, by where the task stands
* `World.Recorded` — the three records agree
* `World.Waiting` — what they say while the loop waits

## Main results

* `recorded_of_reachable` — they agree in every reachable state
* `waiting_caught_up` — whenever the loop waits for a notification, `/health` says that it is live,
  that it is at the cursor and that nothing lags, and the cursor is the height last reported
* `reported_monotone` — reported heights never go back, over crashes and restarts
-/

namespace ExplorerIndexer

variable {net : Network} {start : File → Prop} {w w' : World} {p p' : Process}

/-! ### The records -/

/-- The task is between `LiveGuard::new` and its exit. -/
def Pc.looping : Pc → Bool
  | .catchingUp | .readingTip _ | .observingTip .. | .replaying _ | .indexing .. | .body ..
  | .reporting | .following => true
  | .opening | .seeding | .spawning | .guarding | .exited | .ended => false

/-- The API has been spawned, and the task has not exited. -/
def Pc.serving : Pc → Bool
  | .guarding => true
  | pc => pc.looping

/-- The recorded block is the cursor, except before the seeding and between a commit and its
record. -/
def Pc.Counts (next indexed : ℕ) : Pc → Prop
  | .opening | .seeding => indexed = 0
  | .body n _ (.recording true) => indexed = min n (2 ^ 64 - 1) ∧ next = n + 1
  | .exited | .ended => True
  | _ => indexed = min next (2 ^ 64 - 1)

/-- The observed tip is at or below the cursor, except for the blocks in hand. -/
def Pc.Bounds (next tip nodeTip : ℕ) : Pc → Prop
  | .observingTip _ observed => nodeTip ≤ next - 1 ∧ observed ≤ tip
  | .replaying _ => nodeTip ≤ max (next - 1) tip
  | .indexing _ stop | .body _ stop _ => nodeTip < max next stop
  | .reporting | .following => nodeTip < next
  | .exited | .ended => True
  | _ => nodeTip ≤ next - 1

/-- The status of a process agrees with the file. -/
structure Process.Recorded (w : World) (p : Process) : Prop where
  live : p.status.live = p.pc.looping
  serves : p.pc.serving = true → p.api = true
  counts : p.pc.Counts w.file.next p.status.lastIndexedPlusOne
  bounds : p.pc.Bounds w.file.next w.tip p.status.nodeTip

/-- The status and the reports agree with the file. -/
structure World.Recorded (w : World) : Prop where
  process : ∀ p, w.process = some p → p.Recorded w
  reported : w.reported.Pairwise (· ≤ ·)
  small : ∀ height ∈ w.reported, height < 2 ^ 64 - 1
  last : ∀ p, w.process = some p → p.pc = .following → w.reported.getLast? = p.status.lastIndexed

theorem Pc.Bounds.mono {pc : Pc} {next tip tip' nodeTip : ℕ} (h : pc.Bounds next tip nodeTip)
    (htip : tip ≤ tip') : pc.Bounds next tip' nodeTip := by
  cases pc with
  | observingTip start observed => exact ⟨h.1, h.2.trans htip⟩
  | replaying start =>
    have h : nodeTip ≤ max (next - 1) tip := h
    show nodeTip ≤ max (next - 1) tip'
    omega
  | _ => exact h

/-! ### One step -/

/-- A capped height is below the next one. -/
theorem max_capped (n top : ℕ) : max (min n top) (min (n + 1) top) = min (n + 1) top := by
  omega

/-- The body of `index_chain` keeps the status in step with the file. -/
theorem Process.Recorded.body (h : p.Recorded w) (hs : w.Sound net.chainId)
    (hp : w.process = some p) {n stop : ℕ} {stage : Stage} {db db' : Db} {progress : Progress}
    (hpc : p.pc = .body n stop stage) (hdb : w.file = db.toFile)
    (hstep : Stage.Step (net.extracted n) db stage db' progress) (committed : List ℕ) :
    (p.afterBody n stop stage progress).Recorded { w with
      file := db'.toFile
      process := some (p.afterBody n stop stage progress)
      committed := committed } := by
  obtain ⟨hlive, hserves, hcounts, hbounds⟩ := h
  have hcovers := (hs.process p hp).covers
  have htip := hs.tip_lt
  rw [hpc] at hlive hserves hcounts hbounds hcovers
  obtain ⟨hn, hnext, hstop, -⟩ := hcovers
  have hapi := hserves rfl
  rw [hdb] at hcounts hbounds hnext
  have hbounds : p.status.nodeTip < max db.next stop := hbounds
  cases hstep with
  | read | fetched => exact ⟨hlive, fun _ => hapi, hcounts, hbounds⟩
  | failed => exact ⟨rfl, fun h => absurd h Bool.false_ne_true, trivial, trivial⟩
  | applied rows habove =>
    have hle : db.next ≤ n := by
      rw [net.number_extracted] at habove
      exact next_le_of_above habove
    have hcounts : p.status.lastIndexedPlusOne = min db.next (2 ^ 64 - 1) := hcounts
    have hnext : n ≤ db.next := hnext
    have hnext' := net.next_applied_extracted db rows (show n < 2 ^ 64 by omega)
    refine ⟨hlive, fun _ => hapi, ?_, ?_⟩
    · simp only [Process.afterBody, Pc.Counts, Db.next_toFile]
      exact ⟨by omega, hnext'⟩
    · simp only [Process.afterBody, Pc.Bounds, Db.next_toFile]
      omega
  | skipped => exact ⟨hlive, fun _ => hapi, hcounts, hbounds⟩
  | recorded indexed =>
    cases indexed with
    | true =>
      obtain ⟨hindexed, hnext⟩ := hcounts
      have hnext : db.next = n + 1 := hnext
      refine ⟨hlive, fun _ => hapi, ?_, hbounds⟩
      simp only [Process.afterBody, Pc.Counts, IndexerStatus.setLastIndexed, Db.next_toFile]
      rw [hindexed, hnext, max_capped]
    | false => exact ⟨hlive, fun _ => hapi, hcounts, hbounds⟩
  | observed =>
    have hnext : n < db.next := hnext
    refine ⟨hlive, fun _ => hapi, hcounts, ?_⟩
    show max p.status.nodeTip n < max db.next stop
    omega

/-- The task keeps the status in step with the file. -/
theorem Process.Recorded.task (h : p.Recorded w) (hs : w.Sound net.chainId)
    (hp : w.process = some p) (hstep : World.TaskStep net w p w') {q : Process}
    (hq : w'.process = some q) : q.Recorded w' := by
  have hcovers := (hs.process p hp).covers
  obtain ⟨hlive, hserves, hcounts, hbounds⟩ := h
  cases hstep with
  | failed =>
    cases hq
    exact ⟨rfl, fun h => absurd h Bool.false_ne_true, trivial, trivial⟩
  | opened hpc =>
    cases hq
    rw [Process.goto, (hs.process p hp).fresh hpc]
    exact ⟨rfl, fun h => absurd h Bool.false_ne_true, rfl, Nat.zero_le _⟩
  | notOpened =>
    cases hq
    exact ⟨rfl, fun h => absurd h Bool.false_ne_true, trivial, trivial⟩
  | @seeded db hpc hdb =>
    cases hq
    rw [hpc] at hlive hcounts hbounds
    have hcounts : p.status.lastIndexedPlusOne = 0 := hcounts
    refine ⟨?_, fun h => absurd h Bool.false_ne_true, ?_, ?_⟩
    · cases db.cursor <;> exact hlive
    · show (db.cursor.elim p.status p.status.setLastIndexed).lastIndexedPlusOne =
        min w.file.next (2 ^ 64 - 1)
      rw [hdb, Db.next_toFile, Db.next]
      cases db.cursor with
      | none => exact hcounts
      | some c =>
        show max p.status.lastIndexedPlusOne (min (c + 1) (2 ^ 64 - 1)) = min (c + 1) (2 ^ 64 - 1)
        omega
    · cases db.cursor <;> exact hbounds
  | spawned hpc =>
    cases hq
    rw [hpc] at hlive hcounts hbounds
    exact ⟨hlive, fun _ => rfl, hcounts, hbounds⟩
  | guarded hpc =>
    cases hq
    rw [hpc] at hcounts hbounds
    exact ⟨rfl, fun _ => hserves (by rw [hpc]; rfl), hcounts, hbounds⟩
  | startRead hpc =>
    cases hq
    rw [hpc] at hlive hserves hcounts hbounds
    exact ⟨hlive, fun _ => hserves rfl, hcounts, hbounds⟩
  | tipRead hpc =>
    cases hq
    rw [hpc] at hlive hserves hcounts hbounds
    exact ⟨hlive, fun _ => hserves rfl, hcounts, hbounds, Nat.le_refl _⟩
  | @tipObserved start tip hpc =>
    cases hq
    rw [hpc] at hlive hserves hcounts hbounds
    obtain ⟨htip, hobserved⟩ := hbounds
    refine ⟨hlive, fun _ => hserves rfl, hcounts, ?_⟩
    show max p.status.nodeTip tip ≤ max (w.file.next - 1) w.tip
    omega
  | @replayed start hpc =>
    cases hq
    rw [hpc] at hlive hserves hcounts hbounds
    have hbounds : p.status.nodeTip ≤ max (w.file.next - 1) w.tip := hbounds
    refine ⟨hlive, fun _ => hserves rfl, hcounts, ?_⟩
    show p.status.nodeTip < max w.file.next (w.tip + 1)
    omega
  | @taken n stop hpc =>
    cases hq
    rw [hpc] at hlive hserves hcounts hbounds
    exact ⟨hlive, fun _ => hserves rfl, hcounts, hbounds⟩
  | @drained n stop hpc hn =>
    cases hq
    rw [hpc] at hlive hserves hcounts hbounds hcovers
    have hle := hcovers.1
    have hbounds : p.status.nodeTip < max w.file.next stop := hbounds
    refine ⟨hlive, fun _ => hserves rfl, hcounts, ?_⟩
    show p.status.nodeTip < w.file.next
    omega
  | reported hpc =>
    cases hq
    rw [hpc] at hlive hserves hcounts hbounds
    exact ⟨hlive, fun _ => hserves rfl, hcounts, hbounds⟩
  | @segment first last queue hpc =>
    cases hq
    rw [hpc] at hlive hserves hcounts hbounds
    have hbounds : p.status.nodeTip < w.file.next := hbounds
    refine ⟨hlive, fun _ => hserves rfl, hcounts, ?_⟩
    show p.status.nodeTip < max w.file.next (last + 1)
    omega
  | lagged hpc =>
    cases hq
    rw [hpc] at hlive hserves hcounts hbounds
    exact ⟨hlive, fun _ => hserves rfl, hcounts, Nat.le_sub_one_of_lt hbounds⟩
  | silent =>
    cases hp.symm.trans hq
    exact ⟨hlive, hserves, hcounts, hbounds⟩
  | body hpc hdb hstep =>
    cases hq
    exact Process.Recorded.body ⟨hlive, hserves, hcounts, hbounds⟩ hs hp hpc hdb
      (Stage.step_spec hstep) _
  | shutdown =>
    cases hq
    exact ⟨rfl, fun h => absurd h Bool.false_ne_true, trivial, trivial⟩

/-! ### The reports -/

/-- Before a report, no height reported earlier is above it. -/
theorem World.Recorded.report (h : w.Recorded) (hp : w.process = some p) (hpc : p.pc = .reporting)
    (hbelow : ∀ height ∈ w.reported, height < w.file.next) :
    ∃ height, p.status.lastIndexed = some height ∧ height < 2 ^ 64 - 1 ∧
      ∀ earlier ∈ w.reported, earlier ≤ height := by
  have hr := h.process p hp
  have hcounts := hr.counts
  have hbounds := hr.bounds
  rw [hpc] at hcounts hbounds
  have hcounts : p.status.lastIndexedPlusOne = min w.file.next (2 ^ 64 - 1) := hcounts
  have hbounds : p.status.nodeTip < w.file.next := hbounds
  refine ⟨p.status.lastIndexedPlusOne - 1, ?_, by omega, fun earlier hmem => ?_⟩
  · rw [IndexerStatus.lastIndexed_eq_some]
    omega
  · have hnext := hbelow earlier hmem
    have hsmall := h.small earlier hmem
    omega

theorem World.Recorded.task (h : w.Recorded) (hs : w.Sound net.chainId)
    (hbelow : ∀ height ∈ w.reported, height < w.file.next) (hp : w.process = some p)
    (hstep : World.TaskStep net w p w') : w'.Recorded := by
  have hprocess : ∀ q, w'.process = some q → q.Recorded w' :=
    fun q hq => (h.process p hp).task hs hp hstep hq
  cases hstep with
  | reported hpc =>
    obtain ⟨height, hheight, hlt, hle⟩ := h.report hp hpc hbelow
    have hlist : p.status.lastIndexed.toList = [height] := by rw [hheight]; rfl
    refine ⟨hprocess, ?_, fun height' hmem => ?_, fun q hq _ => ?_⟩
    · dsimp only
      rw [hlist, List.pairwise_append]
      refine ⟨h.reported, List.pairwise_singleton _ _, fun earlier hmem later hlater => ?_⟩
      rw [List.mem_singleton.mp hlater]
      exact hle earlier hmem
    · dsimp only at hmem
      rw [hlist] at hmem
      rcases List.mem_append.mp hmem with hmem | hmem
      · exact h.small height' hmem
      · rwa [List.mem_singleton.mp hmem]
    · cases hq
      dsimp only
      rw [hlist, List.getLast?_concat]
      exact hheight.symm
  | silent hpc =>
    refine ⟨hprocess, h.reported, h.small, fun q hq hfollowing => ?_⟩
    cases hp.symm.trans hq
    exact h.last p hp hfollowing
  | @body n stop stage action db db' progress =>
    refine ⟨hprocess, h.reported, h.small, fun q hq hfollowing => ?_⟩
    cases hq
    cases progress <;> cases hfollowing
  | _ => exact ⟨hprocess, h.reported, h.small, fun q hq hfollowing => by cases hq; cases hfollowing⟩

/-- Requests change neither the status nor the place of the task. -/
theorem World.Recorded.health (h : w.Recorded) (hp : w.process = some p)
    (hstep : p.HealthStep w.tip p') : (w.put p').Recorded := by
  have hsame : p'.pc = p.pc ∧ p'.status = p.status ∧ p'.api = p.api := by
    cases hstep <;> exact ⟨rfl, rfl, rfl⟩
  have hr := h.process p hp
  refine ⟨fun q hq => ?_, h.reported, h.small, fun q hq hfollowing => ?_⟩
  · cases hq
    obtain ⟨hpc, hstatus, hapi⟩ := hsame
    exact ⟨by rw [hpc, hstatus]; exact hr.live, by rw [hpc, hapi]; exact hr.serves,
      by rw [hpc, hstatus]; exact hr.counts, by rw [hpc, hstatus]; exact hr.bounds⟩
  · cases hq
    rw [hsame.2.1]
    exact h.last p hp (hsame.1 ▸ hfollowing)

theorem World.Recorded.step (h : w.Recorded) (hs : w.Sound net.chainId)
    (hbelow : ∀ height ∈ w.reported, height < w.file.next) (hstep : World.Step net w w') :
    w'.Recorded := by
  cases hstep with
  | execute =>
    refine ⟨fun p hp => ?_, h.reported, h.small, h.last⟩
    have hr := h.process p hp
    exact ⟨hr.live, hr.serves, hr.counts, hr.bounds.mono (Nat.le_succ _)⟩
  | send | announce | lose =>
    refine ⟨fun p hp => ?_, h.reported, h.small, h.last⟩
    have hr := h.process p hp
    exact ⟨hr.live, hr.serves, hr.counts, hr.bounds⟩
  | task hp hstep => exact h.task hs hbelow hp hstep
  | health hp hstep => exact h.health hp hstep
  | start =>
    refine ⟨fun q hq => ?_, h.reported, h.small, fun q hq hfollowing => ?_⟩
    · cases hq
      exact ⟨rfl, fun h => absurd h Bool.false_ne_true, rfl, Nat.zero_le _⟩
    · cases hq
      cases hfollowing
  | kill => exact ⟨by simp, h.reported, h.small, by simp⟩

/-- Reported heights are below the next block, whatever the file was made from. -/
theorem World.Started.reported_lt (h : w.Started net start) :
    ∀ height ∈ w.reported, height < w.file.next := by
  intro height hmem
  rcases h with ⟨-, -, -, hnone⟩ | ⟨db, hwhole⟩
  · rw [hnone] at hmem
    cases hmem
  · rw [hwhole.file, Db.next_toFile]
    exact hwhole.reported height hmem

/-- **The three records agree in every reachable state.** -/
theorem recorded_of_reachable (hstart : ∀ f, start f → Rebuildable f)
    (hw : (exexSystem net start).Reachable w) : w.Recorded := by
  induction hw with
  | init h =>
    refine ⟨?_, ?_, ?_, ?_⟩
    · simp [h.process]
    · simp [h.reported]
    · simp [h.reported]
    · simp [h.process]
  | step hw ht ih =>
    exact ih.step (sound_of_reachable (fun f hf => Or.inl (hstart f hf)) hw)
      (started_of_reachable hstart hw).reported_lt (World.step_spec ht)

/-- The task waits at block `c`, with the API up and the status and the reports at `c`. -/
structure World.Waiting (w : World) (p : Process) (c : ℕ) : Prop where
  cursor : w.file.cursor = some c
  api : p.api = true
  live : p.status.live = true
  indexed : p.status.lastIndexed = some c
  nodeTip : p.status.nodeTip ≤ c
  reported : w.reported.getLast? = some c

theorem waiting_of_reachable (hstart : ∀ f, start f → Rebuildable f)
    (hw : (exexSystem net start).Reachable w) (hp : w.process = some p) (hpc : p.pc = .following)
    (htip : w.tip + 1 < 2 ^ 64) : ∃ c, w.Waiting p c := by
  have hrecorded := recorded_of_reachable hstart hw
  have hsound := sound_of_reachable (fun f hf => Or.inl (hstart f hf)) hw
  obtain ⟨hlive, hserves, hcounts, hbounds⟩ := hrecorded.process p hp
  rw [hpc] at hlive hserves hcounts hbounds
  have hcounts : p.status.lastIndexedPlusOne = min w.file.next (2 ^ 64 - 1) := hcounts
  have hbounds : p.status.nodeTip < w.file.next := hbounds
  obtain ⟨db, hwhole⟩ := (started_of_reachable hstart hw).whole
    ((hsound.process p hp).intact (Or.inl (by rw [hpc]; rfl)))
  have hexecuted := hwhole.executed
  have hnext : w.file.next = db.next := by rw [hwhole.file, Db.next_toFile]
  obtain ⟨c, hc⟩ : ∃ c, w.file.cursor = some c := by
    cases hcursor : w.file.cursor with
    | none => rw [File.next, hcursor, Option.elim_none] at hbounds; omega
    | some c => exact ⟨c, rfl⟩
  have hsucc : w.file.next = c + 1 := by rw [File.next, hc, Option.elim_some]
  have hindexed : p.status.lastIndexed = some c := by
    rw [IndexerStatus.lastIndexed_eq_some]
    omega
  exact ⟨c, hc, hserves rfl, hlive, hindexed, by omega, (hrecorded.last p hp hpc).trans hindexed⟩

/-- A live status that has indexed the highest block it knows of. -/
theorem IndexerStatus.health_of_indexed {s : IndexerStatus} {c : ℕ} (hlive : s.live = true)
    (hindexed : s.lastIndexed = some c) (htip : s.nodeTip ≤ c) :
    s.health = ⟨"ok", true, c, s.nodeTip, 0⟩ := by
  rw [IndexerStatus.health, IndexerStatus.lag, hindexed, hlive]
  simp only [if_true, Option.getD_some, HealthResponse.mk.injEq, true_and]
  omega

/-- **A waiting loop is caught up with itself.** In every reachable state in which the loop waits
for a notification, after whatever crashes, failures, dropped announcements and replays: the API
serves, `/health` answers that the loop is live, that the last indexed block is the cursor of the
file, and that nothing lags; and the cursor is the height reported last. -/
theorem waiting_caught_up (hstart : ∀ f, start f → Rebuildable f)
    (hw : (exexSystem net start).Reachable w) (hp : w.process = some p) (hpc : p.pc = .following)
    (htip : w.tip + 1 < 2 ^ 64) :
    ∃ c, w.file.cursor = some c ∧ p.api = true ∧ p.status.nodeTip ≤ c ∧
      p.status.health = ⟨"ok", true, c, p.status.nodeTip, 0⟩ ∧ w.reported.getLast? = some c := by
  obtain ⟨c, h⟩ := waiting_of_reachable hstart hw hp hpc htip
  have hhealth := IndexerStatus.health_of_indexed h.live h.indexed h.nodeTip
  exact ⟨c, h.cursor, h.api, h.nodeTip, hhealth, h.reported⟩

/-- The run with crashes ends with a loop that waits at block `3`. -/
theorem waiting_caught_up_crash : ∃ (w : World) (p : Process), w.process = some p ∧
    p.pc = .following ∧ p.status.health = ⟨"ok", true, 3, 3, 0⟩ ∧
    w.reported.getLast? = some 3 := by
  have hrun : ((exexSystem steadyNetwork (· = File.empty)).run (freshWorld 0) crashActions).bind
      (fun w => w.process.map fun p => (p.pc, w.tip, w.file.cursor, p.status.nodeTip)) =
      some (.following, 3, some 3, 3) := by decide +kernel
  obtain ⟨w, hw, heq⟩ := Option.bind_eq_some_iff.mp hrun
  obtain ⟨p, hp, heq⟩ := Option.map_eq_some_iff.mp heq
  obtain ⟨hpc, htip, hcursor, hnodeTip⟩ : p.pc = .following ∧ w.tip = 3 ∧
      w.file.cursor = some 3 ∧ p.status.nodeTip = 3 := by simpa using heq
  obtain ⟨c, hc, -, -, hhealth, hlast⟩ := waiting_caught_up rebuildable_empty
    ((TransitionSystem.Reachable.init (freshWorld_initial (by decide))).trans_run hw) hp hpc
    (by rw [htip]; decide)
  obtain rfl : 3 = c := Option.some.inj (hcursor.symm.trans hc)
  rw [hnodeTip] at hhealth
  exact ⟨w, p, hp, hpc, hhealth, hlast⟩

/-- **Reported heights never go back.** Over a whole history, with any number of crashes, restarts,
failures and reconciliations, the heights reported to the node are in ascending order, and each is
at or below the cursor of the file. -/
theorem reported_monotone (hstart : ∀ f, start f → Rebuildable f)
    (hw : (exexSystem net start).Reachable w) :
    w.reported.Pairwise (· ≤ ·) ∧ ∀ height ∈ w.reported, ∃ c, w.file.cursor = some c ∧
      height ≤ c := by
  refine ⟨(recorded_of_reachable hstart hw).reported, fun height hmem => ?_⟩
  have hlt := (started_of_reachable hstart hw).reported_lt height hmem
  cases hcursor : w.file.cursor with
  | none => rw [File.next, hcursor, Option.elim_none] at hlt; omega
  | some c =>
    rw [File.next, hcursor, Option.elim_some] at hlt
    exact ⟨c, rfl, Nat.le_of_lt_succ hlt⟩

/-- The reports of the run with crashes, one of them repeated. -/
theorem reported_monotone_crash : ∃ w : World, w.reported = [0, 2, 2, 3] ∧
    w.reported.Pairwise (· ≤ ·) := by
  have hrun : ((exexSystem steadyNetwork (· = File.empty)).run (freshWorld 0) crashActions).map
      World.reported = some [0, 2, 2, 3] := by decide +kernel
  obtain ⟨w, hw, heq⟩ := Option.map_eq_some_iff.mp hrun
  exact ⟨w, heq, (reported_monotone rebuildable_empty
    ((TransitionSystem.Reachable.init (freshWorld_initial (by decide))).trans_run hw)).1⟩

end ExplorerIndexer
