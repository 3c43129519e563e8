import ExplorerIndexer.Health
import ExplorerIndexer.Library.Settle
import ExplorerIndexer.Progress

/-!
# The loop converges

A replay may be overtaken by announcements, announcements may be dropped while a replay runs, and a
dropped announcement starts another replay. When the node is still, this comes to an end: every step
of the task shortens the queue, or the way to the next notification, or the blocks in hand. Whatever
the schedule, the task fails or waits.

On a machine that works, it does not fail: the open is not cut, no write is, the node answers every
fetch, and the clock fits its column. Then the task ends waiting, with everything announced indexed;
and with everything executed indexed, if a lag marker was in the queue or a replay was due.

## Main definitions

* `World.measure` — what each step of the task decreases
* `Works` — the steps of the task on a machine that works
* `World.Due` — a replay up to the tip is due or in progress
* `World.Settled` — the task waits, and the queue is empty

## Main results

* `wellFounded_task` — the task takes finitely many steps while the node is still
* `World.exists_works` — on a machine that works a task that is not settled can take a step
* `task_settles` — every schedule of such steps can be continued to a settled state, and a schedule
  that cannot be continued has ended in one
-/

namespace ExplorerIndexer

variable {net : Network} {start : File → Prop} {w w' : World} {p p' : Process}

/-! ### What a step of the task decreases -/

/-- How far the task is from waiting for a notification. -/
def Pc.phase : Pc → ℕ
  | .exited | .ended => 0
  | .following => 1
  | .reporting => 2
  | .indexing .. | .body .. => 3
  | .replaying _ => 4
  | .observingTip .. => 5
  | .readingTip _ => 6
  | .catchingUp => 7
  | .guarding => 8
  | .spawning => 9
  | .seeding => 10
  | .opening => 11

/-- The blocks in hand that are not taken up yet. -/
def Pc.left : Pc → ℕ
  | .indexing n stop => stop - n
  | .body n stop _ => stop - (n + 1)
  | _ => 0

/-- How far the body is from its end. -/
def Stage.rank : Stage → ℕ
  | .reading => 4
  | .fetching .. => 3
  | .recording _ => 2
  | .observing => 1

def Pc.rank : Pc → ℕ
  | .body _ _ stage => stage.rank
  | _ => 0

/-- The fetches of the block in hand that are left. -/
def Pc.need : Pc → ℕ
  | .body _ _ (.fetching need _) => need.length
  | _ => 0

/-- The notifications, then the way to the next one, then the blocks in hand, then the body. -/
def World.measure (w : World) : ℕ × ℕ × ℕ × ℕ × ℕ :=
  let pc := w.process.elim Pc.exited Process.pc
  (w.queue.length, pc.phase, pc.left, pc.rank, pc.need)

/-- The order of the measure: the first difference decides. -/
abbrev measureLess : ℕ × ℕ × ℕ × ℕ × ℕ → ℕ × ℕ × ℕ × ℕ × ℕ → Prop :=
  Prod.Lex (· < ·) (Prod.Lex (· < ·) (Prod.Lex (· < ·) (Prod.Lex (· < ·) (· < ·))))

theorem wellFounded_measureLess : WellFounded measureLess :=
  WellFounded.prod_lex wellFounded_lt (WellFounded.prod_lex wellFounded_lt
    (WellFounded.prod_lex wellFounded_lt (WellFounded.prod_lex wellFounded_lt wellFounded_lt)))

/-- A task that takes a step has not ended. -/
theorem World.alive_of_taskStep {action : TaskAction} (h : w.taskStep net p action = some w') :
    p.pc ≠ .exited ∧ p.pc ≠ .ended := by
  constructor
  · intro hpc
    cases action <;> simp [World.taskStep, World.advance, hpc] at h
  · intro hpc
    cases action <;> simp [World.taskStep, World.advance, hpc] at h

theorem Pc.phase_pos {pc : Pc} (h : pc ≠ .exited ∧ pc ≠ .ended) : 0 < pc.phase := by
  cases pc with
  | exited => exact absurd rfl h.1
  | ended => exact absurd rfl h.2
  | _ => exact Nat.succ_pos _

/-- A step of the body comes closer to the end of the block. -/
theorem Stage.Step.decreases {extracted : ExtractedBlock} {db db' : Db} {stage : Stage}
    {progress : Progress} (h : Stage.Step extracted db stage db' progress) (n stop : ℕ)
    (p : Process) :
    (p.afterBody n stop stage progress).pc.phase < 3 ∨
      (p.afterBody n stop stage progress).pc.phase = 3 ∧
      (p.afterBody n stop stage progress).pc.left = (Pc.body n stop stage).left ∧
      ((p.afterBody n stop stage progress).pc.rank < stage.rank ∨
        (p.afterBody n stop stage progress).pc.rank = stage.rank ∧
        (p.afterBody n stop stage progress).pc.need < (Pc.body n stop stage).need) := by
  cases h with
  | read => exact Or.inr ⟨rfl, rfl, Or.inl (by show 3 < 4; decide)⟩
  | fetched token need rows metadata now =>
    exact Or.inr ⟨rfl, rfl, Or.inr ⟨rfl, Nat.lt_succ_self need.length⟩⟩
  | failed => exact Or.inl (by show 0 < 3; decide)
  | applied | skipped => exact Or.inr ⟨rfl, rfl, Or.inl (by show 2 < 3; decide)⟩
  | recorded => exact Or.inr ⟨rfl, rfl, Or.inl (by show 1 < 2; decide)⟩
  | observed => exact Or.inr ⟨rfl, rfl, Or.inl (by show 0 < 1; decide)⟩

/-- **Every step of the task decreases the measure.** -/
theorem World.measure_decreases {action : TaskAction} (hp : w.process = some p)
    (h : w.taskStep net p action = some w') : measureLess w'.measure w.measure := by
  have hpos := Pc.phase_pos (World.alive_of_taskStep h)
  have hw : w.measure = (w.queue.length, p.pc.phase, p.pc.left, p.pc.rank, p.pc.need) := by
    rw [World.measure, hp]
    rfl
  rw [hw]
  simp only [measureLess, Prod.lex_def]
  cases World.taskStep_spec h with
  | failed => exact Or.inr ⟨rfl, Or.inl hpos⟩
  | notOpened => exact Or.inr ⟨rfl, Or.inl hpos⟩
  | taken hpc hn =>
    rw [hpc]
    refine Or.inr ⟨rfl, Or.inr ⟨rfl, Or.inl ?_⟩⟩
    exact Nat.sub_lt_sub_left hn (Nat.lt_succ_self _)
  | segment hpc hq | lagged hpc hq =>
    rw [hq]
    exact Or.inl (Nat.lt_succ_self _)
  | silent hpc hq =>
    rw [hq]
    exact Or.inl (Nat.lt_succ_self _)
  | @body n stop stage action db db' progress hpc hdb hstep =>
    rw [hpc]
    have hdecreases := (Stage.step_spec hstep).decreases n stop p
    refine Or.inr ⟨rfl, ?_⟩
    rcases hdecreases with hphase | ⟨hphase, hleft, hrank | ⟨hrank, hneed⟩⟩
    · exact Or.inl hphase
    · exact Or.inr ⟨hphase, Or.inr ⟨hleft, Or.inl hrank⟩⟩
    · exact Or.inr ⟨hphase, Or.inr ⟨hleft, Or.inr ⟨hrank, hneed⟩⟩⟩
  | opened hpc | seeded hpc | spawned hpc | guarded hpc | startRead hpc | tipRead hpc
  | tipObserved hpc | replayed hpc | drained hpc | reported hpc | shutdown hpc =>
    rw [hpc]
    exact Or.inr ⟨rfl, Or.inl (Nat.lt_succ_self _)⟩

/-- The steps of the task. -/
def IsTask (_ : World) : WorldAction → Prop
  | .task _ => True
  | _ => False

/-- **While the node is still the task takes finitely many steps.** -/
theorem wellFounded_task : WellFounded ((exexSystem net start).After IsTask) := by
  refine TransitionSystem.wellFounded_after wellFounded_measureLess World.measure ?_
  intro w action w' hc hstep
  cases action with
  | task action =>
    obtain ⟨p, hp, h⟩ := Option.bind_eq_some_iff.mp hstep
    exact World.measure_decreases hp h
  | node | health | start | kill => exact hc.elim

/-! ### A machine that works -/

/-- A step on a machine that works: the open and the write are not cut, the node answers the fetch,
and the clock fits its column. -/
def TaskAction.Works : TaskAction → Prop
  | .openFile budget => budget = none
  | .advance => True
  | .body (.fetch result now) => result.isSome = true ∧ now < 2 ^ 63
  | .body (.commit budget) => budget = none
  | .body _ => True
  | .fail | .shutdown => False

/-- The steps of the task on a machine that works. -/
def Works (_ : World) : WorldAction → Prop
  | .task action => action.Works
  | _ => False

theorem isTask_of_works {action : WorldAction} (h : Works w action) : IsTask w action := by
  cases action with
  | task => trivial
  | _ => exact h

theorem wellFounded_works : WellFounded ((exexSystem net start).After Works) := by
  have hsub : ∀ w' w, (exexSystem net start).After Works w' w →
      (exexSystem net start).After IsTask w' w := by
    rintro w' w ⟨action, hworks, hstep⟩
    exact ⟨action, isTask_of_works hworks, hstep⟩
  exact wellFounded_task.mono hsub

/-- The rows fetched so far fit their columns. -/
def Pc.Fits : Pc → Prop
  | .body _ _ (.fetching _ rows) => ∀ row ∈ rows, row.fetchedAt < 2 ^ 63
  | _ => True

/-- The task has not ended, and what it holds can be stored. -/
structure Process.Able (p : Process) : Prop where
  alive : p.pc ≠ .exited ∧ p.pc ≠ .ended
  fits : p.pc.Fits

theorem Process.Able.of_phase (hphase : 0 < p.pc.phase) (hfits : p.pc.Fits) : p.Able :=
  ⟨⟨fun hpc => absurd hphase (by rw [hpc]; decide), fun hpc => absurd hphase (by rw [hpc]; decide)⟩,
    hfits⟩

/-- An uncut open of a file of the chain returns. -/
theorem migrate_opens {chainId : UInt64} {f : File} (h : Rebuildable f ∨ Intact chainId f) :
    ∃ s, migrate chainId ⟨f, none⟩ = (.ok (), s) := by
  rcases h with h | h
  · obtain ⟨⟨⟩, f', hrun, -⟩ := (migrate_rebuildable chainId h).returns rfl
    exact ⟨_, hrun⟩
  · have hspec : Script.Triple (· = f) (migrate chainId)
        (fun _ f' => f' = f ∧ chainId = chainId) (fun _ _ => False) (· = f) :=
      (migrate_intact chainId h).conseq (fun _ h => h) (fun _ _ h => h)
        (fun _ _ h => h.2.1 rfl) fun _ h => h
    obtain ⟨⟨⟩, f', hrun, -⟩ := hspec.returns rfl
    exact ⟨_, hrun⟩

/-- The cursor of the loop can be read. -/
theorem readCursor_of_loop {up : Upstream} {s : LoopState} (hs : (loopSystem up).Reachable s) :
    ∃ cursor, s.db.readCursor = .ok cursor := by
  induction hs with
  | init h =>
    obtain ⟨chainId, rfl⟩ := h
    refine ⟨none, ?_⟩
    rw [Db.readCursor, freshDb, emptyDb, readMeta_replace, if_neg (by simp)]
    decide
  | step hs ht ih =>
    rcases LoopState.db_step hs ht with heq | ⟨block, receipts, rows, heq, hbound, -⟩
    · rwa [heq]
    · rw [heq]
      exact ⟨_, readCursor_applied _ _ _ (by rwa [number_extractBlock])⟩

/-- What the task finds when it takes a step. -/
structure World.Ready (net : Network) (w : World) (p : Process) : Prop where
  opens : p.pc = .opening → ∃ s, migrate net.chainId ⟨w.file, none⟩ = (.ok (), s)
  reads : p.pc.running = true →
    ∃ (db : Db) (cursor : Option ℕ), w.file = db.toFile ∧ db.readCursor = .ok cursor
  body : ∀ n stop stage, p.pc = .body n stop stage → n ≤ w.tip

theorem World.ready (hstart : ∀ f, start f → Rebuildable f)
    (hw : (exexSystem net start).Reachable w) (hp : w.process = some p) : w.Ready net p where
  opens _ := by
    rcases started_of_reachable hstart hw with ⟨hr, -⟩ | ⟨db, hwhole⟩
    · exact migrate_opens (Or.inl hr)
    · rw [hwhole.file]
      exact migrate_opens (Or.inr hwhole.intact)
  reads hrunning := by
    have hsound := sound_of_reachable (fun f hf => Or.inl (hstart f hf)) hw
    obtain ⟨db, hwhole⟩ := (started_of_reachable hstart hw).whole
      ((hsound.process p hp).intact (Or.inl hrunning))
    obtain ⟨commits, hloop, -⟩ := hwhole.loop
    obtain ⟨cursor, hcursor⟩ := readCursor_of_loop hloop
    exact ⟨db, cursor, hwhole.file, hcursor⟩
  body n stop stage hpc := by
    have hsound := sound_of_reachable (fun f hf => Or.inl (hstart f hf)) hw
    have hcovers := (hsound.process p hp).covers
    rw [hpc] at hcovers
    obtain ⟨hn, -, hstop, -⟩ := hcovers
    omega

/-- On a machine that works, a step of the body goes on or is the last. -/
theorem Stage.step_works {chain : Chain} {up : Upstream} {n : ℕ} {db db' : Db} {stage : Stage}
    {action : StageAction} {progress : Progress} {cursor : Option ℕ}
    (hcursor : db.readCursor = .ok cursor) (hfits : FitsColumns chain n [])
    (hrows : ∀ need rows, stage = .fetching need rows → ∀ row ∈ rows, row.fetchedAt < 2 ^ 63)
    (hworks : (TaskAction.body action).Works)
    (h : stage.step (extractBlock up (chain.block n) (chain.receipts n)) db action =
      some (db', progress)) :
    progress = .done ∨ ∃ stage', progress = .into stage' ∧
      ∀ need rows, stage' = .fetching need rows → ∀ row ∈ rows, row.fetchedAt < 2 ^ 63 := by
  unfold Stage.step at h
  split at h
  · cases h
    refine Or.inr ⟨_, rfl, fun need rows heq => ?_⟩
    cases heq
    exact fun row hrow => absurd hrow List.not_mem_nil
  · next token need rows metadata now =>
    cases h
    refine Or.inr ⟨_, rfl, fun need' rows' heq row hrow => ?_⟩
    cases heq
    rcases List.mem_append.mp hrow with hrow | hrow
    · exact hrows _ _ rfl row hrow
    · cases List.mem_singleton.mp hrow
      exact hworks.2
  · exact absurd hworks.1 (by simp)
  · next rows budget =>
    obtain rfl : budget = none := hworks
    have hstorable : FitsColumns chain n rows :=
      ⟨hfits.number, hfits.transactions, hfits.logs, hrows _ _ rfl⟩
    obtain ⟨b, db₁, hrun, -⟩ := indexBlock_returns hcursor (hstorable.storable up)
    rw [hrun] at h
    cases h
    exact Or.inr ⟨_, rfl, fun need rows heq => by cases heq⟩
  · cases h
    exact Or.inr ⟨_, rfl, fun need rows heq => by cases heq⟩
  · cases h
    exact Or.inl rfl
  · cases h

/-- On a machine that works, the body can take a step. -/
theorem Stage.exists_works (extracted : ExtractedBlock) (db : Db) (stage : Stage) :
    ∃ action, (TaskAction.body action).Works ∧ (stage.step extracted db action).isSome := by
  cases stage with
  | reading => exact ⟨.readStates, trivial, rfl⟩
  | fetching need rows =>
    cases need with
    | nil =>
      refine ⟨.commit none, rfl, ?_⟩
      simp only [Stage.step]
      split <;> rfl
    | cons token need => exact ⟨.fetch (some ⟨none, none, none⟩) 0, ⟨rfl, by decide⟩, rfl⟩
  | recording indexed => exact ⟨.record, trivial, rfl⟩
  | observing => exact ⟨.observe, trivial, rfl⟩

/-- **On a machine that works the task does not fail.** -/
theorem World.able_of_works (hready : w.Ready net p) (hp : w.process = some p)
    (hfits : ∀ n ≤ w.tip, FitsColumns net.chain n []) (hable : p.Able) {action : TaskAction}
    (hworks : action.Works) (h : w.taskStep net p action = some w') :
    w'.tip = w.tip ∧ ∃ q, w'.process = some q ∧ q.Able := by
  have hcursor : p.pc.running = true → ∀ db, w.file.toDb = some db →
      ∃ cursor, db.readCursor = .ok cursor := fun hrunning db hdb => by
    obtain ⟨db', cursor, hfile, hread⟩ := hready.reads hrunning
    rw [File.toDb_eq_some_iff] at hdb
    cases Db.toFile_injective (hfile.symm.trans hdb)
    exact ⟨cursor, hread⟩
  cases action with
  | openFile budget =>
    obtain rfl : budget = none := hworks
    simp only [World.taskStep] at h
    split at h
    · next hpc =>
      obtain ⟨s, hs⟩ := hready.opens hpc
      rw [hs] at h
      cases h
      exact ⟨rfl, _, rfl, .of_phase (Nat.succ_pos _) trivial⟩
    · cases h
  | advance =>
    simp only [World.taskStep, World.advance] at h
    split at h
    · next hpc =>
      obtain ⟨db, hdb, h⟩ := Option.bind_eq_some_iff.mp h
      obtain ⟨cursor, hread⟩ := hcursor (by rw [hpc]; rfl) db hdb
      rw [hread] at h
      cases cursor <;> cases h <;> exact ⟨rfl, _, rfl, .of_phase (Nat.succ_pos _) trivial⟩
    · cases h; exact ⟨rfl, _, rfl, .of_phase (Nat.succ_pos _) trivial⟩
    · cases h; exact ⟨rfl, _, rfl, .of_phase (Nat.succ_pos _) trivial⟩
    · next hpc =>
      obtain ⟨db, hdb, h⟩ := Option.bind_eq_some_iff.mp h
      obtain ⟨cursor, hread⟩ := hcursor (by rw [hpc]; rfl) db hdb
      rw [hread] at h
      cases h
      exact ⟨rfl, _, rfl, .of_phase (Nat.succ_pos _) trivial⟩
    · cases h; exact ⟨rfl, _, rfl, .of_phase (Nat.succ_pos _) trivial⟩
    · cases h; exact ⟨rfl, _, rfl, .of_phase (Nat.succ_pos _) trivial⟩
    · cases h; exact ⟨rfl, _, rfl, .of_phase (Nat.succ_pos _) trivial⟩
    · cases h
      refine ⟨rfl, _, rfl, ?_⟩
      split <;> exact .of_phase (Nat.succ_pos _) trivial
    · cases h; exact ⟨rfl, _, rfl, .of_phase (Nat.succ_pos _) trivial⟩
    · split at h
      · cases h; exact ⟨rfl, _, rfl, .of_phase (Nat.succ_pos _) trivial⟩
      · cases h; exact ⟨rfl, _, rfl, .of_phase (Nat.succ_pos _) trivial⟩
      · cases h; exact ⟨rfl, p, hp, hable⟩
      · cases h; exact ⟨rfl, p, hp, hable⟩
      · cases h
    all_goals cases h
  | body action =>
    simp only [World.taskStep] at h
    split at h
    · next n stop stage hpc =>
      obtain ⟨db, hdb, h⟩ := Option.bind_eq_some_iff.mp h
      obtain ⟨⟨db', progress⟩, hstep, h⟩ := Option.bind_eq_some_iff.mp h
      cases h
      obtain ⟨cursor, hread⟩ := hcursor (by rw [hpc]; rfl) db hdb
      have hrows : ∀ need rows, stage = .fetching need rows →
          ∀ row ∈ rows, row.fetchedAt < 2 ^ 63 := by
        rintro need rows rfl
        have := hable.fits
        rwa [hpc] at this
      refine ⟨rfl, _, rfl, ?_⟩
      rcases Stage.step_works hread (hfits n (hready.body n stop stage hpc)) hrows hworks hstep
        with rfl | ⟨stage', rfl, hrows'⟩
      · exact .of_phase (Nat.succ_pos _) trivial
      · refine .of_phase (Nat.succ_pos _) ?_
        cases stage' with
        | fetching need rows => exact hrows' need rows rfl
        | _ => trivial
    · cases h
  | fail | shutdown => exact hworks.elim

/-- **On a machine that works a task that does not wait can take a step.** -/
theorem World.exists_works (hready : w.Ready net p) (hable : p.Able)
    (hwaits : ¬ (p.pc = .following ∧ w.queue = [])) :
    ∃ action : TaskAction, action.Works ∧ (w.taskStep net p action).isSome := by
  cases hpc : p.pc with
  | exited => exact absurd hpc hable.alive.1
  | ended => exact absurd hpc hable.alive.2
  | opening =>
    refine ⟨.openFile none, rfl, ?_⟩
    obtain ⟨s, hs⟩ := hready.opens hpc
    simp [World.taskStep, hpc, hs]
  | body n stop stage =>
    obtain ⟨db, cursor, hfile, -⟩ := hready.reads (by rw [hpc]; rfl)
    obtain ⟨action, hworks, hsome⟩ := Stage.exists_works (net.extracted n) db stage
    obtain ⟨⟨db', progress⟩, hstep⟩ := Option.isSome_iff_exists.mp hsome
    refine ⟨.body action, hworks, ?_⟩
    simp [World.taskStep, hpc, hfile, hstep]
  | seeding | catchingUp =>
    obtain ⟨db, cursor, hfile, hread⟩ := hready.reads (by rw [hpc]; rfl)
    refine ⟨.advance, trivial, ?_⟩
    cases cursor <;> simp [World.taskStep, World.advance, hpc, hfile, hread]
  | following =>
    refine ⟨.advance, trivial, ?_⟩
    cases hq : w.queue with
    | nil => exact absurd ⟨hpc, hq⟩ hwaits
    | cons note queue => cases note <;> simp [World.taskStep, World.advance, hpc, hq]
  | spawning | guarding | readingTip | observingTip | replaying | indexing | reporting =>
    refine ⟨.advance, trivial, ?_⟩
    simp [World.taskStep, World.advance, hpc]

/-! ### Replays that are due -/

/-- The blocks in hand reach up to the tip, or will once the replay is opened. -/
def Pc.Replays (tip : ℕ) : Pc → Prop
  | .opening | .seeding | .spawning | .guarding | .catchingUp | .readingTip _ | .observingTip ..
  | .replaying _ => True
  | .indexing _ stop | .body _ stop _ => stop = tip + 1
  | .reporting | .following | .exited | .ended => False

/-- The tip is indexed, or a replay up to it is due: a process has just started, a lag marker is in
the queue, or a replay is in progress. -/
def World.Due (w : World) : Prop :=
  w.tip < w.file.next ∨ (∃ missed, .lagged missed ∈ w.queue) ∨
    ∃ p, w.process = some p ∧ p.pc.Replays w.tip

/-- A task that goes on keeps what is due. -/
theorem World.Due.task (h : w.Due) (hs : w.Sound net.chainId) (hp : w.process = some p)
    (hstep : World.TaskStep net w p w') {q : Process} (hq : w'.process = some q) (hable : q.Able) :
    w'.Due := by
  have htip : w'.tip = w.tip := by
    obtain ⟨-, -, -, -, -, htip⟩ := hstep.keeps hp
    exact htip
  have hreplays : p.pc.Replays w.tip → w'.Due := by
    intro hr
    have hcovers := (hs.process p hp).covers
    cases hstep with
    | failed => cases hq; exact absurd rfl hable.alive.1
    | notOpened => cases hq; exact absurd rfl hable.alive.1
    | shutdown => cases hq; exact absurd rfl hable.alive.2
    | drained hpc hn =>
      rw [hpc] at hr hcovers
      have hr : _ = w.tip + 1 := hr
      have hle := hcovers.1
      refine Or.inl ?_
      show w.tip < w.file.next
      omega
    | taken hpc =>
      rw [hpc] at hr
      exact Or.inr (Or.inr ⟨_, rfl, hr⟩)
    | @body n stop stage action db db' progress hpc =>
      rw [hpc] at hr
      cases progress with
      | into stage' => exact Or.inr (Or.inr ⟨_, rfl, hr⟩)
      | done => exact Or.inr (Or.inr ⟨_, rfl, hr⟩)
      | failed => cases hq; exact absurd rfl hable.alive.1
    | reported hpc | segment hpc | lagged hpc | silent hpc => rw [hpc] at hr; exact hr.elim
    | replayed => exact Or.inr (Or.inr ⟨_, rfl, rfl⟩)
    | _ => exact Or.inr (Or.inr ⟨_, rfl, trivial⟩)
  rcases h with hnext | ⟨missed, hmem⟩ | ⟨p', hp', hr⟩
  · by_cases hopening : p.pc = .opening
    · exact hreplays (by rw [hopening]; trivial)
    · exact Or.inl (htip ▸ Nat.lt_of_lt_of_le hnext (hstep.next_le hs hp hopening))
  · -- the marker stays in the queue until the task takes it, and then a catch-up begins
    cases hstep with
    | segment hpc hq' =>
      rw [hq'] at hmem
      rcases List.mem_cons.mp hmem with h | hmem
      · cases h
      · exact Or.inr (Or.inl ⟨missed, hmem⟩)
    | silent hpc hq' hnote =>
      rw [hq'] at hmem
      rcases List.mem_cons.mp hmem with rfl | hmem
      · cases hnote
      · exact Or.inr (Or.inl ⟨missed, hmem⟩)
    | lagged => exact Or.inr (Or.inr ⟨_, rfl, trivial⟩)
    | _ => exact Or.inr (Or.inl ⟨missed, hmem⟩)
  · cases hp.symm.trans hp'
    exact hreplays hr

/-! ### Where it ends -/

/-- The task waits at block `c`, and there is nothing to wait for: everything announced is indexed,
and the status and the last report say so. -/
structure World.Settled (w : World) (c : ℕ) : Prop where
  queue : w.queue = []
  cursor : w.file.cursor = some c
  announced : w.sent ≤ c + 1
  reported : w.reported.getLast? = some c
  health : ∃ p, w.process = some p ∧ p.pc = .following ∧
    p.status.health = ⟨"ok", true, c, p.status.nodeTip, 0⟩

/-- What the schedules of a machine that works preserve. -/
structure World.Quiet (net : Network) (start : File → Prop) (tip : ℕ) (due : Prop) (w : World) :
    Prop where
  reachable : (exexSystem net start).Reachable w
  tip : w.tip = tip
  able : ∃ p, w.process = some p ∧ p.Able
  due : due → w.Due

theorem World.Quiet.step {tip : ℕ} {due : Prop} (h : w.Quiet net start tip due)
    (hstart : ∀ f, start f → Rebuildable f) (hfits : ∀ n ≤ tip, FitsColumns net.chain n [])
    {action : WorldAction} (hworks : Works w action)
    (hstep : (exexSystem net start).step w action = some w') : w'.Quiet net start tip due := by
  obtain ⟨p, hp, hable⟩ := h.able
  cases action with
  | task action =>
    obtain ⟨p', hp', hrun⟩ := Option.bind_eq_some_iff.mp hstep
    cases hp.symm.trans hp'
    obtain ⟨htip, q, hq, hable'⟩ := World.able_of_works (World.ready hstart h.reachable hp) hp
      (h.tip ▸ hfits) hable hworks hrun
    have hsound := sound_of_reachable (fun f hf => Or.inl (hstart f hf)) h.reachable
    exact ⟨h.reachable.step hstep, htip.trans h.tip, ⟨q, hq, hable'⟩, fun hd =>
      (h.due hd).task hsound hp (World.taskStep_spec hrun) hq hable'⟩
  | node | health | start | kill => exact hworks.elim

/-- A task at rest is settled. -/
theorem World.Quiet.settled {tip : ℕ} {due : Prop} (h : w.Quiet net start tip due)
    (hstart : ∀ f, start f → Rebuildable f) (htip : tip + 1 < 2 ^ 64)
    (hrest : (exexSystem net start).AtRest Works w) :
    ∃ c, w.Settled c ∧ (due → c = tip) := by
  obtain ⟨p, hp, hable⟩ := h.able
  obtain ⟨hpc, hqueue⟩ : p.pc = .following ∧ w.queue = [] := by
    by_contra hwaits
    obtain ⟨action, hworks, hsome⟩ :=
      World.exists_works (World.ready hstart h.reachable hp) hable hwaits
    have hnone : (w.process.bind fun p => w.taskStep net p action) = none :=
      hrest (.task action) hworks
    rw [hp, Option.bind_some] at hnone
    rw [hnone] at hsome
    cases hsome
  obtain ⟨c, hwaiting⟩ := waiting_of_reachable hstart h.reachable hp hpc (h.tip ▸ htip)
  have hc := hwaiting.cursor
  have hhealth :=
    IndexerStatus.health_of_indexed hwaiting.live hwaiting.indexed hwaiting.nodeTip
  have hsound := sound_of_reachable (fun f hf => Or.inl (hstart f hf)) h.reachable
  have hcovers := (hsound.process p hp).covers
  have hnext : w.file.next = c + 1 := by rw [File.next, hc, Option.elim_some]
  rw [hpc, Pc.Covers, World.notices, hqueue, List.map_nil, Feed.covered_nil, hnext] at hcovers
  refine ⟨c, ⟨hqueue, hc, hcovers, hwaiting.reported, p, hp, hpc, hhealth⟩, fun hd => ?_⟩
  have hexecuted : c ≤ w.tip := by
    obtain ⟨db, hwhole⟩ := (started_of_reachable hstart h.reachable).whole
      ((hsound.process p hp).intact (Or.inl (by rw [hpc]; rfl)))
    have hexecuted := hwhole.executed
    rw [hwhole.file, Db.next_toFile] at hnext
    omega
  rcases h.due hd with hlt | ⟨missed, hmem⟩ | ⟨p', hp', hr⟩
  · rw [hnext, h.tip] at hlt
    rw [h.tip] at hexecuted
    omega
  · rw [hqueue] at hmem
    cases hmem
  · cases hp.symm.trans hp'
    rw [hpc] at hr
    exact hr.elim

/-- A schedule of a machine that works keeps the task going, on the same chain. -/
theorem quiet_of_works (hstart : ∀ f, start f → Rebuildable f)
    (hw : (exexSystem net start).Reachable w) (hp : w.process = some p) (hable : p.Able)
    (hfits : ∀ n ≤ w.tip, FitsColumns net.chain n []) {schedule : List WorldAction} {t : World}
    (hall : (exexSystem net start).AllSteps Works w schedule)
    (hrun : (exexSystem net start).run w schedule = some t) : t.Quiet net start w.tip w.Due :=
  TransitionSystem.AllSteps.invariant (P := World.Quiet net start w.tip w.Due)
    (fun _ _ _ h hworks hstep => h.step hstart hfits hworks hstep) hall hrun
    ⟨hw, rfl, ⟨p, hp, hable⟩, id⟩

/-- **The loop converges.** Take any reachable state whose task has not ended, and let the node be
still from there on. The task takes finitely many steps, whatever fails. On a machine that works,
some schedule comes to rest; and every schedule at rest has ended with a task that waits, with
everything announced indexed, and with everything executed indexed when a replay was due: after a
start, or with a lag marker in the queue. -/
theorem task_settles (hstart : ∀ f, start f → Rebuildable f)
    (hw : (exexSystem net start).Reachable w) (hp : w.process = some p) (hable : p.Able)
    (hfits : ∀ n ≤ w.tip, FitsColumns net.chain n []) :
    (∀ worlds : ℕ → World,
      ∃ k, ¬ (exexSystem net start).After IsTask (worlds (k + 1)) (worlds k)) ∧
    (∃ schedule t, (exexSystem net start).AllSteps Works w schedule ∧
      (exexSystem net start).run w schedule = some t ∧ (exexSystem net start).AtRest Works t) ∧
    ∀ schedule t, (exexSystem net start).AllSteps Works w schedule →
      (exexSystem net start).run w schedule = some t → (exexSystem net start).AtRest Works t →
      ∃ c, t.Settled c ∧ (w.Due → c = w.tip) := by
  refine ⟨TransitionSystem.not_after_forever wellFounded_task,
    TransitionSystem.exists_run_atRest wellFounded_works w, fun schedule t hall hrun hrest => ?_⟩
  have htip := (hfits w.tip (Nat.le_refl _)).number
  exact (quiet_of_works hstart hw hp hable hfits hall hrun).settled hstart (by omega) hrest

/-- The blocks of the steady chain fit their columns. -/
theorem fitsColumns_steadyChain {n : ℕ} (h : n < 2 ^ 63) :
    FitsColumns steadyChain.toChain n [] where
  number := h
  transactions := by
    show 1 < 2 ^ 63
    decide
  logs receipt hmem := by
    rw [List.mem_singleton.mp hmem]
    decide
  tokenRows := nofun

/-- The genesis block is indexed, and the announcement of block `1` is dropped. -/
def lagActions : List WorldAction :=
  startActions 1 ++ bodyActions ++ List.replicate 2 (.task .advance) ++
    [.node .execute, .node (.send 1 1), .node (.lose 0 1 1)]

/-- The loop recovers the block whose announcement was dropped. -/
theorem task_settles_lag : ∃ (w t : World) (schedule : List WorldAction),
    (exexSystem steadyNetwork (· = File.empty)).run (freshWorld 0) lagActions = some w ∧
      w.file.cursor = some 0 ∧ w.queue = [.lagged 1] ∧
      (exexSystem steadyNetwork (· = File.empty)).run w schedule = some t ∧ t.Settled 1 := by
  have hrun : ((exexSystem steadyNetwork (· = File.empty)).run (freshWorld 0) lagActions).bind
      (fun w => w.process.map fun p => (p.pc, w.tip, w.file.cursor, w.queue)) =
      some (.following, 1, some 0, [.lagged 1]) := by decide +kernel
  obtain ⟨w, hw, heq⟩ := Option.bind_eq_some_iff.mp hrun
  obtain ⟨p, hp, heq⟩ := Option.map_eq_some_iff.mp heq
  obtain ⟨hpc, htip, hcursor, hqueue⟩ : p.pc = .following ∧ w.tip = 1 ∧
      w.file.cursor = some 0 ∧ w.queue = [.lagged 1] := by simpa using heq
  have hable : p.Able := .of_phase (by rw [hpc]; decide) (by rw [hpc]; trivial)
  obtain ⟨-, ⟨schedule, t, hall, hsettles, hrest⟩, hsettled⟩ := task_settles rebuildable_empty
    ((TransitionSystem.Reachable.init (freshWorld_initial (by decide))).trans_run hw) hp hable
    fun n hn => fitsColumns_steadyChain (by omega)
  obtain ⟨c, hc, hdue⟩ := hsettled schedule t hall hsettles hrest
  have hdue := hdue (Or.inr (Or.inl ⟨1, by rw [hqueue]; exact List.mem_singleton_self _⟩))
  rw [htip] at hdue
  exact ⟨w, t, schedule, hw, hcursor, hqueue, hsettles, hdue ▸ hc⟩

end ExplorerIndexer
