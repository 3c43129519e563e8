import ExplorerIndexer.Exex
import ExplorerIndexer.Reference

/-!
# No block is lost

`index_block` skips blocks at or below the cursor and never checks for a hole above it. That the
index has none is a fact about the whole system: wherever the task stands, the blocks it has not
indexed and will not meet in the queue are behind a lag marker, or come from the replay in progress.

## Main definitions

* `World.Sound` — the invariant of the system, over any start file

## Main results

* `sound_of_reachable` — it holds in every reachable state
* `no_block_lost` — over a file the program made itself, the committed blocks are those up to the
  cursor, each committed once, and reported heights are at or below it
-/

namespace ExplorerIndexer

open Feed

/-- The queue as a feed of heights. -/
def World.notices (w : World) : List Notice := w.queue.map TnExExNotification.notice

/-- The file has been opened, and the task is still running. -/
def Pc.running : Pc → Bool
  | .opening | .exited | .ended => false
  | _ => true

/-- `Writer::open` has returned in this process. -/
def Process.Opened (p : Process) : Prop :=
  p.pc.running = true ∨ p.api = true ∨ p.requests ≠ [] ∨ p.responses ≠ []

/-- `index_block` has returned. -/
def Stage.written : Stage → Bool
  | .recording _ | .observing => true
  | .reading | .fetching .. => false

/-- Where the task stands, nothing is missed: the block in hand is at most one above the cursor, and
once the blocks in hand are indexed the queue covers the rest. -/
def Pc.Covers (w : World) : Pc → Prop
  | .readingTip start | .observingTip start _ | .replaying start => start ≤ w.file.next
  | .indexing n stop =>
    n ≤ w.file.next ∧ stop ≤ w.tip + 1 ∧ Covered w.sent (max w.file.next stop) w.notices
  | .body n stop stage =>
    n < stop ∧ (if stage.written then n < w.file.next else n ≤ w.file.next) ∧ stop ≤ w.tip + 1 ∧
      Covered w.sent (max w.file.next stop) w.notices
  | .reporting | .following => Covered w.sent w.file.next w.notices
  | .opening | .seeding | .spawning | .guarding | .catchingUp | .exited | .ended => True

/-- The node's side: everything announced has been executed. -/
structure World.NodeSound (w : World) : Prop where
  tip_lt : w.tip < 2 ^ 64
  sent_le : w.sent ≤ w.tip + 1
  queue : ∀ first last, .chainExecuted first last ∈ w.queue → first ≤ last ∧ last < w.sent

/-- The process' side. -/
structure Process.Sound (chainId : UInt64) (w : World) (p : Process) : Prop where
  fresh : p.pc = .opening → p = .start p.startTip
  indexed : p.status.lastIndexedPlusOne ≤ w.file.next
  intact : p.Opened → Intact chainId w.file
  covers : p.pc.Covers w

/-- The invariant of the system. -/
structure World.Sound (chainId : UInt64) (w : World) : Prop extends w.NodeSound where
  file : Rebuildable w.file ∨ ∃ stored, Intact stored w.file
  process : ∀ p, w.process = some p → p.Sound chainId w

variable {net : Network} {start : File → Prop} {w w' : World} {p p' : Process}

/-! ### The node and the API -/

theorem Pc.Covers.mono {pc : Pc} (h : pc.Covers w) (hfile : w'.file = w.file)
    (htip : w.tip ≤ w'.tip)
    (hfeed : ∀ n, Covered w.sent n w.notices → Covered w'.sent n w'.notices) : pc.Covers w' := by
  unfold Pc.Covers at h ⊢
  rw [hfile]
  split at h
  · exact h
  · exact h
  · exact h
  · exact ⟨h.1, by omega, hfeed _ h.2.2⟩
  · exact ⟨h.1, h.2.1, by omega, hfeed _ h.2.2.2⟩
  · exact hfeed _ h
  · exact hfeed _ h
  all_goals trivial

/-- A change of the node's side that keeps the coverage keeps the invariant. -/
theorem World.Sound.node (h : w.Sound net.chainId) (hn : w'.NodeSound) (hfile : w'.file = w.file)
    (hprocess : w'.process = w.process) (htip : w.tip ≤ w'.tip)
    (hfeed : ∀ n, Covered w.sent n w.notices → Covered w'.sent n w'.notices) :
    w'.Sound net.chainId where
  toNodeSound := hn
  file := hfile ▸ h.file
  process p hp := by
    have hp := h.process p (hprocess ▸ hp)
    exact ⟨hp.fresh, hfile ▸ hp.indexed, fun hr => hfile ▸ hp.intact hr,
      hp.covers.mono hfile htip hfeed⟩

theorem World.Sound.send (h : w.Sound net.chainId) {first last : ℕ} (hfirst : first ≤ w.sent)
    (hle : first ≤ last) (hlast : last ≤ w.tip) :
    World.Sound net.chainId { w with
      sent := max w.sent (last + 1), queue := w.queue ++ [.chainExecuted first last] } := by
  have hsent := h.sent_le
  refine h.node ⟨h.tip_lt, by dsimp only; omega, fun f l hmem => ?_⟩ rfl rfl (Nat.le_refl _)
    fun n hc => ?_
  · dsimp only at hmem ⊢
    rcases List.mem_append.mp hmem with hmem | hmem
    · have := h.queue f l hmem
      omega
    · cases List.mem_singleton.mp hmem
      omega
  · simp only [World.notices, List.map_append, List.map_cons, List.map_nil]
    exact hc.send hfirst

theorem World.Sound.announce (h : w.Sound net.chainId) {note : TnExExNotification}
    (hnote : note.notice = .silent) :
    World.Sound net.chainId { w with queue := w.queue ++ [note] } := by
  refine h.node ⟨h.tip_lt, h.sent_le, fun f l hmem => ?_⟩ rfl rfl (Nat.le_refl _) fun n hc => ?_
  · rcases List.mem_append.mp hmem with hmem | hmem
    · exact h.queue f l hmem
    · rw [← List.mem_singleton.mp hmem] at hnote
      cases hnote
  · simp only [World.notices, List.map_append, List.map_cons, List.map_nil, hnote]
    exact hc.send_silent

theorem World.Sound.lose (h : w.Sound net.chainId) (kept lost missed : ℕ) :
    World.Sound net.chainId { w with
      queue := w.queue.take kept ++ .lagged missed :: w.queue.drop (kept + lost) } := by
  refine h.node ⟨h.tip_lt, h.sent_le, fun f l hmem => ?_⟩ rfl rfl (Nat.le_refl _) fun n hc => ?_
  · rcases List.mem_append.mp hmem with hmem | hmem
    · exact h.queue f l (List.mem_of_mem_take hmem)
    · rcases List.mem_cons.mp hmem with hmem | hmem
      · cases hmem
      · exact h.queue f l (List.mem_of_mem_drop hmem)
  · have hsplit : w.notices = (w.queue.take kept).map TnExExNotification.notice ++
        (((w.queue.drop kept).take lost).map TnExExNotification.notice ++
          (w.queue.drop (kept + lost)).map TnExExNotification.notice) := by
      rw [← List.map_append, ← List.drop_drop, List.take_append_drop, ← List.map_append,
        List.take_append_drop]
      rfl
    rw [hsplit] at hc
    simp only [World.notices, List.map_append, List.map_cons]
    exact hc.drop

/-- Requests do not touch what the invariant is about. -/
theorem World.Sound.health (h : w.Sound net.chainId) (hp : w.process = some p)
    (hstep : p.HealthStep w.tip p') : (w.put p').Sound net.chainId where
  toNodeSound := ⟨h.tip_lt, h.sent_le, h.queue⟩
  file := h.file
  process q hq := by
    cases hq
    have hp := h.process p hp
    have hsame : p'.pc = p.pc ∧ p'.status = p.status := by cases hstep <;> exact ⟨rfl, rfl⟩
    refine ⟨fun hpc => ?_, ?_, ?_, ?_⟩
    · rw [hsame.1] at hpc
      rw [hp.fresh hpc] at hstep
      cases hstep <;> contradiction
    · rw [hsame.2]
      exact hp.indexed
    · refine fun _ => hp.intact ?_
      cases hstep with
      | asked hapi => exact Or.inr (Or.inl hapi)
      | loaded hk | answered hk =>
        exact Or.inr (Or.inr (Or.inl (List.ne_nil_of_mem (List.mem_of_getElem? hk))))
    · rw [hsame.1]
      exact hp.covers

/-! ### The task -/

/-- A process whose file belongs to the chain. -/
theorem Process.Sound.of_intact {chainId : UInt64} (hpc : p.pc ≠ .opening)
    (hindexed : p.status.lastIndexedPlusOne ≤ w.file.next) (hintact : Intact chainId w.file)
    (hcovers : p.pc.Covers w) : p.Sound chainId w :=
  ⟨fun heq => absurd heq hpc, hindexed, fun _ => hintact, hcovers⟩

theorem Process.Sound.exit {chainId : UInt64} (h : p.Sound chainId w) :
    p.exit.Sound chainId w := by
  refine ⟨fun hpc => ?_, h.indexed, fun ho => h.intact ?_, trivial⟩
  · cases hpc
  · rcases ho with hr | ho
    · cases hr
    · exact Or.inr ho

/-- The task moves on without a write. -/
theorem Process.Sound.goto {chainId : UInt64} (h : p.Sound chainId w) (hr : p.pc.running = true)
    {pc : Pc} (hpc : pc ≠ .opening) (hc : pc.Covers w) : (p.goto pc).Sound chainId w :=
  ⟨fun heq => absurd heq hpc, h.indexed, fun _ => h.intact (Or.inl hr), hc⟩

/-- A step that changes the process only. -/
theorem World.Sound.put {chainId : UInt64} (h : w.Sound chainId) (hp : p.Sound chainId w)
    (committed reported : List ℕ) :
    World.Sound chainId
      { w with process := some p, committed := committed, reported := reported } where
  toNodeSound := ⟨h.tip_lt, h.sent_le, h.queue⟩
  file := h.file
  process q hq := by
    cases hq
    exact ⟨hp.fresh, hp.indexed, hp.intact, hp.covers⟩

/-- The rest of the queue, after the task has taken the first notification. -/
theorem World.NodeSound.tail (h : w.NodeSound) {note : TnExExNotification}
    {queue : List TnExExNotification} (hq : w.queue = note :: queue) (process : Option Process) :
    World.NodeSound { w with queue := queue, process := process } where
  tip_lt := h.tip_lt
  sent_le := h.sent_le
  queue first last hmem := h.queue first last (hq ▸ List.mem_cons_of_mem _ hmem)

theorem replayStart_le (db : Db) : replayStart db.cursor ≤ db.next := by
  rw [Db.next]
  cases db.cursor with
  | none => exact Nat.le_refl 0
  | some c => exact Nat.mod_le _ _

theorem World.Sound.opened (h : w.Sound net.chainId) (hp : w.process = some p)
    (hpc : p.pc = .opening) {budget : Option ℕ} {s : Session File}
    (hrun : migrate net.chainId ⟨w.file, budget⟩ = (.ok (), s)) :
    World.Sound net.chainId { w with file := s.store, process := some (p.goto .seeding) } where
  toNodeSound := ⟨h.tip_lt, h.sent_le, h.queue⟩
  file := Or.inr ⟨_, (migrate_returns _ h.file hrun).1⟩
  process q hq := by
    cases hq
    refine .of_intact (by simp [Process.goto]) ?_ (migrate_returns _ h.file hrun).1 trivial
    rw [Process.goto, (h.process p hp).fresh hpc]
    exact Nat.zero_le _

theorem World.Sound.notOpened (h : w.Sound net.chainId) (hp : w.process = some p)
    (hpc : p.pc = .opening) {budget : Option ℕ} {stop : Stop Error} {s : Session File}
    (hrun : migrate net.chainId ⟨w.file, budget⟩ = (.error stop, s)) :
    World.Sound net.chainId { w with file := s.store, process := some p.exit } where
  toNodeSound := ⟨h.tip_lt, h.sent_le, h.queue⟩
  file := by
    rcases migrate_stops _ h.file hrun with heq | ⟨-, hs⟩
    · exact heq ▸ h.file
    · exact Or.inl hs
  process q hq := by
    cases hq
    rw [Process.exit, (h.process p hp).fresh hpc]
    refine ⟨by simp, Nat.zero_le _, fun ho => ?_, trivial⟩
    rcases ho with h | h | h | h <;> contradiction

/-- Indexing a block of the network moves the cursor past it. -/
theorem Network.next_applied_extracted (net : Network) (db : Db) {n : ℕ} (rows : List TokenRow)
    (hn : n < 2 ^ 64) : (db.applied (net.extracted n) rows).next = n + 1 := by
  rw [next_applied _ _ _ (by rwa [net.number_extracted]), net.number_extracted]

/-- A step of the body of `index_chain`. -/
theorem World.Sound.body (h : w.Sound net.chainId) (hp : w.process = some p) {n stop : ℕ}
    {stage : Stage} {db db' : Db} {progress : Progress} (hpc : p.pc = .body n stop stage)
    (hdb : w.file = db.toFile) (hstep : Stage.Step (net.extracted n) db stage db' progress)
    (committed : List ℕ) :
    World.Sound net.chainId { w with
      file := db'.toFile
      process := some (p.afterBody n stop stage progress)
      committed := committed } := by
  have hs := h.process p hp
  have hintact := hs.intact (Or.inl (by rw [hpc]; rfl))
  have hcovers := hs.covers
  rw [hpc] at hcovers
  obtain ⟨hn, hnext, hstop, hfeed⟩ := hcovers
  cases hstep with
  | read =>
    rw [← hdb]
    refine h.put ?_ _ _
    exact .of_intact (by simp [Process.afterBody]) hs.indexed hintact ⟨hn, hnext, hstop, hfeed⟩
  | fetched token need rows metadata now =>
    rw [← hdb]
    refine h.put ?_ _ _
    exact .of_intact (by simp [Process.afterBody]) hs.indexed hintact ⟨hn, hnext, hstop, hfeed⟩
  | failed stage =>
    rw [← hdb]
    exact h.put hs.exit _ _
  | applied rows habove =>
    -- the guard and the invariant leave one height: the block is the next one
    have hle : db.next ≤ n := by
      rw [net.number_extracted] at habove
      exact next_le_of_above habove
    have htip := h.tip_lt
    have hnext' : (db.applied (net.extracted n) rows).next = n + 1 :=
      net.next_applied_extracted db rows (by omega)
    have hindexed := hs.indexed
    rw [hdb] at hintact hnext hindexed hfeed
    simp only [Stage.written, Bool.false_eq_true, if_false, Db.next_toFile] at hnext hindexed hfeed
    have hintact' := hintact.applied (net.extracted n) rows
    refine ⟨⟨h.tip_lt, h.sent_le, h.queue⟩, Or.inr ⟨_, hintact'⟩, fun q hq => ?_⟩
    cases hq
    refine .of_intact (by simp [Process.afterBody]) ?_ hintact' ⟨hn, ?_, hstop, ?_⟩
    · simp only [Process.afterBody, Db.next_toFile, hnext']
      omega
    · simp only [Stage.written, if_true, Db.next_toFile, hnext']
      omega
    · simp only [Db.next_toFile, hnext']
      exact hfeed.mono (by omega)
  | skipped rows c hc hle =>
    rw [net.number_extracted] at hle
    have hlt : n < w.file.next := by
      rw [hdb, Db.next_toFile, Db.next, hc]
      exact Nat.lt_succ_of_le hle
    rw [← hdb]
    refine h.put ?_ _ _
    exact .of_intact (by simp [Process.afterBody]) hs.indexed hintact ⟨hn, hlt, hstop, hfeed⟩
  | recorded indexed =>
    have hlt : n < w.file.next := hnext
    rw [← hdb]
    refine h.put ?_ _ _
    refine .of_intact (by simp [Process.afterBody]) ?_ hintact ⟨hn, hlt, hstop, hfeed⟩
    have hindexed := hs.indexed
    cases indexed with
    | true => simp only [Process.afterBody, IndexerStatus.setLastIndexed]; omega
    | false => exact hindexed
  | observed =>
    have hlt : n < w.file.next := hnext
    rw [← hdb]
    refine h.put ?_ _ _
    exact .of_intact (by simp [Process.afterBody]) hs.indexed hintact ⟨hlt, hstop, hfeed⟩

/-- What a replay yields reaches up to everything announced so far. -/
theorem World.Sound.covered_notices (h : w.Sound net.chainId) :
    Covered w.sent (max w.file.next (w.tip + 1)) w.notices := by
  have hsent := h.sent_le
  refine covered_of_le (fun f l hmem => ?_) (by omega)
  obtain ⟨note, hnote, heq⟩ := List.mem_map.mp hmem
  cases note with
  | chainExecuted first last =>
    cases heq
    have := h.queue f l hnote
    omega
  | lagged missed => cases heq
  | certificateAccepted => cases heq
  | consensusOutput => cases heq

theorem World.Sound.task (h : w.Sound net.chainId) (hp : w.process = some p)
    (hstep : World.TaskStep net w p w') : w'.Sound net.chainId := by
  have hs := h.process p hp
  have hcovers := hs.covers
  cases hstep with
  | failed => exact h.put hs.exit _ _
  | opened hpc hrun => exact h.opened hp hpc hrun
  | notOpened hpc hrun => exact h.notOpened hp hpc hrun
  | @seeded db hpc hdb =>
    refine h.put ?_ _ _
    refine .of_intact (by simp) ?_ (hs.intact (Or.inl (by rw [hpc]; rfl))) trivial
    have hindexed := hs.indexed
    rw [hdb, Db.next_toFile, Db.next] at hindexed ⊢
    cases hc : db.cursor with
    | none => rw [hc] at hindexed; exact hindexed
    | some c =>
      rw [hc] at hindexed
      simp only [Option.elim, IndexerStatus.setLastIndexed] at hindexed ⊢
      omega
  | spawned hpc =>
    refine h.put ?_ _ _
    exact .of_intact (by simp) hs.indexed (hs.intact (Or.inl (by rw [hpc]; rfl))) trivial
  | guarded hpc =>
    refine h.put ?_ _ _
    exact .of_intact (by simp) hs.indexed (hs.intact (Or.inl (by rw [hpc]; rfl))) trivial
  | @startRead db hpc hdb =>
    refine h.put (hs.goto (by rw [hpc]; rfl) (by simp) ?_) _ _
    rw [Pc.Covers, hdb]
    exact replayStart_le db
  | tipRead hpc =>
    rw [hpc] at hcovers
    refine h.put (hs.goto (by rw [hpc]; rfl) (by simp) ?_) _ _
    exact hcovers
  | tipObserved hpc =>
    rw [hpc] at hcovers
    refine h.put ?_ _ _
    exact .of_intact (by simp) hs.indexed (hs.intact (Or.inl (by rw [hpc]; rfl))) hcovers
  | @replayed start hpc =>
    rw [hpc] at hcovers
    refine h.put (hs.goto (by rw [hpc]; rfl) (by simp) ?_) _ _
    exact ⟨hcovers, Nat.le_refl _, h.covered_notices⟩
  | taken hpc hn =>
    rw [hpc] at hcovers
    refine h.put (hs.goto (by rw [hpc]; rfl) (by simp) ?_) _ _
    exact ⟨hn, hcovers⟩
  | drained hpc hn =>
    rw [hpc] at hcovers
    refine h.put (hs.goto (by rw [hpc]; rfl) (by simp) ?_) _ _
    have hmax := hcovers.2.2
    rwa [Nat.max_eq_left (hn.trans hcovers.1)] at hmax
  | reported hpc =>
    rw [hpc] at hcovers
    refine h.put (hs.goto (by rw [hpc]; rfl) (by simp) ?_) _ _
    exact hcovers
  | @segment first last queue hpc hq =>
    rw [hpc, Pc.Covers, World.notices, hq] at hcovers
    obtain ⟨hfirst, hfeed⟩ := hcovers
    have hlast := h.queue first last (hq ▸ List.mem_cons_self)
    have hsent := h.sent_le
    refine ⟨h.tail hq _, h.file, fun q hq => ?_⟩
    cases hq
    exact .of_intact (by simp [Process.goto]) hs.indexed (hs.intact (Or.inl (by rw [hpc]; rfl)))
      ⟨hfirst, by dsimp only; omega, hfeed⟩
  | lagged hpc hq =>
    refine ⟨h.tail hq _, h.file, fun q hq => ?_⟩
    cases hq
    exact .of_intact (by simp [Process.goto]) hs.indexed (hs.intact (Or.inl (by rw [hpc]; rfl)))
      trivial
  | @silent note queue hpc hq hnote =>
    rw [hpc, Pc.Covers, World.notices, hq, List.map_cons, hnote] at hcovers
    refine ⟨h.tail hq _, h.file, fun q hq => ?_⟩
    cases hp.symm.trans hq
    exact ⟨hs.fresh, hs.indexed, hs.intact, hpc ▸ hcovers⟩
  | body hpc hdb hstep => exact h.body hp hpc hdb (Stage.step_spec hstep) _
  | shutdown hpc =>
    refine h.put ?_ _ _
    exact .of_intact (by simp) hs.indexed (hs.intact (Or.inl (by rw [hpc]; rfl))) trivial

/-! ### Whole runs -/

theorem World.Sound.step (h : w.Sound net.chainId) (hstep : World.Step net w w') :
    w'.Sound net.chainId := by
  cases hstep with
  | execute hlt =>
    have hsent := h.sent_le
    exact h.node ⟨hlt, by dsimp only; omega, h.queue⟩ rfl rfl (Nat.le_succ _) fun _ hc => hc
  | send hfirst hle hlast => exact h.send hfirst hle hlast
  | announce hnote => exact h.announce hnote
  | lose kept lost missed => exact h.lose kept lost missed
  | task hp hstep => exact h.task hp hstep
  | health hp hstep => exact h.health hp hstep
  | start hnone hsent =>
    refine ⟨⟨h.tip_lt, hsent, by simp⟩, h.file, fun q hq => ?_⟩
    cases hq
    refine ⟨fun _ => rfl, Nat.zero_le _, fun ho => ?_, trivial⟩
    rcases ho with h | h | h | h <;> contradiction
  | kill => exact ⟨⟨h.tip_lt, h.sent_le, h.queue⟩, h.file, by simp⟩

/-- **The invariant holds in every reachable state**, over any file an open can meet. -/
theorem sound_of_reachable
    (hstart : ∀ f, start f → Rebuildable f ∨ ∃ stored, Intact stored f)
    (hw : (exexSystem net start).Reachable w) : w.Sound net.chainId := by
  induction hw with
  | @init w h =>
    refine ⟨⟨h.tip, h.sent, fun f l hmem => ?_⟩, hstart _ h.file, fun p hp => ?_⟩
    · rw [h.queue] at hmem
      cases hmem
    · rw [h.process] at hp
      cases hp
  | step _ ht ih => exact ih.step (World.step_spec ht)

/-! ### The files the program makes itself -/

/-- The block in the body of `index_chain`. -/
def World.current (net : Network) (w : World) : Option (ExtractedBlock × Stage) :=
  w.process.bind fun p =>
    match p.pc with
    | .body n _ stage => some (net.extracted n, stage)
    | _ => none

/-- The index is whole: it holds the rows of the blocks up to the cursor, each block was committed
once and in order, and the task is the loop on freely chosen blocks. -/
structure World.Whole (net : Network) (w : World) (db : Db) : Prop where
  file : w.file = db.toFile
  intact : Intact net.chainId db.toFile
  reference : Reference net.up net.chain db.next db
  /-- The node has executed every indexed block. -/
  executed : db.next ≤ w.tip + 1
  committed : w.committed = List.range db.next
  reported : ∀ height ∈ w.reported, height < db.next
  loop : ∃ commits, (loopSystem net.up).Reachable ⟨db, w.current net, commits⟩ ∧
    commits.map Prod.fst = w.committed

/-- Nothing has been written yet, or the index is whole. -/
def World.Started (net : Network) (start : File → Prop) (w : World) : Prop :=
  (Rebuildable w.file ∧ ((∀ f, start f → f.Vacant) → w.file.Vacant) ∧ w.committed = [] ∧
    w.reported = []) ∨ ∃ db, w.Whole net db

/-- The task leaves the body, or stays where it is. -/
theorem World.Whole.frame {db : Db} (h : w.Whole net db) (hfile : w'.file = w.file)
    (htip : w.tip ≤ w'.tip)
    (hcommitted : w'.committed = w.committed) (hreported : w'.reported = w.reported)
    (hcurrent : w'.current net = w.current net ∨ w'.current net = none) : w'.Whole net db where
  file := hfile.trans h.file
  intact := h.intact
  reference := h.reference
  executed := h.executed.trans (Nat.succ_le_succ htip)
  committed := hcommitted.trans h.committed
  reported := hreported ▸ h.reported
  loop := by
    obtain ⟨commits, hloop, hcommits⟩ := h.loop
    refine ⟨commits, ?_, hcommits.trans hcommitted.symm⟩
    rcases hcurrent with heq | heq
    · rwa [heq]
    · rw [heq]
      exact hloop.step (a := .exit) rfl

theorem World.Started.frame (h : w.Started net start) (hfile : w'.file = w.file)
    (htip : w.tip ≤ w'.tip)
    (hcommitted : w'.committed = w.committed) (hreported : w'.reported = w.reported)
    (hcurrent : w'.current net = w.current net ∨ w'.current net = none) : w'.Started net start := by
  rcases h with ⟨hr, hv, hc, hrep⟩ | ⟨db, h⟩
  · exact Or.inl ⟨hfile ▸ hr, fun hs => hfile ▸ hv hs, hcommitted.trans hc, hreported.trans hrep⟩
  · exact Or.inr ⟨db, h.frame hfile htip hcommitted hreported hcurrent⟩

/-- A file that belongs to the chain is a whole index. -/
theorem World.Started.whole (h : w.Started net start) (hintact : Intact net.chainId w.file) :
    ∃ db, w.Whole net db := by
  rcases h with ⟨hr, -⟩ | h
  · exact absurd hintact (not_intact_of_rebuildable _ hr)
  · exact h

theorem World.Started.opened (h : w.Started net start) {budget : Option ℕ} {s : Session File}
    (hrun : migrate net.chainId ⟨w.file, budget⟩ = (.ok (), s)) :
    World.Started net start { w with file := s.store, process := some (p.goto .seeding) } := by
  rcases h with ⟨hr, -, hc, hrep⟩ | ⟨db, h⟩
  · obtain ⟨hintact, heq | ⟨-, heq⟩⟩ := migrate_returns _ (Or.inl hr) hrun
    · exact absurd (heq ▸ hintact) (not_intact_of_rebuildable _ hr)
    · refine Or.inr ⟨freshDb net.chainId, heq, intact_freshDb _, ?_, ?_, ?_, ?_, [],
        .init ⟨_, rfl⟩, ?_⟩
      · rw [Db.next, cursor_freshDb]
        exact reference_freshDb _
      · rw [Db.next, cursor_freshDb]
        exact Nat.zero_le _
      · rw [Db.next, cursor_freshDb]
        exact hc
      · rw [hrep]
        simp
      · exact hc.symm
  · have hintact := h.file ▸ h.intact
    rcases (migrate_returns _ (Or.inr ⟨_, hintact⟩) hrun).2 with heq | ⟨hr, -⟩
    · exact Or.inr ⟨db, h.frame heq le_rfl rfl rfl (Or.inr rfl)⟩
    · exact absurd hintact (not_intact_of_rebuildable _ hr)

theorem World.Started.notOpened (h : w.Started net start) {budget : Option ℕ} {stop : Stop Error}
    {s : Session File} (hrun : migrate net.chainId ⟨w.file, budget⟩ = (.error stop, s)) :
    World.Started net start { w with file := s.store, process := some p.exit } := by
  rcases h with ⟨hr, hv, hc, hrep⟩ | ⟨db, h⟩
  · refine Or.inl ⟨?_, fun hs => ?_, hc, hrep⟩
    swap
    · have hv := (hv hs).migrate net.chainId budget
      rwa [hrun] at hv
    rcases migrate_stops _ (Or.inl hr) hrun with heq | ⟨-, hs⟩
    · exact heq ▸ hr
    · exact hs
  · have hintact := h.file ▸ h.intact
    rcases migrate_stops _ (Or.inr ⟨_, hintact⟩) hrun with heq | ⟨hr, -⟩
    · exact Or.inr ⟨db, h.frame heq le_rfl rfl rfl (Or.inr rfl)⟩
    · exact absurd hintact (not_intact_of_rebuildable _ hr)

theorem World.Whole.body {db db' : Db} (h : w.Whole net db) (hs : w.Sound net.chainId)
    (hp : w.process = some p) {n stop : ℕ} {stage : Stage} {action : StageAction}
    {progress : Progress} (hpc : p.pc = .body n stop stage)
    (hstep : stage.step (net.extracted n) db action = some (db', progress)) :
    World.Whole net { w with
      file := db'.toFile
      process := some (p.afterBody n stop stage progress)
      committed := if (stage.committed progress).isSome then w.committed ++ [n]
        else w.committed } db' := by
  have hcovers := (hs.process p hp).covers
  rw [hpc] at hcovers
  obtain ⟨hn, hnext, hstop, -⟩ := hcovers
  have hcurrent : w.current net = some (net.extracted n, stage) := by
    simp only [World.current, hp, hpc, Option.bind_some]
  -- the task's step is a step of the loop
  obtain ⟨commits, hloop, hcommits⟩ := h.loop
  have hloop' := hloop.step (a := .step action)
    (t := LoopState.after ⟨db, w.current net, commits⟩ (net.extracted n) stage db' progress) (by
      simp only [loopSystem, LoopState.step, hcurrent, Option.bind_eq_bind, Option.bind_some,
        hstep])
  have hafter : ∀ cs, World.current net { w with
      file := db'.toFile, process := some (p.afterBody n stop stage progress), committed := cs } =
      (LoopState.after ⟨db, w.current net, commits⟩ (net.extracted n) stage db' progress).current :=
    fun _ => by cases progress <;> rfl
  rcases (Stage.step_spec hstep).committed with ⟨rfl, hnone⟩ | ⟨rows, hsome, rfl, habove⟩
  · refine ⟨rfl, h.intact, h.reference, h.executed, ?_, h.reported, commits, ?_, ?_⟩
    · rw [hnone]
      exact h.committed
    · rw [hafter]
      simpa only [LoopState.after, hnone] using hloop'
    · rw [hnone]
      exact hcommits
  · rw [net.number_extracted] at habove
    have htip := hs.tip_lt
    have heq : n = db.next := by
      refine Nat.le_antisymm ?_ (next_le_of_above habove)
      rw [← Db.next_toFile, ← h.file]
      split at hnext <;> omega
    have hnext' : (db.applied (net.extracted n) rows).next = n + 1 :=
      net.next_applied_extracted db rows (by omega)
    refine ⟨rfl, h.intact.applied _ _, ?_, ?_, ?_, ?_, commits ++ [(n, rows)], ?_, ?_⟩
    · rw [hnext']
      exact (heq ▸ h.reference).applied rows
    · rw [hnext']
      dsimp only
      omega
    · rw [hsome, hnext', List.range_succ, Option.isSome_some, if_pos rfl, h.committed, heq]
    · intro height hmem
      have := h.reported height hmem
      rw [hnext']
      omega
    · rw [hafter]
      simpa only [LoopState.after, hsome, net.number_extracted] using hloop'
    · rw [hsome, Option.isSome_some, if_pos rfl, List.map_append, hcommits]
      rfl

theorem World.Whole.reported' {db : Db} (h : w.Whole net db) (hs : p.Sound net.chainId w)
    (hp : w.process = some p) (hpc : p.pc = .reporting) :
    World.Whole net { w with
      process := some (p.goto .following)
      reported := w.reported ++ p.status.lastIndexed.toList } db := by
  refine ⟨h.file, h.intact, h.reference, h.executed, h.committed, fun height hmem => ?_, ?_⟩
  · rcases List.mem_append.mp hmem with hmem | hmem
    · exact h.reported height hmem
    · rw [Option.mem_toList, IndexerStatus.lastIndexed_eq_some] at hmem
      have hindexed := hs.indexed
      rw [h.file, Db.next_toFile] at hindexed
      omega
  · have hnone : w.current net = none := by
      simp only [World.current, hp, hpc, Option.bind_some]
    have hloop := h.loop
    rw [hnone] at hloop
    exact hloop

/-- The task takes up a block: the loop on freely chosen blocks is handed it. -/
theorem World.Whole.taken {db : Db} (h : w.Whole net db) (hs : w.Sound net.chainId)
    (hp : w.process = some p) {n stop : ℕ} (hpc : p.pc = .indexing n stop) (hn : n < stop) :
    World.Whole net (w.put (p.goto (.body n stop .reading))) db := by
  have hcovers := (hs.process p hp).covers
  rw [hpc] at hcovers
  have hbound : n < 2 ^ 64 := by
    have hstop := hcovers.2.1
    have htip := hs.tip_lt
    omega
  have hnone : w.current net = none := by
    simp only [World.current, hp, hpc, Option.bind_some]
  obtain ⟨commits, hloop, hcommits⟩ := h.loop
  rw [hnone] at hloop
  refine ⟨h.file, h.intact, h.reference, h.executed, h.committed, h.reported, commits, ?_, hcommits⟩
  refine hloop.step (a := .begin (net.chain.block n) (net.chain.receipts n)) ?_
  simp only [loopSystem, LoopState.step, net.chain.number_block, if_pos hbound]
  rfl

theorem World.Started.step (h : w.Started net start) (hs : w.Sound net.chainId)
    (hstep : World.Step net w w') : w'.Started net start := by
  cases hstep with
  | execute => exact h.frame rfl (Nat.le_succ _) rfl rfl (Or.inl rfl)
  | send | announce | lose => exact h.frame rfl le_rfl rfl rfl (Or.inl rfl)
  | start | kill => exact h.frame rfl le_rfl rfl rfl (Or.inr rfl)
  | @health p p' hp hstep =>
    refine h.frame rfl le_rfl rfl rfl (Or.inl ?_)
    have hpc : p'.pc = p.pc := by cases hstep <;> rfl
    simp only [World.current, World.put, hp, Option.bind_some, hpc]
  | @task p w' hp hstep =>
    have hsound := hs.process p hp
    cases hstep with
    | opened hpc hrun => exact h.opened hrun
    | notOpened hpc hrun => exact h.notOpened hrun
    | reported hpc =>
      obtain ⟨db, hwhole⟩ := h.whole (hsound.intact (Or.inl (by rw [hpc]; rfl)))
      exact Or.inr ⟨db, hwhole.reported' hsound hp hpc⟩
    | @body n stop stage action db db' progress hpc hdb hstep =>
      obtain ⟨db₀, hwhole⟩ := h.whole (hsound.intact (Or.inl (by rw [hpc]; rfl)))
      cases Db.toFile_injective (hdb.symm.trans hwhole.file)
      exact Or.inr ⟨db', hwhole.body hs hp hpc hstep⟩
    | taken hpc hn =>
      obtain ⟨db, hwhole⟩ := h.whole (hsound.intact (Or.inl (by rw [hpc]; rfl)))
      exact Or.inr ⟨db, hwhole.taken hs hp hpc hn⟩
    | silent hpc hq hnote => exact h.frame rfl le_rfl rfl rfl (Or.inl rfl)
    | failed => exact h.frame rfl le_rfl rfl rfl (Or.inr rfl)
    | seeded | spawned | guarded | startRead | tipRead | tipObserved | replayed | drained | segment
    | lagged | shutdown => exact h.frame rfl le_rfl rfl rfl (Or.inr rfl)

/-- Over a file whose tables an open drops or creates, nothing has been written yet or the index is
whole. -/
theorem started_of_reachable (hstart : ∀ f, start f → Rebuildable f)
    (hw : (exexSystem net start).Reachable w) : w.Started net start := by
  induction hw with
  | init h => exact Or.inl ⟨hstart _ h.file, fun hv => hv _ h.file, h.committed, h.reported⟩
  | step hw ht ih =>
    exact ih.step (sound_of_reachable (fun f hf => Or.inl (hstart f hf)) hw) (World.step_spec ht)

theorem rebuildable_empty : ∀ f, f = File.empty → Rebuildable f := fun _ hf => Or.inr (Or.inl hf)

/-- **No block is lost or applied twice.** In every reachable state of the system over a file the
program made itself, whatever the node, the channel, the crashes and the failures did: the committed
blocks are those up to the cursor, each was committed once, every reported height is at or below the
cursor, and the file holds the rows of these blocks and no others. -/
theorem no_block_lost (hw : (exexSystem net (· = File.empty)).Reachable w) :
    (∀ n, n ∈ w.committed ↔ ∃ c, w.file.cursor = some c ∧ n ≤ c) ∧ w.committed.Nodup ∧
      (∀ height ∈ w.reported, ∃ c, w.file.cursor = some c ∧ height ≤ c) ∧
      (w.file.Vacant ∨ ∃ db, w.file = db.toFile ∧ Reference net.up net.chain db.next db) := by
  rcases started_of_reachable rebuildable_empty hw with ⟨-, hv, hc, hrep⟩ | ⟨db, h⟩
  · have hv := hv fun f hf => hf ▸ vacant_empty
    rw [hc, hrep, hv.cursor]
    exact ⟨by simp, List.nodup_nil, by simp, Or.inl hv⟩
  · have hlt : ∀ n, n < db.next ↔ ∃ c, w.file.cursor = some c ∧ n ≤ c := fun n => by
      rw [h.file, Db.cursor_toFile, Db.next]
      cases db.cursor with
      | none => simp
      | some c => simp only [Option.elim_some, Option.some.injEq, exists_eq_left', Nat.lt_succ_iff]
    refine ⟨fun n => ?_, ?_, fun height hmem => (hlt height).mp (h.reported height hmem),
      Or.inr ⟨db, h.file, h.reference⟩⟩
    · rw [h.committed, List.mem_range, hlt]
    · rw [h.committed]
      exact List.nodup_range

/-- The task is the loop on freely chosen blocks: what holds in every state of that loop holds of
the files of the program. -/
theorem loop_of_exex (hstart : ∀ f, start f → Rebuildable f)
    (hw : (exexSystem net start).Reachable w) (hintact : Intact net.chainId w.file) :
    ∃ db commits, w.file = db.toFile ∧ (loopSystem net.up).Reachable ⟨db, w.current net, commits⟩ ∧
      commits.map Prod.fst = w.committed := by
  obtain ⟨db, h⟩ := (started_of_reachable hstart hw).whole hintact
  obtain ⟨commits, hloop, hcommits⟩ := h.loop
  exact ⟨db, commits, h.file, hloop, hcommits⟩

/-! ### A run -/

/-- A chain of blocks with one transaction each. -/
def steadyNetwork : Network := ⟨plainUpstream, steadyChain.toChain, 7⟩

/-- The node at a block, and no file. -/
def freshWorld (tip : ℕ) : World := ⟨tip, 0, [], File.empty, none, [], []⟩

theorem freshWorld_initial {tip : ℕ} (h : tip < 2 ^ 64) :
    (freshWorld tip).Initial (· = File.empty) := ⟨h, Nat.zero_le _, rfl, rfl, rfl, rfl, rfl⟩

/-- A run without a file at first that ends with an index, and what is seen there. -/
theorem exists_index_of_run {net : Network} {tip : ℕ} {actions : List WorldAction} {α : Type}
    {f : World → Db → α} {a : α} (htip : tip < 2 ^ 64)
    (hrun : ((exexSystem net (· = File.empty)).run (freshWorld tip) actions).bind (fun w =>
      w.file.toDb.map (f w)) = some a) :
    ∃ w db, (exexSystem net (· = File.empty)).run (freshWorld tip) actions = some w ∧
      (exexSystem net (· = File.empty)).Reachable w ∧ w.file = db.toFile ∧ f w db = a := by
  obtain ⟨w, hw, hrun⟩ := Option.bind_eq_some_iff.mp hrun
  obtain ⟨db, hdb, hseen⟩ := Option.map_eq_some_iff.mp hrun
  exact ⟨w, db, hw, (TransitionSystem.Reachable.init (freshWorld_initial htip)).trans_run hw,
    File.toDb_eq_some_iff.mp hdb, hseen⟩

/-- The body on a block without token candidates. -/
def bodyActions : List WorldAction :=
  [.task .advance, .task (.body .readStates), .task (.body (.commit none)), .task (.body .record),
    .task (.body .observe)]

/-- From process start to the replay of what the node has executed. -/
def startActions (sent : ℕ) : List WorldAction :=
  [.start sent, .task (.openFile none)] ++ List.replicate 7 (.task .advance)

/-- A killed open, a replay of the genesis block, a dropped announcement, a replay that overtakes a
segment, a commit the process does not live to see, and a restart. -/
def crashActions : List WorldAction :=
  [.start 0, .task (.openFile (some 5)), .kill] ++ startActions 1 ++ bodyActions ++
    List.replicate 2 (.task .advance) ++
    [.node .execute, .node (.send 1 1), .node (.lose 0 1 1), .node .execute, .node (.send 2 2)] ++
    List.replicate 5 (.task .advance) ++ bodyActions ++ bodyActions ++
    List.replicate 3 (.task .advance) ++ bodyActions ++
    List.replicate 2 (.task .advance) ++
    [.node .execute, .node (.send 3 3), .task .advance, .task .advance, .task (.body .readStates),
      .task (.body (.commit none)), .kill] ++ startActions 4 ++ [.task .advance, .task .advance]

/-- That run commits the blocks `0..=3`, and each report is covered. -/
theorem no_block_lost_crash :
    ∃ w, (exexSystem steadyNetwork (· = File.empty)).run (freshWorld 0) crashActions = some w ∧
      w.file.cursor = some 3 ∧ w.reported = [0, 2, 2, 3] ∧ w.committed.Nodup ∧
      ∀ n, n ∈ w.committed ↔ n ≤ 3 := by
  have hrun : ((exexSystem steadyNetwork (· = File.empty)).run (freshWorld 0) crashActions).map
      (fun w => (w.file.cursor, w.reported)) = some (some 3, [0, 2, 2, 3]) := by decide +kernel
  obtain ⟨w, hw, heq⟩ := Option.map_eq_some_iff.mp hrun
  obtain ⟨hcursor, hreported⟩ := Prod.mk.inj heq
  obtain ⟨hmem, hnodup, -⟩ := no_block_lost
    ((TransitionSystem.Reachable.init (freshWorld_initial (by decide))).trans_run hw)
  refine ⟨w, hw, hcursor, hreported, hnodup, fun n => ?_⟩
  rw [hmem, hcursor]
  simp

end ExplorerIndexer
