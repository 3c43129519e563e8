import ExplorerIndexer.IndexLoop
import ExplorerIndexer.Status
import ExplorerIndexer.Library.Feed

/-!
# The node, the indexing task and the API

The whole of `indexer_exex` next to the node it runs in. The node executes blocks and announces them
over a channel that may drop announcements; the task opens its file, spawns the API, catches up by
replay and follows the channel; the API answers `/health`. The steps of the three interleave in any
order, the task may fail at any of its steps, and the process may be killed and started again.

The chain is fixed: `chain.block n` is what the node executes as block `n`. The node has executed
the blocks up to `tip`, and a replay yields what it has executed when the replay is opened.

Heights are 64-bit numbers, so a node never executes a block above them.

## Main definitions

* `Pc`, `Process`, `World` — where the task stands, its process, and the node and file around it
* `World.step`, `exexSystem` — the steps, and the runs from given start files

## Main results

* `World.step_spec` — everything a step can do
-/

namespace ExplorerIndexer

/-- A notification of the node. `Chain` segments are named by their first and last block. -/
inductive TnExExNotification where
  | chainExecuted (first last : ℕ)
  | lagged (missed : ℕ)
  | certificateAccepted
  | consensusOutput
  deriving DecidableEq, Repr

/-- What a notification tells about the heights of the chain. -/
def TnExExNotification.notice : TnExExNotification → Feed.Notice
  | .chainExecuted first last => .segment first last
  | .lagged _ => .gap
  | .certificateAccepted | .consensusOutput => .silent

/-- Where the task of `indexer_exex` stands: the await points and the writes to shared state that
other tasks can come between. -/
inductive Pc where
  /-- In `Writer::open`. -/
  | opening
  /-- Before the status is seeded with the cursor. -/
  | seeding
  /-- Before the API task is spawned. -/
  | spawning
  /-- Before `LiveGuard::new`. -/
  | guarding
  /-- `catch_up`, before the cursor is read. -/
  | catchingUp
  | readingTip (start : ℕ)
  | observingTip (start tip : ℕ)
  /-- Before `replay_from(start)`. -/
  | replaying (start : ℕ)
  /-- Between blocks of a replay or of a live segment: the blocks `n..stop` are left. -/
  | indexing (n stop : ℕ)
  /-- In the body of `index_chain` with block `n`. -/
  | body (n stop : ℕ) (stage : Stage)
  /-- Before `report_progress`. -/
  | reporting
  /-- Waiting for the next notification. -/
  | following
  /-- The task has returned an error or panicked. -/
  | exited
  /-- The node has closed the channel, and the API is down. -/
  | ended
  deriving DecidableEq

/-- What a `/health` request found when it was asked: the tip of the node, and whether the task had
exited. No code reads this. -/
structure Asked where
  tip : ℕ
  exited : Bool
  deriving DecidableEq, Repr

/-- A process that runs the task and the API. -/
structure Process where
  pc : Pc
  status : IndexerStatus
  /-- The API task serves. -/
  api : Bool
  /-- The requests the API is answering. -/
  requests : List (Asked × HealthRequest)
  /-- The answers it has given. No code reads this. -/
  responses : List (Asked × HealthResponse)
  /-- The tip of the node when the process started. No code reads this. -/
  startTip : ℕ

/-- The node, the channel, the file and the process. -/
structure World where
  /-- The last block the node has executed. -/
  tip : ℕ
  /-- Every block below was announced, or was executed before the subscription. -/
  sent : ℕ
  /-- The announcements not delivered yet. -/
  queue : List TnExExNotification
  file : File
  process : Option Process
  /-- The blocks committed, in order. No code reads this. -/
  committed : List ℕ
  /-- The heights passed to `report_finished_height`, in order. -/
  reported : List ℕ

/-! ### The node -/

/-- A step of the node or of its channel. -/
inductive NodeAction where
  | execute
  | send (first last : ℕ)
  | certificate
  | output
  /-- Drop `lost` notifications behind the first `kept`, and mark the place. -/
  | lose (kept lost missed : ℕ)
  deriving DecidableEq, Repr

/-- A block is executed before it is announced, and announcements leave no gap. -/
def World.nodeStep (w : World) : NodeAction → Option World
  | .execute => if w.tip + 1 < 2 ^ 64 then some { w with tip := w.tip + 1 } else none
  | .send first last =>
    if first ≤ w.sent ∧ first ≤ last ∧ last ≤ w.tip then
      some { w with
        sent := max w.sent (last + 1)
        queue := w.queue ++ [.chainExecuted first last] }
    else none
  | .certificate => some { w with queue := w.queue ++ [.certificateAccepted] }
  | .output => some { w with queue := w.queue ++ [.consensusOutput] }
  | .lose kept lost missed =>
    some { w with queue := w.queue.take kept ++ .lagged missed :: w.queue.drop (kept + lost) }

/-! ### The task -/

/-- The task moves on. -/
def Process.goto (p : Process) (pc : Pc) : Process := { p with pc := pc }

/-- The task returns an error or panics: the guard drops, the API stays up. -/
def Process.exit (p : Process) : Process :=
  { p with pc := .exited, status := p.status.setLive false }

/-- The world with the process changed. -/
def World.put (w : World) (p : Process) : World := { w with process := some p }

/-- The first block of a replay: `map_or(0, |cursor| cursor + 1)`, in 64 bits. -/
def replayStart : Option ℕ → ℕ
  | none => 0
  | some cursor => (cursor + 1) % 2 ^ 64

/-- The steps of the task that leave no choice. -/
def World.advance (w : World) (p : Process) : Option World :=
  match p.pc with
  | .seeding => do
    let db ← w.file.toDb
    match db.readCursor with
    | .ok none => some (w.put (p.goto .spawning))
    | .ok (some cursor) =>
      some (w.put { p with pc := .spawning, status := p.status.setLastIndexed cursor })
    | .error _ => some (w.put p.exit)
  | .spawning => some (w.put { p with pc := .guarding, api := true })
  | .guarding => some (w.put { p with pc := .catchingUp, status := p.status.setLive true })
  | .catchingUp => do
    let db ← w.file.toDb
    match db.readCursor with
    | .ok cursor => some (w.put (p.goto (.readingTip (replayStart cursor))))
    | .error _ => some (w.put p.exit)
  | .readingTip start => some (w.put (p.goto (.observingTip start w.tip)))
  | .observingTip start tip =>
    some (w.put { p with pc := .replaying start, status := p.status.setNodeTip tip })
  | .replaying start => some (w.put (p.goto (.indexing start (w.tip + 1))))
  | .indexing n stop =>
    some (w.put (p.goto (if n < stop then .body n stop .reading else .reporting)))
  | .reporting =>
    some { w with
      process := some (p.goto .following)
      reported := w.reported ++ p.status.lastIndexed.toList }
  | .following =>
    match w.queue with
    | .chainExecuted first last :: queue =>
      some { w with queue := queue, process := some (p.goto (.indexing first (last + 1))) }
    | .lagged _ :: queue => some { w with queue := queue, process := some (p.goto .catchingUp) }
    | .certificateAccepted :: queue | .consensusOutput :: queue => some { w with queue := queue }
    | [] => none
  | .opening | .body .. | .exited | .ended => none

/-- The process after a step of the body of `index_chain` with block `n`. -/
def Process.afterBody (p : Process) (n stop : ℕ) (stage : Stage) : Progress → Process
  | .into stage' =>
    { p with
      pc := .body n stop stage'
      status :=
        match stage with
        | .recording true => p.status.setLastIndexed n
        | _ => p.status }
  | .done => { p with pc := .indexing (n + 1) stop, status := p.status.setNodeTip n }
  | .failed => p.exit

/-- A step of the task. -/
inductive TaskAction where
  /-- Run `migrate`, killed after so many statements. -/
  | openFile (budget : Option ℕ)
  | advance
  | body (action : StageAction)
  /-- Any error or panic. -/
  | fail
  /-- The channel is closed. -/
  | shutdown
  deriving DecidableEq

/-- The blocks of the chain, with their senders' nonces decoded by the node, and the chain id of the
node's network. -/
structure Network where
  up : Upstream
  chain : Chain
  chainId : UInt64

variable (net : Network)

/-- What the task extracts from block `n`. -/
def Network.extracted (n : ℕ) : ExtractedBlock :=
  extractBlock net.up (net.chain.block n) (net.chain.receipts n)

theorem Network.number_extracted (n : ℕ) : (net.extracted n).number = n := by
  rw [Network.extracted, number_extractBlock, net.chain.number_block]

/-- The steps of the task. -/
def World.taskStep (w : World) (p : Process) : TaskAction → Option World
  | .openFile budget =>
    match p.pc with
    | .opening =>
      match migrate net.chainId ⟨w.file, budget⟩ with
      | (.ok (), s) => some { w with file := s.store, process := some (p.goto .seeding) }
      | (.error _, s) => some { w with file := s.store, process := some p.exit }
    | _ => none
  | .advance => w.advance p
  | .body action =>
    match p.pc with
    | .body n stop stage => do
      let db ← w.file.toDb
      let (db', progress) ← stage.step (net.extracted n) db action
      some { w with
        file := db'.toFile
        process := some (p.afterBody n stop stage progress)
        committed := if (stage.committed progress).isSome then w.committed ++ [n]
          else w.committed }
    | _ => none
  | .fail =>
    match p.pc with
    | .exited | .ended => none
    | _ => some (w.put p.exit)
  | .shutdown =>
    match p.pc, w.queue with
    | .following, [] =>
      some (w.put { p with pc := .ended, api := false, status := p.status.setLive false })
    | _, _ => none

/-! ### The API -/

/-- A step of the API. -/
inductive HealthAction where
  | ask
  /-- The next load of the `k`-th request. -/
  | load (k : ℕ)
  deriving DecidableEq, Repr

/-- The steps of the API on requests for `/health`. -/
def Process.healthStep (p : Process) (tip : ℕ) : HealthAction → Option Process
  | .ask =>
    if p.api then
      some { p with requests := p.requests ++ [(⟨tip, decide (p.pc = .exited)⟩, .asked)] }
    else none
  | .load k => do
    let (asked, request) ← p.requests[k]?
    match request.load p.status with
    | .inl request' => some { p with requests := p.requests.set k (asked, request') }
    | .inr response =>
      some { p with
        requests := p.requests.eraseIdx k
        responses := p.responses ++ [(asked, response)] }

/-! ### The whole system -/

/-- A step of the system. -/
inductive WorldAction where
  | node (action : NodeAction)
  | task (action : TaskAction)
  | health (action : HealthAction)
  /-- Start a process. Its subscription delivers every announcement from `sent` on. -/
  | start (sent : ℕ)
  | kill
  deriving DecidableEq

/-- A process that starts when the node is at `tip`. -/
def Process.start (tip : ℕ) : Process where
  pc := .opening
  status := .default
  api := false
  requests := []
  responses := []
  startTip := tip

/-- The steps of the system. -/
def World.step (w : World) : WorldAction → Option World
  | .node action => w.nodeStep action
  | .task action => do w.taskStep net (← w.process) action
  | .health action => do
    let p ← w.process
    let p' ← p.healthStep w.tip action
    some (w.put p')
  | .start sent =>
    match w.process with
    | some _ => none
    | none =>
      if sent ≤ w.tip + 1 then
        some { w with sent := sent, queue := [], process := some (.start w.tip) }
      else none
  | .kill => some { w with process := none }

/-- A world no process has run in yet. -/
structure World.Initial (start : File → Prop) (w : World) : Prop where
  tip : w.tip < 2 ^ 64
  sent : w.sent ≤ w.tip + 1
  queue : w.queue = []
  file : start w.file
  process : w.process = none
  committed : w.committed = []
  reported : w.reported = []

/-- Runs over the files that satisfy `start`. -/
def exexSystem (start : File → Prop) : TransitionSystem World WorldAction where
  init := World.Initial start
  step := World.step net

/-! ### What the steps can do -/

/-- Everything a step of the task can do. -/
inductive World.TaskStep (w : World) (p : Process) : World → Prop where
  | failed : TaskStep w p (w.put p.exit)
  | opened {budget : Option ℕ} {s : Session File} (hpc : p.pc = .opening)
      (hrun : migrate net.chainId ⟨w.file, budget⟩ = (.ok (), s)) :
      TaskStep w p { w with file := s.store, process := some (p.goto .seeding) }
  | notOpened {budget : Option ℕ} {stop : Stop Error} {s : Session File} (hpc : p.pc = .opening)
      (hrun : migrate net.chainId ⟨w.file, budget⟩ = (.error stop, s)) :
      TaskStep w p { w with file := s.store, process := some p.exit }
  | seeded {db : Db} (hpc : p.pc = .seeding) (hdb : w.file = db.toFile) :
      TaskStep w p (w.put { p with
        pc := .spawning, status := db.cursor.elim p.status p.status.setLastIndexed })
  | spawned (hpc : p.pc = .spawning) : TaskStep w p (w.put { p with pc := .guarding, api := true })
  | guarded (hpc : p.pc = .guarding) :
      TaskStep w p (w.put { p with pc := .catchingUp, status := p.status.setLive true })
  | startRead {db : Db} (hpc : p.pc = .catchingUp) (hdb : w.file = db.toFile) :
      TaskStep w p (w.put (p.goto (.readingTip (replayStart db.cursor))))
  | tipRead {start : ℕ} (hpc : p.pc = .readingTip start) :
      TaskStep w p (w.put (p.goto (.observingTip start w.tip)))
  | tipObserved {start tip : ℕ} (hpc : p.pc = .observingTip start tip) :
      TaskStep w p (w.put { p with pc := .replaying start, status := p.status.setNodeTip tip })
  | replayed {start : ℕ} (hpc : p.pc = .replaying start) :
      TaskStep w p (w.put (p.goto (.indexing start (w.tip + 1))))
  | taken {n stop : ℕ} (hpc : p.pc = .indexing n stop) (hn : n < stop) :
      TaskStep w p (w.put (p.goto (.body n stop .reading)))
  | drained {n stop : ℕ} (hpc : p.pc = .indexing n stop) (hn : stop ≤ n) :
      TaskStep w p (w.put (p.goto .reporting))
  | reported (hpc : p.pc = .reporting) :
      TaskStep w p { w with
        process := some (p.goto .following)
        reported := w.reported ++ p.status.lastIndexed.toList }
  | segment {first last : ℕ} {queue : List TnExExNotification} (hpc : p.pc = .following)
      (hq : w.queue = .chainExecuted first last :: queue) :
      TaskStep w p
        { w with queue := queue, process := some (p.goto (.indexing first (last + 1))) }
  | lagged {missed : ℕ} {queue : List TnExExNotification} (hpc : p.pc = .following)
      (hq : w.queue = .lagged missed :: queue) :
      TaskStep w p { w with queue := queue, process := some (p.goto .catchingUp) }
  | silent {note : TnExExNotification} {queue : List TnExExNotification} (hpc : p.pc = .following)
      (hq : w.queue = note :: queue) (hnote : note.notice = .silent) :
      TaskStep w p { w with queue := queue }
  | body {n stop : ℕ} {stage : Stage} {action : StageAction} {db db' : Db} {progress : Progress}
      (hpc : p.pc = .body n stop stage) (hdb : w.file = db.toFile)
      (h : stage.step (net.extracted n) db action = some (db', progress)) :
      TaskStep w p { w with
        file := db'.toFile
        process := some (p.afterBody n stop stage progress)
        committed := if (stage.committed progress).isSome then w.committed ++ [n]
          else w.committed }
  | shutdown (hpc : p.pc = .following) :
      TaskStep w p
        (w.put { p with pc := .ended, api := false, status := p.status.setLive false })

/-- Everything the API can do with a request. -/
inductive Process.HealthStep (p : Process) (tip : ℕ) : Process → Prop where
  | asked (hapi : p.api = true) :
      HealthStep p tip
        { p with requests := p.requests ++ [(⟨tip, decide (p.pc = .exited)⟩, .asked)] }
  | loaded {k : ℕ} {asked : Asked} {request request' : HealthRequest}
      (hk : p.requests[k]? = some (asked, request))
      (hload : request.load p.status = .inl request') :
      HealthStep p tip { p with requests := p.requests.set k (asked, request') }
  | answered {k : ℕ} {asked : Asked} {request : HealthRequest} {response : HealthResponse}
      (hk : p.requests[k]? = some (asked, request))
      (hload : request.load p.status = .inr response) :
      HealthStep p tip { p with
        requests := p.requests.eraseIdx k
        responses := p.responses ++ [(asked, response)] }

/-- Everything a step of the system can do. -/
inductive World.Step (w : World) : World → Prop where
  | execute (h : w.tip + 1 < 2 ^ 64) : Step w { w with tip := w.tip + 1 }
  | send {first last : ℕ} (hfirst : first ≤ w.sent) (hle : first ≤ last) (hlast : last ≤ w.tip) :
      Step w { w with
        sent := max w.sent (last + 1)
        queue := w.queue ++ [.chainExecuted first last] }
  | announce {note : TnExExNotification} (hnote : note.notice = .silent) :
      Step w { w with queue := w.queue ++ [note] }
  | lose (kept lost missed : ℕ) :
      Step w { w with queue := w.queue.take kept ++ .lagged missed :: w.queue.drop (kept + lost) }
  | task {p : Process} {w' : World} (hp : w.process = some p) (h : World.TaskStep net w p w') :
      Step w w'
  | health {p p' : Process} (hp : w.process = some p) (h : p.HealthStep w.tip p') :
      Step w (w.put p')
  | start {sent : ℕ} (hnone : w.process = none) (hsent : sent ≤ w.tip + 1) :
      Step w { w with sent := sent, queue := [], process := some (.start w.tip) }
  | kill : Step w { w with process := none }

variable {net} {w w' : World} {p p' : Process}

theorem World.advance_spec (h : w.advance p = some w') : World.TaskStep net w p w' := by
  rw [World.advance] at h
  split at h
  · next hpc =>
    obtain ⟨db, hdb, h⟩ := Option.bind_eq_some_iff.mp h
    rw [File.toDb_eq_some_iff] at hdb
    have hseeded : World.TaskStep net w p (w.put { p with
      pc := .spawning, status := db.cursor.elim p.status p.status.setLastIndexed }) :=
      .seeded hpc hdb
    split at h
    · next hc => cases h; rwa [readCursor_eq_ok hc] at hseeded
    · next cursor hc => cases h; rwa [readCursor_eq_ok hc] at hseeded
    · cases h; exact .failed
  · next hpc => cases h; exact .spawned hpc
  · next hpc => cases h; exact .guarded hpc
  · next hpc =>
    obtain ⟨db, hdb, h⟩ := Option.bind_eq_some_iff.mp h
    rw [File.toDb_eq_some_iff] at hdb
    split at h
    · next cursor hc =>
      cases h
      rw [← readCursor_eq_ok hc]
      exact .startRead hpc hdb
    · cases h; exact .failed
  · next hpc => cases h; exact .tipRead hpc
  · next hpc => cases h; exact .tipObserved hpc
  · next hpc => cases h; exact .replayed hpc
  · next n stop hpc =>
    cases h
    split
    · next hn => exact .taken hpc hn
    · next hn => exact .drained hpc (Nat.le_of_not_lt hn)
  · next hpc => cases h; exact .reported hpc
  · next hpc =>
    split at h
    · next hq => cases h; exact .segment hpc hq
    · next hq => cases h; exact .lagged hpc hq
    · next hq => cases h; exact .silent hpc hq rfl
    · next hq => cases h; exact .silent hpc hq rfl
    · cases h
  all_goals cases h

theorem World.taskStep_spec {action : TaskAction} (h : w.taskStep net p action = some w') :
    World.TaskStep net w p w' := by
  unfold World.taskStep at h
  split at h
  · split at h
    · next hpc =>
      split at h
      · next hrun => cases h; exact .opened hpc hrun
      · next hrun => cases h; exact .notOpened hpc hrun
    · cases h
  · exact World.advance_spec h
  · split at h
    · next hpc =>
      obtain ⟨db, hdb, h⟩ := Option.bind_eq_some_iff.mp h
      obtain ⟨⟨db', progress⟩, hstep, h⟩ := Option.bind_eq_some_iff.mp h
      cases h
      exact .body hpc (File.toDb_eq_some_iff.mp hdb) hstep
    · cases h
  · split at h
    · cases h
    · cases h
    · cases h; exact .failed
  · split at h
    · next hpc _ => cases h; exact .shutdown hpc
    · cases h

theorem Process.healthStep_spec {tip : ℕ} {action : HealthAction}
    (h : p.healthStep tip action = some p') : p.HealthStep tip p' := by
  cases action with
  | ask =>
    simp only [Process.healthStep] at h
    split at h
    · next hapi => cases h; exact .asked hapi
    · cases h
  | load k =>
    obtain ⟨⟨asked, request⟩, hk, h⟩ := Option.bind_eq_some_iff.mp h
    dsimp only at h
    split at h
    · next hload => cases h; exact .loaded hk hload
    · next hload => cases h; exact .answered hk hload

theorem World.nodeStep_spec {action : NodeAction} (h : w.nodeStep action = some w') :
    World.Step net w w' := by
  cases action with
  | execute =>
    simp only [World.nodeStep] at h
    split at h
    · next hlt => cases h; exact .execute hlt
    · cases h
  | send first last =>
    simp only [World.nodeStep] at h
    split at h
    · next hok => cases h; exact .send hok.1 hok.2.1 hok.2.2
    · cases h
  | certificate => cases h; exact .announce rfl
  | output => cases h; exact .announce rfl
  | lose kept lost missed => cases h; exact .lose kept lost missed

/-- The node touches neither the file nor the process. -/
theorem World.nodeStep_frame {action : NodeAction} (h : w.nodeStep action = some w') :
    w'.file = w.file ∧ w'.process = w.process := by
  cases action with
  | execute =>
    simp only [World.nodeStep] at h
    split at h
    · cases h; exact ⟨rfl, rfl⟩
    · cases h
  | send first last =>
    simp only [World.nodeStep] at h
    split at h
    · cases h; exact ⟨rfl, rfl⟩
    · cases h
  | certificate | output | lose => cases h; exact ⟨rfl, rfl⟩

/-- **Everything a step of the system can do.** -/
theorem World.step_spec {action : WorldAction} (h : w.step net action = some w') :
    World.Step net w w' := by
  cases action with
  | node action => exact World.nodeStep_spec h
  | task action =>
    obtain ⟨p, hp, h⟩ := Option.bind_eq_some_iff.mp h
    exact .task hp (World.taskStep_spec h)
  | health action =>
    obtain ⟨p, hp, h⟩ := Option.bind_eq_some_iff.mp h
    obtain ⟨p', hstep, h⟩ := Option.bind_eq_some_iff.mp h
    cases h
    exact .health hp (Process.healthStep_spec hstep)
  | start sent =>
    simp only [World.step] at h
    split at h
    · cases h
    · next hnone =>
      split at h
      · next hsent => cases h; exact .start hnone hsent
      · cases h
  | kill => cases h; exact .kill

end ExplorerIndexer
