import ExplorerIndexer.WriterRuns

/-!
# One block at a time

The body of `index_chain`: read which candidates need a fetch, fetch their metadata one by one,
commit the block with the token rows, then record the progress. Between any two of these steps
other tasks run, and the loop may fail or be killed, so the body is a small machine whose stages are
the points where it can stop.

`loopSystem` runs that body on blocks the environment chooses freely. The indexing loop of the
program, which takes its blocks from replays and notifications, is one of its environments.

## Main definitions

* `Stage.step` — the steps of the body
* `loopSystem` — the body on any blocks, with a log of the commits

## Main results

* `Stage.step_spec`, `LoopState.step_spec` — everything a step can do
-/

namespace ExplorerIndexer

/-- Result of a token-metadata fetch: `none` for a field that reverted or failed to decode. -/
structure TokenMetadata where
  name : Option String
  symbol : Option String
  decimals : Option ℕ
  deriving DecidableEq, Repr

/-- Whether the fetch counts as a success: at least one field decoded. -/
def TokenMetadata.anyDecoded (m : TokenMetadata) : Bool :=
  m.name.isSome || m.symbol.isSome || m.decimals.isSome

/-- The token row of a fetch at a time: `1` escalates to the terminal `2` in storage. -/
def TokenRow.ofFetch (token : Address) (metadata : TokenMetadata) (now : ℕ) : TokenRow where
  address := token
  name := metadata.name
  symbol := metadata.symbol
  decimals := metadata.decimals
  status := if metadata.anyDecoded then 0 else 1
  fetchedAt := now

/-- Where the body of the loop stands with its block. -/
inductive Stage where
  /-- Before `token_fetch_states`. -/
  | reading
  /-- The candidates still to fetch, and the rows fetched so far. -/
  | fetching (need : List Address) (rows : List TokenRow)
  /-- `index_block` has returned; `set_last_indexed` is next if it indexed the block. -/
  | recording (indexed : Bool)
  /-- `set_node_tip` is next. -/
  | observing
  deriving DecidableEq

/-- A step of the body. The environment decides what a fetch returns (`none` for an error of the
node), what the clock says and after how many statements the write is cut. -/
inductive StageAction where
  | readStates
  | fetch (result : Option TokenMetadata) (now : ℕ)
  | commit (budget : Option ℕ)
  | record
  | observe
  deriving DecidableEq

/-- What a step leads to. -/
inductive Progress where
  | into (stage : Stage)
  /-- The block is done. -/
  | done
  /-- The loop returns an error. -/
  | failed
  deriving DecidableEq

/-- One step of the body on a database. -/
def Stage.step (extracted : ExtractedBlock) (db : Db) :
    Stage → StageAction → Option (Db × Progress)
  | .reading, .readStates =>
    some (db, .into (.fetching (tokenFetchStates db extracted.tokenCandidates) []))
  | .fetching (token :: need) rows, .fetch (some metadata) now =>
    some (db, .into (.fetching need (rows ++ [.ofFetch token metadata now])))
  | .fetching (_ :: _) _, .fetch none _ => some (db, .failed)
  | .fetching [] rows, .commit budget =>
    match indexBlock extracted rows ⟨db, budget⟩ with
    | (.ok indexed, s) => some (s.store, .into (.recording indexed))
    | (.error _, s) => some (s.store, .failed)
  | .recording _, .record => some (db, .into .observing)
  | .observing, .observe => some (db, .done)
  | _, _ => none

/-- The token rows a step commits. -/
def Stage.committed : Stage → Progress → Option (List TokenRow)
  | .fetching [] rows, .into (.recording true) => some rows
  | _, _ => none

@[simp] theorem Stage.committed_failed (stage : Stage) : stage.committed .failed = none := by
  unfold Stage.committed
  split
  · next h => cases h
  · rfl

/-- Everything a step of the body can do. -/
inductive Stage.Step (extracted : ExtractedBlock) (db : Db) : Stage → Db → Progress → Prop where
  | read : Step extracted db .reading db
      (.into (.fetching (tokenFetchStates db extracted.tokenCandidates) []))
  | fetched (token : Address) (need : List Address) (rows : List TokenRow)
      (metadata : TokenMetadata) (now : ℕ) :
      Step extracted db (.fetching (token :: need) rows) db
        (.into (.fetching need (rows ++ [.ofFetch token metadata now])))
  | failed (stage : Stage) : Step extracted db stage db .failed
  | applied (rows : List TokenRow) (habove : ∀ c, db.cursor = some c → c < extracted.number) :
      Step extracted db (.fetching [] rows) (db.applied extracted rows) (.into (.recording true))
  | skipped (rows : List TokenRow) (c : ℕ) (hc : db.cursor = some c) (hle : extracted.number ≤ c) :
      Step extracted db (.fetching [] rows) db (.into (.recording false))
  | recorded (indexed : Bool) : Step extracted db (.recording indexed) db (.into .observing)
  | observed : Step extracted db .observing db .done

theorem Stage.step_spec {extracted : ExtractedBlock} {db db' : Db} {stage : Stage}
    {action : StageAction} {progress : Progress}
    (h : stage.step extracted db action = some (db', progress)) :
    Stage.Step extracted db stage db' progress := by
  unfold Stage.step at h
  split at h
  · cases h; exact .read
  · cases h; exact .fetched ..
  · cases h; exact .failed _
  · next rows budget =>
    have hcases := indexBlock_cases extracted rows ⟨db, budget⟩
    split at h
    · next indexed s hrun =>
      cases h
      rw [hrun] at hcases
      rcases hcases with ⟨b, hb, hout⟩ | ⟨stop, hstop, -⟩
      · cases hb
        cases indexed with
        | true =>
          obtain ⟨heq, habove⟩ := hout
          dsimp only at heq
          rw [heq]
          exact .applied rows habove
        | false =>
          obtain ⟨heq, c, hc, hle⟩ := hout
          dsimp only at heq
          rw [heq]
          exact .skipped rows c hc hle
      · cases hstop
    · next stop s hrun =>
      cases h
      rw [hrun] at hcases
      rcases hcases with ⟨b, hb, -⟩ | ⟨stop', -, heq⟩
      · cases hb
      · dsimp only at heq
        rw [heq]
        exact .failed _
  · cases h; exact .recorded _
  · cases h; exact .observed
  · cases h

/-- A step commits the block in hand, above the cursor, or leaves the database alone. -/
theorem Stage.Step.committed {extracted : ExtractedBlock} {db db' : Db} {stage : Stage}
    {progress : Progress} (h : Stage.Step extracted db stage db' progress) :
    (db' = db ∧ stage.committed progress = none) ∨
      ∃ rows, stage.committed progress = some rows ∧ db' = db.applied extracted rows ∧
        ∀ c, db.cursor = some c → c < extracted.number := by
  cases h with
  | applied rows habove => exact Or.inr ⟨rows, rfl, rfl, habove⟩
  | failed => exact Or.inl ⟨rfl, stage.committed_failed⟩
  | read => exact Or.inl ⟨rfl, rfl⟩
  | fetched => exact Or.inl ⟨rfl, rfl⟩
  | skipped => exact Or.inl ⟨rfl, rfl⟩
  | recorded => exact Or.inl ⟨rfl, rfl⟩
  | observed => exact Or.inl ⟨rfl, rfl⟩

/-! ### The loop on any blocks -/

/-- The database, the block in hand with its stage, and a log of the commits: block numbers with the
token rows committed along. -/
structure LoopState where
  db : Db
  current : Option (ExtractedBlock × Stage)
  commits : List (ℕ × List TokenRow)

/-- The environment hands over a block of any contents, lets the body take a step, or stops the
loop: by an error, a panic, or a kill that a restart follows. -/
inductive LoopAction where
  | begin (block : RecoveredBlock) (receipts : List Receipt)
  | step (action : StageAction)
  | exit

/-- The state after a step of the body. -/
def LoopState.after (s : LoopState) (extracted : ExtractedBlock) (stage : Stage) (db : Db)
    (progress : Progress) : LoopState where
  db := db
  current :=
    match progress with
    | .into stage => some (extracted, stage)
    | .done | .failed => none
  commits :=
    match stage.committed progress with
    | some rows => s.commits ++ [(extracted.number, rows)]
    | none => s.commits

/-- A step of the loop. Heights are 64-bit numbers. -/
def LoopState.step (up : Upstream) (s : LoopState) : LoopAction → Option LoopState
  | .begin block receipts =>
    match s.current with
    | some _ => none
    | none =>
      if block.number < 2 ^ 64 then
        some { s with current := some (extractBlock up block receipts, .reading) }
      else none
  | .step action => do
    let (extracted, stage) ← s.current
    let (db, progress) ← stage.step extracted s.db action
    some (s.after extracted stage db progress)
  | .exit => some { s with current := none }

/-- Runs of the loop on a fresh index. -/
def loopSystem (up : Upstream) : TransitionSystem LoopState LoopAction where
  init s := ∃ chainId, s = ⟨freshDb chainId, none, []⟩
  step := LoopState.step up

/-- Everything a step of the loop can do. -/
inductive LoopState.Step (up : Upstream) (s : LoopState) : LoopState → Prop where
  | begin (block : RecoveredBlock) (receipts : List Receipt) (hnone : s.current = none)
      (hbound : block.number < 2 ^ 64) :
      Step up s { s with current := some (extractBlock up block receipts, .reading) }
  | body {extracted : ExtractedBlock} {stage : Stage} {db : Db} {progress : Progress}
      (hcurrent : s.current = some (extracted, stage))
      (h : Stage.Step extracted s.db stage db progress) :
      Step up s (s.after extracted stage db progress)
  | exit : Step up s { s with current := none }

theorem LoopState.step_spec {up : Upstream} {s t : LoopState} {action : LoopAction}
    (h : s.step up action = some t) : LoopState.Step up s t := by
  cases action with
  | begin block receipts =>
    simp only [LoopState.step] at h
    split at h
    · cases h
    · next hnone =>
      split at h
      · next hbound => cases h; exact .begin block receipts hnone hbound
      · cases h
  | step action =>
    obtain ⟨⟨extracted, stage⟩, hcurrent, h⟩ := Option.bind_eq_some_iff.mp h
    obtain ⟨⟨db, progress⟩, hstep, h⟩ := Option.bind_eq_some_iff.mp h
    cases h
    exact .body hcurrent (Stage.step_spec hstep)
  | exit =>
    cases h
    exact .exit

/-- The block in hand is an extracted one. -/
theorem extracted_of_reachable {up : Upstream} {s : LoopState} (hs : (loopSystem up).Reachable s)
    {extracted : ExtractedBlock} {stage : Stage} (h : s.current = some (extracted, stage)) :
    ∃ block receipts, extracted = extractBlock up block receipts ∧ block.number < 2 ^ 64 := by
  induction hs generalizing extracted stage with
  | init hi =>
    obtain ⟨chainId, rfl⟩ := hi
    cases h
  | step _ ht ih =>
    cases LoopState.step_spec ht with
    | begin block receipts hnone hbound =>
      cases h
      exact ⟨block, receipts, rfl, hbound⟩
    | @body extracted' stage' db progress hcurrent hstep =>
      cases progress with
      | into stage'' => cases h; exact ih hcurrent
      | done => cases h
      | failed => cases h
    | exit => cases h

/-- A step commits an extracted block above the cursor, or leaves the database alone. -/
theorem LoopState.db_step {up : Upstream} {s t : LoopState} (hs : (loopSystem up).Reachable s)
    {action : LoopAction} (ht : s.step up action = some t) :
    t.db = s.db ∨ ∃ block receipts rows, t.db = s.db.applied (extractBlock up block receipts) rows ∧
      block.number < 2 ^ 64 ∧ ∀ c, s.db.cursor = some c → c < block.number := by
  cases LoopState.step_spec ht with
  | begin | exit => exact Or.inl rfl
  | body hcurrent hstep =>
    obtain ⟨block, receipts, rfl, hbound⟩ := extracted_of_reachable hs hcurrent
    rcases hstep.committed with ⟨heq, -⟩ | ⟨rows, -, heq, habove⟩
    · exact Or.inl heq
    · rw [number_extractBlock] at habove
      exact Or.inr ⟨block, receipts, rows, heq, hbound, habove⟩

end ExplorerIndexer
