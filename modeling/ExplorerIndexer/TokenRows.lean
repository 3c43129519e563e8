import ExplorerIndexer.TokenCache
import ExplorerIndexer.Snapshot

/-!
# The tokens with a metadata row

`tokens` and `token_transfers` are filled from different data: transfer rows come from the block,
token rows from the fetches for those candidates that a read before the commit judged unseen or
pending a retry. They name the same tokens.

## Main definitions

* `TokensExact` — the tokens with a row are the transferred ones
* `indexFileSystem` — opens of a file and runs of the loop on it

## Main results

* `tokensExact_of_loop` — the loop keeps the two tables in agreement
* `IndexFile.loop` — after the first open that returns, the file is one the loop leads to
* `tokens_eq_transferred` — every transferred token has exactly one row, and no other token has one
-/

namespace ExplorerIndexer

/-! ### The loop -/

/-- **The tokens with a row are the transferred ones.** -/
def TokensExact (db : Db) : Prop :=
  ∀ address, (∃ row ∈ db.tokens.rows, row.address = address) ↔
    ∃ row ∈ db.tokenTransfers.rows, row.token = address

/-- What the loop knows of its block while it fetches: the tokens in hand are candidates, and a
candidate that is not in hand has a row. -/
structure Covering (db : Db) (extracted : ExtractedBlock) (need : List Address)
    (rows : List TokenRow) : Prop where
  candidates : ∀ token ∈ rows.map TokenRow.address ++ need, token ∈ extracted.tokenCandidates
  covers : ∀ token ∈ extracted.tokenCandidates,
    token ∈ rows.map TokenRow.address ++ need ∨ (db.tokens.find? (addrHex token)).isSome

theorem Covering.start (db : Db) (extracted : ExtractedBlock) :
    Covering db extracted (tokenFetchStates db extracted.tokenCandidates) [] where
  candidates token htoken := (List.mem_filter.mp htoken).1
  covers token htoken := by
    cases hrow : db.tokens.find? (addrHex token) with
    | none =>
      refine Or.inl (List.mem_filter.mpr ⟨htoken, ?_⟩)
      simp [Db.tokenStatus, hrow]
    | some row => exact Or.inr rfl

theorem Covering.fetched {db : Db} {extracted : ExtractedBlock} {token : Address}
    {need : List Address} {rows : List TokenRow} (h : Covering db extracted (token :: need) rows)
    (metadata : TokenMetadata) (now : ℕ) :
    Covering db extracted need (rows ++ [.ofFetch token metadata now]) := by
  have hlist : (rows ++ [TokenRow.ofFetch token metadata now]).map TokenRow.address ++ need =
      rows.map TokenRow.address ++ token :: need := by simp [TokenRow.ofFetch]
  exact ⟨hlist ▸ h.candidates, hlist ▸ h.covers⟩

theorem isSome_find?_upsertTokens {tokens : Table StoredToken.address} {rows : List TokenRow}
    {key : String} : ((upsertTokens tokens rows).find? key).isSome ↔
      (∃ token ∈ rows.map TokenRow.address, addrHex token = key) ∨ (tokens.find? key).isSome := by
  induction rows generalizing tokens with
  | nil => simp [upsertTokens]
  | cons row rows ih =>
    change ((upsertTokens (tokens.upsert escalate (.ofRow row)) rows).find? key).isSome ↔ _
    rw [ih, Table.isSome_find?_upsert, List.map_cons]
    simp only [List.exists_mem_cons_iff, eq_comm (a := key)]
    exact or_left_comm.trans or_assoc.symm

/-- The transfers of a block above the cursor are all stored. -/
theorem mem_tokenTransfers_applied {up : Upstream} {db : Db} {block : RecoveredBlock}
    {receipts : List Receipt} (hbelow : RowsBelow db db.next)
    (habove : ∀ c, db.cursor = some c → c < block.number) (tokenRows : List TokenRow)
    {row : StoredTransfer} :
    row ∈ (db.applied (extractBlock up block receipts) tokenRows).tokenTransfers.rows ↔
      row ∈ db.tokenTransfers.rows ∨
        row ∈ (extractBlock up block receipts).transfers.map .ofRow := by
  have hnext := next_le_of_above habove
  have hnumber : ∀ r ∈ (extractBlock up block receipts).transfers.map StoredTransfer.ofRow,
      r.blockNumber = block.number := fun r hr => by
    obtain ⟨i, j, receipt, log, f, t, -, -, -, -, -, rfl⟩ := mem_transfers.mp hr
    rfl
  refine Table.mem_insertAll_iff fun r s hr hs hkey => ?_
  have hsame : r.blockNumber = s.blockNumber := congrArg Prod.fst hkey
  rcases hr with hr | hr <;> rcases hs with hs | hs
  · exact db.tokenTransfers.eq_of_key_eq hr hs hkey
  · have hlt := hbelow.tokenTransfers r hr
    rw [hsame, hnumber s hs] at hlt
    omega
  · have hlt := hbelow.tokenTransfers s hs
    rw [← hsame, hnumber r hr] at hlt
    omega
  · obtain ⟨i, j, receipt, log, f, t, -, hreceipt, hlog, htopics, -, rfl⟩ := mem_transfers.mp hr
    obtain ⟨i', j', receipt', log', f', t', -, hreceipt', hlog', htopics', -, rfl⟩ :=
      mem_transfers.mp hs
    simp only [StoredTransfer.key, Prod.mk.injEq] at hkey
    obtain ⟨-, rfl, rfl⟩ := hkey
    cases hreceipt.symm.trans hreceipt'
    cases hlog.symm.trans hlog'
    cases htopics.symm.trans htopics'
    rfl

/-- **A commit keeps the two tables in agreement**: the tokens of its transfers are the candidates,
and each of them is in hand or has a row. -/
theorem TokensExact.applied {up : Upstream} {db : Db} {block : RecoveredBlock}
    {receipts : List Receipt} {rows : List TokenRow} (h : TokensExact db)
    (hbelow : RowsBelow db db.next) (habove : ∀ c, db.cursor = some c → c < block.number)
    (hcovering : Covering db (extractBlock up block receipts) [] rows) :
    TokensExact (db.applied (extractBlock up block receipts) rows) := by
  have hcandidates := hcovering.candidates
  have hcovers := hcovering.covers
  rw [List.append_nil] at hcandidates hcovers
  intro address
  have hold : (db.tokens.find? address).isSome ↔
      ∃ row ∈ db.tokenTransfers.rows, row.token = address :=
    Table.isSome_find?_iff.trans (h address)
  have hnew : (∃ row ∈ (extractBlock up block receipts).transfers.map StoredTransfer.ofRow,
      row.token = address) ↔
      ∃ token ∈ (extractBlock up block receipts).tokenCandidates, addrHex token = address := by
    simp only [mem_tokenCandidates_extractBlock]
    constructor
    · rintro ⟨_, hstored, rfl⟩
      obtain ⟨row, hrow, rfl⟩ := List.mem_map.mp hstored
      exact ⟨row.token, ⟨row, hrow, rfl⟩, rfl⟩
    · rintro ⟨token, ⟨row, hrow, rfl⟩, rfl⟩
      exact ⟨.ofRow row, List.mem_map_of_mem hrow, rfl⟩
  have htokens : (∃ row ∈ (db.applied (extractBlock up block receipts) rows).tokens.rows,
      row.address = address) ↔
      (∃ token ∈ rows.map TokenRow.address, addrHex token = address) ∨
        (db.tokens.find? address).isSome :=
    Table.isSome_find?_iff.symm.trans isSome_find?_upsertTokens
  rw [htokens, hold]
  simp only [mem_tokenTransfers_applied hbelow habove, or_and_right, exists_or, hnew]
  rw [or_comm]
  constructor
  · rintro (hrow | ⟨token, htoken, rfl⟩)
    · exact Or.inl hrow
    · exact Or.inr ⟨token, hcandidates token htoken, rfl⟩
  · rintro (hrow | ⟨token, htoken, rfl⟩)
    · exact Or.inl hrow
    · rcases hcovers token htoken with hmem | hrow
      · exact Or.inr ⟨token, hmem, rfl⟩
      · exact Or.inl (hold.mp hrow)

/-- The invariant of the loop. -/
structure TokenRowsInvariant (s : LoopState) : Prop where
  exact : TokensExact s.db
  covering : ∀ extracted need rows, s.current = some (extracted, .fetching need rows) →
    Covering s.db extracted need rows

theorem tokenRowsInvariant_step {up : Upstream} {s t : LoopState}
    (hs : (loopSystem up).Reachable s) (h : TokenRowsInvariant s) (ht : LoopState.Step up s t) :
    TokenRowsInvariant t := by
  cases ht with
  | begin | exit => exact ⟨h.exact, fun extracted need rows hcur => by cases hcur⟩
  | @body extracted stage db progress hcurrent hstep =>
    cases hstep with
    | read =>
      refine ⟨h.exact, fun extracted' need rows hcur => ?_⟩
      cases hcur
      exact .start s.db extracted
    | fetched token need rows metadata now =>
      refine ⟨h.exact, fun extracted' need' rows' hcur => ?_⟩
      cases hcur
      exact (h.covering _ _ _ hcurrent).fetched metadata now
    | applied rows habove =>
      obtain ⟨block, receipts, rfl, -⟩ := extracted_of_reachable hs hcurrent
      rw [number_extractBlock] at habove
      refine ⟨h.exact.applied (rowsBelow_of_reachable hs) habove (h.covering _ _ _ hcurrent),
        fun extracted' need' rows' hcur => ?_⟩
      cases hcur
    | failed | skipped | recorded | observed =>
      exact ⟨h.exact, fun extracted' need' rows' hcur => by cases hcur⟩

/-- **The loop keeps the two tables in agreement**, on any blocks and with any fetches. -/
theorem tokensExact_of_loop {up : Upstream} {s : LoopState} (hs : (loopSystem up).Reachable s) :
    TokensExact s.db := by
  suffices h : TokenRowsInvariant s from h.exact
  induction hs with
  | init hi =>
    obtain ⟨chainId, rfl⟩ := hi
    refine ⟨fun address => ?_, fun extracted need rows hcur => by cases hcur⟩
    exact iff_of_false (by rintro ⟨row, hrow, -⟩; cases hrow) (by rintro ⟨row, hrow, -⟩; cases hrow)
  | step hs ht ih => exact tokenRowsInvariant_step hs ih (LoopState.step_spec ht)

/-! ### A file and its writers -/

/-- A file, the processes that open it, and the loop of the process that has it open. -/
structure IndexFile where
  file : File
  /-- A process has the file open. -/
  writer : Bool
  /-- Some open has returned. -/
  opened : Bool
  /-- The block in hand with its stage. -/
  current : Option (ExtractedBlock × Stage)

/-- Open the file, hand the loop a block of any contents, let the body take a step, or stop the
process: by an error, a panic, or a kill. `budget` is the number of statements after which an open
is cut. -/
inductive IndexFileAction where
  | opening (chainId : UInt64) (budget : Option ℕ)
  | begin (block : RecoveredBlock) (receipts : List Receipt)
  | step (action : StageAction)
  | exit

/-- A new process opens the file. -/
def IndexFile.open (s : IndexFile) (chainId : UInt64) (budget : Option ℕ) : IndexFile :=
  match migrate chainId ⟨s.file, budget⟩ with
  | (.ok (), r) => ⟨r.store, true, true, none⟩
  | (.error _, r) => ⟨r.store, false, s.opened, none⟩

/-- A step of the process that has the file. Heights are 64-bit numbers. -/
def IndexFile.step (up : Upstream) (s : IndexFile) : IndexFileAction → Option IndexFile
  | .opening chainId budget => some (s.open chainId budget)
  | .begin block receipts =>
    if s.writer = true ∧ s.current = none ∧ block.number < 2 ^ 64 then
      some { s with current := some (extractBlock up block receipts, .reading) }
    else none
  | .step action => do
    let (extracted, stage) ← s.current
    let db ← s.file.toDb
    let (db', progress) ← stage.step extracted db action
    some { s with
      file := db'.toFile
      current :=
        match progress with
        | .into stage => some (extracted, stage)
        | .done | .failed => none }
  | .exit => some { s with writer := false, current := none }

/-- Opens and runs on a file that is absent, empty, or of another version. -/
def indexFileSystem (up : Upstream) : TransitionSystem IndexFile IndexFileAction where
  init s := Rebuildable s.file ∧ s.writer = false ∧ s.opened = false ∧ s.current = none
  step := IndexFile.step up

/-- Nothing is open and no open has returned, or the file is one that the loop leads to. -/
def IndexFile.Tracked (up : Upstream) (s : IndexFile) : Prop :=
  (Rebuildable s.file ∧ s.writer = false ∧ s.opened = false ∧ s.current = none) ∨
    ∃ chainId db commits, s.file = db.toFile ∧ Intact chainId db.toFile ∧
      (loopSystem up).Reachable ⟨db, s.current, commits⟩

variable {up : Upstream} {s t : IndexFile}

theorem IndexFile.Tracked.open (h : s.Tracked up) (chainId : UInt64) (budget : Option ℕ) :
    (s.open chainId budget).Tracked up := by
  rw [IndexFile.open]
  have hfile : Rebuildable s.file ∨ ∃ stored, Intact stored s.file := by
    rcases h with ⟨h, -⟩ | ⟨stored, db, commits, hfile, hintact, -⟩
    · exact Or.inl h
    · exact Or.inr ⟨stored, hfile ▸ hintact⟩
  split
  · next r hrun =>
    obtain ⟨hintact, hstore⟩ := migrate_returns chainId hfile hrun
    rcases hstore with hstore | ⟨-, hstore⟩
    · rcases h with ⟨h, -⟩ | ⟨stored, db, commits, hdb, -, hloop⟩
      · exact absurd (hstore ▸ hintact) (not_intact_of_rebuildable chainId h)
      · exact Or.inr ⟨chainId, db, commits, hstore.trans hdb, hdb ▸ hstore ▸ hintact,
          hloop.step (a := .exit) rfl⟩
    · exact Or.inr ⟨chainId, freshDb chainId, [], hstore, intact_freshDb chainId,
        .init ⟨chainId, rfl⟩⟩
  · next stop r hrun =>
    rcases h with ⟨h, -, hopened, -⟩ | ⟨stored, db, commits, hdb, hintact, hloop⟩
    · rcases migrate_stops chainId (Or.inl h) hrun with hstore | ⟨-, hstore⟩
      · exact Or.inl ⟨hstore ▸ h, rfl, hopened, rfl⟩
      · exact Or.inl ⟨hstore, rfl, hopened, rfl⟩
    · rcases migrate_stops chainId hfile hrun with hstore | ⟨hr, -⟩
      · exact Or.inr ⟨stored, db, commits, hstore.trans hdb, hintact,
          hloop.step (a := .exit) rfl⟩
      · exact absurd hintact (not_intact_of_rebuildable stored (hdb ▸ hr))

theorem IndexFile.Tracked.step (h : s.Tracked up) {action : IndexFileAction}
    (hstep : s.step up action = some t) : t.Tracked up := by
  cases action with
  | opening chainId budget =>
    cases hstep
    exact h.open chainId budget
  | begin block receipts =>
    simp only [IndexFile.step] at hstep
    split at hstep
    · next hok =>
      cases hstep
      obtain ⟨hwriter, hcurrent, hbound⟩ := hok
      rcases h with ⟨-, hclosed, -⟩ | ⟨chainId, db, commits, hdb, hintact, hloop⟩
      · rw [hclosed] at hwriter
        cases hwriter
      · refine Or.inr ⟨chainId, db, commits, hdb, hintact,
          hloop.step (a := .begin block receipts) ?_⟩
        simp only [loopSystem, LoopState.step, hcurrent, if_pos hbound]
    · cases hstep
  | step action =>
    obtain ⟨⟨extracted, stage⟩, hcurrent, hstep⟩ := Option.bind_eq_some_iff.mp hstep
    obtain ⟨db, hdb, hstep⟩ := Option.bind_eq_some_iff.mp hstep
    obtain ⟨⟨db', progress⟩, hbody, hstep⟩ := Option.bind_eq_some_iff.mp hstep
    cases hstep
    rcases h with ⟨-, -, -, hnone⟩ | ⟨chainId, db₀, commits, hdb₀, hintact, hloop⟩
    · rw [hnone] at hcurrent
      cases hcurrent
    · cases Db.toFile_injective ((File.toDb_eq_some_iff.mp hdb).symm.trans hdb₀)
      have hnext := hloop.step (a := .step action)
        (t := LoopState.after ⟨db, s.current, commits⟩ extracted stage db' progress) (by
          simp only [loopSystem, LoopState.step, hcurrent, hbody, Option.bind_eq_bind,
            Option.bind_some])
      refine Or.inr ⟨chainId, db', _, rfl, ?_, hnext⟩
      rcases (Stage.step_spec hbody).committed with ⟨heq, -⟩ | ⟨rows, -, heq, -⟩
      · exact heq ▸ hintact
      · exact heq ▸ hintact.applied extracted rows
  | exit =>
    cases hstep
    rcases h with ⟨hfile, -, hopened, -⟩ | ⟨chainId, db, commits, hdb, hintact, hloop⟩
    · exact Or.inl ⟨hfile, rfl, hopened, rfl⟩
    · exact Or.inr ⟨chainId, db, commits, hdb, hintact, hloop.step (a := .exit) rfl⟩

theorem tracked_of_reachable (hs : (indexFileSystem up).Reachable s) : s.Tracked up := by
  induction hs with
  | init hi => exact Or.inl hi
  | step _ ht ih => exact ih.step ht

/-- Once an open has returned, the file is one that the loop leads to. -/
theorem IndexFile.loop (hs : (indexFileSystem up).Reachable s) (hopened : s.opened = true) :
    ∃ db commits, s.file = db.toFile ∧ (loopSystem up).Reachable ⟨db, s.current, commits⟩ := by
  rcases tracked_of_reachable hs with ⟨-, -, hclosed, -⟩ | ⟨chainId, db, commits, hdb, -, hloop⟩
  · rw [hopened] at hclosed
    cases hclosed
  · exact ⟨db, commits, hdb, hloop⟩

/-- **Every transferred token has exactly one metadata row, and no other token has one.** After any
opens and runs of the loop over any blocks, with any fetches, errors and crashes. -/
theorem tokens_eq_transferred (hs : (indexFileSystem up).Reachable s) (hopened : s.opened = true) :
    ∃ db : Db, s.file = db.toFile ∧ (db.tokens.rows.map StoredToken.address).Nodup ∧
      ∀ address, address ∈ db.tokens.rows.map StoredToken.address ↔
        address ∈ db.tokenTransfers.rows.map StoredTransfer.token := by
  obtain ⟨db, commits, hdb, hloop⟩ := IndexFile.loop hs hopened
  refine ⟨db, hdb, db.tokens.nodup, fun address => ?_⟩
  rw [List.mem_map, List.mem_map]
  exact tokensExact_of_loop hloop address

/-- A cut open, a second one, a block with a transfer, the same block again, and a kill. -/
def indexFileActions : List IndexFileAction :=
  [.opening 7 (some 5), .opening 7 none] ++
    (List.replicate 2 [.begin (steadyChain.block 3) tokenReceipts, .step .readStates,
      .step (.fetch (some ⟨none, none, none⟩) 100), .step (.commit none), .step .record,
      .step .observe]).flatten ++ [.begin (steadyChain.block 4) tokenReceipts, .exit]

/-- They leave one token. -/
theorem tokens_eq_transferred_one : ∃ (s : IndexFile) (db : Db),
    (indexFileSystem plainUpstream).run ⟨File.empty, false, false, none⟩ indexFileActions = some s ∧
      s.file = db.toFile ∧ db.tokenTransfers.rows.map StoredTransfer.token = [addrHex 7] ∧
      db.tokens.rows.map StoredToken.address = [addrHex 7] := by
  have hrun : ((indexFileSystem plainUpstream).run ⟨File.empty, false, false, none⟩
      indexFileActions).map (fun s => (s.opened, s.file.toDb.map fun db =>
        db.tokenTransfers.rows.map StoredTransfer.token)) =
          some (true, some [addrHex 7]) := by decide +kernel
  obtain ⟨s, hs, hrun⟩ := Option.map_eq_some_iff.mp hrun
  obtain ⟨hopened, htokens⟩ := Prod.mk.inj hrun
  have hinit : (indexFileSystem plainUpstream).init ⟨File.empty, false, false, none⟩ :=
    ⟨Or.inr (Or.inl rfl), rfl, rfl, rfl⟩
  obtain ⟨db, hdb, hnodup, hmem⟩ :=
    tokens_eq_transferred ((TransitionSystem.Reachable.init hinit).trans_run hs) hopened
  rw [hdb, Db.toDb_toFile, Option.map_some] at htokens
  have htransfers := Option.some.inj htokens
  refine ⟨s, db, hs, hdb, htransfers, List.perm_singleton.mp ?_⟩
  rw [List.perm_ext_iff_of_nodup hnodup (List.nodup_singleton _)]
  exact fun address => (hmem address).trans (by rw [htransfers])

end ExplorerIndexer
