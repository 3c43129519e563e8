import ExplorerIndexer.Schema
import ExplorerIndexer.Library.Script

/-!
# The writer

`indexBlock` writes one extracted block in one transaction: the cursor guard, the pointer, type,
consensus and transfer rows, the token upserts and the cursor. Each SQL statement is a statement
of a `Script`, so a run may stop at any of them.

`Db.applied` is the database a committed block leaves, as one record update. The main result says
that these are the only two outcomes: the block is applied, or nothing changes.

Counters are natural numbers. SQLite's are signed 64-bit integers, which a file that holds fewer
than `2 ^ 63` rows does not exceed.

## Main definitions

* `applyBlock`, `indexBlock`, `tokenFetchStates` — the writer's statements
* `Db.applied` — the database after a block's rows, counters and cursor are written
* `Storable` — every integer of a block fits SQLite's

## Main results

* `indexBlock_spec` — a call that returns `true` applied a block above the cursor; any other call
  changed nothing
* `indexBlock_returns` — an uncut call on a storable block returns
* `cursor_applied` — an applied block is the new cursor
-/

namespace ExplorerIndexer

open Script (Triple)

/-- The errors the writer reports. -/
inductive Error where
  /-- An unsigned value that does not fit SQLite's signed 64-bit integers. -/
  | outOfRange (value : ℕ)
  /-- `corrupt last_indexed value {raw:?}`. -/
  | corruptLastIndexed (raw : String)
  /-- `stored chain_id {stored:?} is not a valid u64`. -/
  | invalidChainId (stored : String)
  /-- `explorer-indexer db belongs to chain {stored} but the node runs chain {chainId}; delete the
  db file to re-index this network`. -/
  | chainMismatch (stored chainId : ℕ)
  /-- A statement named a table that does not exist. -/
  | noSuchTable (name : String)
  /-- An index named a column its table does not have. -/
  | noSuchColumn (name : String)
  deriving DecidableEq, Repr

/-- One token-metadata row handed to `indexBlock` after a fetch attempt. -/
structure TokenRow where
  address : Address
  name : Option String
  symbol : Option String
  decimals : Option ℕ
  /-- 0 when a field decoded, 1 when the fetch failed. -/
  status : ℕ
  fetchedAt : ℕ
  deriving DecidableEq, Repr

/-- Bind an unsigned 64-bit value as a statement parameter. -/
def bindU64 (n : ℕ) : Except Error ℕ := if n < 2 ^ 63 then .ok n else .error (.outOfRange n)

theorem bindU64_cases (n : ℕ) : (n < 2 ^ 63 ∧ bindU64 n = .ok n) ∨
    (¬ n < 2 ^ 63 ∧ bindU64 n = .error (.outOfRange n)) := by
  by_cases h : n < 2 ^ 63
  · exact Or.inl ⟨h, if_pos h⟩
  · exact Or.inr ⟨h, if_neg h⟩

/-! ### Rows as stored -/

/-- The `address_txs` row of an extracted row. -/
def AddressTx.ofRow (row : AddressRow) : AddressTx :=
  ⟨addrHex row.address, row.blockNumber, row.txIndex, row.txType⟩

/-- The `consensus_blocks` row a block inserts. -/
def ConsensusBlock.ofRow (row : ConsensusRow) : ConsensusBlock :=
  ⟨digestHex row.digest, row.epoch, row.round, row.blockNumber, row.blockNumber⟩

/-- The `token_transfers` row of an extracted row; the value is an exact decimal string. -/
def StoredTransfer.ofRow (row : TransferRow) : StoredTransfer where
  blockNumber := row.blockNumber
  txIndex := row.txIndex
  logIndex := row.logIndex
  token := addrHex row.token
  fromAddr := addrHex row.fromAddr
  toAddr := addrHex row.toAddr
  value := row.value.toNat.repr

/-- The `tokens` row of a fetch attempt. -/
def StoredToken.ofRow (row : TokenRow) : StoredToken :=
  ⟨addrHex row.address, row.name, row.symbol, row.decimals, row.status, row.fetchedAt⟩

/-! ### Conflict clauses -/

/-- `ON CONFLICT(tx_type) DO UPDATE SET count = count + excluded.count`. -/
def addCount : OnConflict TypeCount.txType where
  update old new := { old with count := old.count + new.count }
  key_update _ _ h := h

/-- `ON CONFLICT(digest) DO UPDATE SET first_block = min(..), last_block = max(..)`. -/
def widenRange : OnConflict ConsensusBlock.digest where
  update old new :=
    { old with
      firstBlock := min old.firstBlock new.firstBlock
      lastBlock := max old.lastBlock new.lastBlock }
  key_update _ _ h := h

/-- `ON CONFLICT(address) DO UPDATE SET ..`: every column is taken from the new row, but a failure
over a failure is final. -/
def escalate : OnConflict StoredToken.address where
  update old new := { new with status := if new.status ≠ 0 ∧ old.status ≠ 0 then 2 else new.status }
  key_update _ _ _ := rfl

/-! ### The statements of a block -/

/-- `read_cursor`. -/
def Db.readCursor (db : Db) : Except Error (Option ℕ) :=
  match readMeta db.metadata "last_indexed" with
  | none => .ok none
  | some raw =>
    match Numeral.parseNat (2 ^ 64) raw with
    | some cursor => .ok (some cursor)
    | none => .error (.corruptLastIndexed raw)

/-- `INSERT OR IGNORE INTO address_txs`. -/
def insertAddressTx (row : AddressRow) : Script Db Error PUnit := Script.statement fun db => do
  let blockNumber ← bindU64 row.blockNumber
  let txIndex ← bindU64 row.txIndex
  let stored : AddressTx := ⟨addrHex row.address, blockNumber, txIndex, row.txType⟩
  return ((), { db with addressTxs := db.addressTxs.insertIgnore stored })

/-- `INSERT OR IGNORE INTO tx_types`; returns the number of rows stored. -/
def insertTxType (row : TxTypeRow) : Script Db Error ℕ := Script.statement fun db => do
  let blockNumber ← bindU64 row.blockNumber
  let txIndex ← bindU64 row.txIndex
  let stored : TxTypeRow := ⟨row.txType, blockNumber, txIndex⟩
  return (db.txTypes.changes stored, { db with txTypes := db.txTypes.insertIgnore stored })

/-- `*map.entry(key).or_default() += value`, on a map in key order. -/
def addEntry (key value : ℕ) : List (ℕ × ℕ) → List (ℕ × ℕ)
  | [] => [(key, value)]
  | (k, v) :: map =>
    if key < k then (key, value) :: (k, v) :: map
    else if key = k then (k, v + value) :: map
    else (k, v) :: addEntry key value map

/-- `INSERT INTO tx_type_counts .. ON CONFLICT ..`. -/
def addTotal (entry : ℕ × ℕ) : Script Db Error PUnit := Script.statement fun db => do
  let count ← bindU64 entry.2
  return ((), { db with txTypeCounts := db.txTypeCounts.upsert addCount ⟨entry.1, count⟩ })

/-- `INSERT INTO consensus_blocks .. ON CONFLICT ..`. -/
def upsertConsensus (row : ConsensusRow) : Script Db Error PUnit := Script.statement fun db => do
  let blockNumber ← bindU64 row.blockNumber
  let stored : ConsensusBlock :=
    ⟨digestHex row.digest, row.epoch, row.round, blockNumber, blockNumber⟩
  return ((), { db with consensusBlocks := db.consensusBlocks.upsert widenRange stored })

/-- `INSERT OR IGNORE INTO token_transfers`. -/
def insertTransfer (row : TransferRow) : Script Db Error PUnit := Script.statement fun db => do
  let blockNumber ← bindU64 row.blockNumber
  let txIndex ← bindU64 row.txIndex
  let logIndex ← bindU64 row.logIndex
  let stored : StoredTransfer :=
    { blockNumber, txIndex, logIndex
      token := addrHex row.token
      fromAddr := addrHex row.fromAddr
      toAddr := addrHex row.toAddr
      value := row.value.toNat.repr }
  return ((), { db with tokenTransfers := db.tokenTransfers.insertIgnore stored })

/-- `INSERT INTO tokens .. ON CONFLICT ..`. -/
def upsertToken (row : TokenRow) : Script Db Error PUnit := Script.statement fun db => do
  let fetchedAt ← bindU64 row.fetchedAt
  let stored : StoredToken :=
    ⟨addrHex row.address, row.name, row.symbol, row.decimals, row.status, fetchedAt⟩
  return ((), { db with tokens := db.tokens.upsert escalate stored })

/-- `INSERT OR REPLACE INTO meta`. -/
def replaceMeta (key value : String) : Script Db Error PUnit := Script.execute fun db =>
  ((), { db with metadata := db.metadata.replace ⟨key, value⟩ })

/-- One pass of the type loop: insert the row and count it under its type when it was stored. -/
def storeTxType (inserted : List (ℕ × ℕ)) (row : TxTypeRow) : Script Db Error (List (ℕ × ℕ)) := do
  let changed ← insertTxType row
  return addEntry row.txType changed inserted

/-- The statements of the per-block write that follow the cursor guard. -/
def applyRows (extracted : ExtractedBlock) (tokenRows : List TokenRow) : Script Db Error Bool := do
  extracted.addressRows.forM insertAddressTx
  let inserted ← extracted.txTypes.foldlM storeTxType []
  inserted.forM addTotal
  extracted.consensus.toList.forM upsertConsensus
  extracted.transfers.forM insertTransfer
  tokenRows.forM upsertToken
  replaceMeta "last_indexed" extracted.number.repr
  return true

/-- Every statement of the per-block write except the commit. Returns `false` when the block is at
or below the cursor. -/
def applyBlock (extracted : ExtractedBlock) (tokenRows : List TokenRow) :
    Script Db Error Bool := do
  let cursor ← Script.query Db.readCursor
  if cursor.any fun cursor => extracted.number ≤ cursor then
    return false
  else
    applyRows extracted tokenRows

/-- Index one block in one transaction, which commits when the block was applied and rolls back
when it was skipped. -/
def indexBlock (extracted : ExtractedBlock) (tokenRows : List TokenRow) : Script Db Error Bool :=
  Script.transaction id (applyBlock extracted tokenRows)

/-- The cached status of a token. -/
def Db.tokenStatus (db : Db) (token : Address) : Option ℕ :=
  (db.tokens.find? (addrHex token)).map StoredToken.status

/-- Which candidates need a metadata fetch: unseen tokens and those pending a retry. -/
def tokenFetchStates (db : Db) (candidates : List Address) : List Address :=
  candidates.filter fun candidate =>
    match db.tokenStatus candidate with
    | none => true
    | some status => status == 1

/-! ### The effect of a block -/

/-- One `INSERT` of the type loop: the map of stored rows and the table. -/
def pushTxType (acc : List (ℕ × ℕ) × Table TxTypeRow.key) (row : TxTypeRow) :
    List (ℕ × ℕ) × Table TxTypeRow.key :=
  (addEntry row.txType (acc.2.changes row) acc.1, acc.2.insertIgnore row)

/-- The rows the type loop stores, by type. -/
def insertedCounts (table : Table TxTypeRow.key) (rows : List TxTypeRow) : List (ℕ × ℕ) :=
  (rows.foldl pushTxType ([], table)).1

/-- Add the map's totals to the counters. -/
def addTotals (counts : Table TypeCount.txType) (inserted : List (ℕ × ℕ)) :
    Table TypeCount.txType :=
  inserted.foldl (fun counts entry => counts.upsert addCount ⟨entry.1, entry.2⟩) counts

/-- Upsert every token row. -/
def upsertTokens (tokens : Table StoredToken.address) (rows : List TokenRow) :
    Table StoredToken.address :=
  rows.foldl (fun tokens row => tokens.upsert escalate (.ofRow row)) tokens

/-- The database after a block is applied. -/
def Db.applied (db : Db) (extracted : ExtractedBlock) (tokenRows : List TokenRow) : Db where
  metadata := db.metadata.replace ⟨"last_indexed", extracted.number.repr⟩
  addressTxs := db.addressTxs.insertAll (extracted.addressRows.map .ofRow)
  txTypes := db.txTypes.insertAll extracted.txTypes
  txTypeCounts := addTotals db.txTypeCounts (insertedCounts db.txTypes extracted.txTypes)
  consensusBlocks := extracted.consensus.toList.foldl
    (fun blocks row => blocks.upsert widenRange (.ofRow row)) db.consensusBlocks
  tokenTransfers := db.tokenTransfers.insertAll (extracted.transfers.map .ofRow)
  tokens := upsertTokens db.tokens tokenRows

/-- Every integer of a block and its token rows fits a signed 64-bit column. -/
structure Storable (extracted : ExtractedBlock) (tokenRows : List TokenRow) : Prop where
  addressRows : ∀ r ∈ extracted.addressRows, r.blockNumber < 2 ^ 63 ∧ r.txIndex < 2 ^ 63
  txTypes : ∀ r ∈ extracted.txTypes, r.blockNumber < 2 ^ 63 ∧ r.txIndex < 2 ^ 63
  length_txTypes : extracted.txTypes.length < 2 ^ 63
  consensus : ∀ r ∈ extracted.consensus, r.blockNumber < 2 ^ 63
  transfers : ∀ r ∈ extracted.transfers,
    r.blockNumber < 2 ^ 63 ∧ r.txIndex < 2 ^ 63 ∧ r.logIndex < 2 ^ 63
  tokenRows : ∀ r ∈ tokenRows, r.fetchedAt < 2 ^ 63

/-! ### What each statement does -/

theorem insertAddressTx_spec (row : AddressRow) (db : Db) :
    Triple (· = db) (insertAddressTx row)
      (fun _ db' => db' = { db with addressTxs := db.addressTxs.insertIgnore (.ofRow row) })
      (fun _ _ => ¬ (row.blockNumber < 2 ^ 63 ∧ row.txIndex < 2 ^ 63)) fun _ => True := by
  refine Triple.statement ?_ fun _ _ => trivial
  rintro _ rfl
  obtain ⟨_, hn⟩ | ⟨h, hn⟩ := bindU64_cases row.blockNumber
  · obtain ⟨_, hi⟩ | ⟨h, hi⟩ := bindU64_cases row.txIndex
    · simp only [hn, hi]; rfl
    · simp only [hn, hi]; exact fun hc => h hc.2
  · simp only [hn]; exact fun hc => h hc.1

theorem insertTxType_spec (row : TxTypeRow) (db : Db) :
    Triple (· = db) (insertTxType row)
      (fun changed db' => changed = db.txTypes.changes row ∧
        db' = { db with txTypes := db.txTypes.insertIgnore row })
      (fun _ _ => ¬ (row.blockNumber < 2 ^ 63 ∧ row.txIndex < 2 ^ 63)) fun _ => True := by
  refine Triple.statement ?_ fun _ _ => trivial
  rintro _ rfl
  obtain ⟨_, hn⟩ | ⟨h, hn⟩ := bindU64_cases row.blockNumber
  · obtain ⟨_, hi⟩ | ⟨h, hi⟩ := bindU64_cases row.txIndex
    · simp only [hn, hi]; exact ⟨rfl, rfl⟩
    · simp only [hn, hi]; exact fun hc => h hc.2
  · simp only [hn]; exact fun hc => h hc.1

theorem storeTxType_spec (inserted : List (ℕ × ℕ)) (row : TxTypeRow) (db : Db) :
    Triple (· = db) (storeTxType inserted row)
      (fun inserted' db' => (inserted', db') =
        (addEntry row.txType (db.txTypes.changes row) inserted,
          { db with txTypes := db.txTypes.insertIgnore row }))
      (fun _ _ => ¬ (row.blockNumber < 2 ^ 63 ∧ row.txIndex < 2 ^ 63)) fun _ => True := by
  refine Triple.bind (insertTxType_spec row db) fun changed => Triple.pure _ ?_
  rintro _ ⟨rfl, rfl⟩
  rfl

theorem addTotal_spec (entry : ℕ × ℕ) (db : Db) :
    Triple (· = db) (addTotal entry)
      (fun _ db' => db' =
        { db with txTypeCounts := db.txTypeCounts.upsert addCount ⟨entry.1, entry.2⟩ })
      (fun _ _ => ¬ entry.2 < 2 ^ 63) fun _ => True := by
  refine Triple.statement ?_ fun _ _ => trivial
  rintro _ rfl
  obtain ⟨_, hn⟩ | ⟨h, hn⟩ := bindU64_cases entry.2
  · simp only [hn]; rfl
  · simp only [hn]; exact h

theorem upsertConsensus_spec (row : ConsensusRow) (db : Db) :
    Triple (· = db) (upsertConsensus row)
      (fun _ db' => db' =
        { db with consensusBlocks := db.consensusBlocks.upsert widenRange (.ofRow row) })
      (fun _ _ => ¬ row.blockNumber < 2 ^ 63) fun _ => True := by
  refine Triple.statement ?_ fun _ _ => trivial
  rintro _ rfl
  obtain ⟨_, hn⟩ | ⟨h, hn⟩ := bindU64_cases row.blockNumber
  · simp only [hn]; rfl
  · simp only [hn]; exact h

theorem insertTransfer_spec (row : TransferRow) (db : Db) :
    Triple (· = db) (insertTransfer row)
      (fun _ db' => db' =
        { db with tokenTransfers := db.tokenTransfers.insertIgnore (.ofRow row) })
      (fun _ _ => ¬ (row.blockNumber < 2 ^ 63 ∧ row.txIndex < 2 ^ 63 ∧ row.logIndex < 2 ^ 63))
      fun _ => True := by
  refine Triple.statement ?_ fun _ _ => trivial
  rintro _ rfl
  obtain ⟨_, hn⟩ | ⟨h, hn⟩ := bindU64_cases row.blockNumber
  · obtain ⟨_, hi⟩ | ⟨h, hi⟩ := bindU64_cases row.txIndex
    · obtain ⟨_, hj⟩ | ⟨h, hj⟩ := bindU64_cases row.logIndex
      · simp only [hn, hi, hj]; rfl
      · simp only [hn, hi, hj]; exact fun hc => h hc.2.2
    · simp only [hn, hi]; exact fun hc => h hc.2.1
  · simp only [hn]; exact fun hc => h hc.1

theorem upsertToken_spec (row : TokenRow) (db : Db) :
    Triple (· = db) (upsertToken row)
      (fun _ db' => db' = { db with tokens := db.tokens.upsert escalate (.ofRow row) })
      (fun _ _ => ¬ row.fetchedAt < 2 ^ 63) fun _ => True := by
  refine Triple.statement ?_ fun _ _ => trivial
  rintro _ rfl
  obtain ⟨_, hn⟩ | ⟨h, hn⟩ := bindU64_cases row.fetchedAt
  · simp only [hn]; rfl
  · simp only [hn]; exact h

theorem readCursor_eq_ok {db : Db} {cursor : Option ℕ} (h : db.readCursor = .ok cursor) :
    db.cursor = cursor := by
  rw [Db.readCursor] at h
  rw [Db.cursor]
  split at h
  · next hm => cases h; simp [hm]
  · next raw hm =>
    split at h
    · next hp => cases h; rw [hm]; exact hp
    · cases h

/-! ### What the loops do

Each loop writes one table. `foldl_field` turns a fold of the database into a fold of that table. -/

theorem foldl_field {τ β : Type} (get : Db → τ) (set : Db → τ → Db)
    (hget : ∀ db t, get (set db t) = t) (hset : ∀ db t u, set (set db t) u = set db u)
    (hself : ∀ db, set db (get db) = db) (f : τ → β → τ) (bs : List β) (db : Db) :
    bs.foldl (fun db b => set db (f (get db) b)) db = set db (bs.foldl f (get db)) := by
  induction bs generalizing db with
  | nil => exact (hself db).symm
  | cons b bs ih => rw [List.foldl_cons, ih, hset, hget, List.foldl_cons]

theorem foldl_insertAddressTx (rows : List AddressRow) (db : Db) :
    rows.foldl (fun db row => { db with addressTxs := db.addressTxs.insertIgnore (.ofRow row) }) db
      = { db with addressTxs := db.addressTxs.insertAll (rows.map .ofRow) } := by
  rw [Table.insertAll, List.foldl_map]
  exact foldl_field Db.addressTxs (fun db t => { db with addressTxs := t }) (fun _ _ => rfl)
    (fun _ _ _ => rfl) (fun _ => rfl) (fun t (row : AddressRow) => t.insertIgnore (.ofRow row)) rows
    db

theorem foldl_pushTxType (rows : List TxTypeRow) (inserted : List (ℕ × ℕ)) (db : Db) :
    rows.foldl
        (fun acc row => (addEntry row.txType (acc.2.txTypes.changes row) acc.1,
          { acc.2 with txTypes := acc.2.txTypes.insertIgnore row }))
        (inserted, db)
      = ((rows.foldl pushTxType (inserted, db.txTypes)).1,
          { db with txTypes := db.txTypes.insertAll rows }) := by
  induction rows generalizing inserted db with
  | nil => rfl
  | cons row rows ih => rw [List.foldl_cons, ih]; rfl

theorem foldl_addTotal (inserted : List (ℕ × ℕ)) (db : Db) :
    inserted.foldl (fun db entry =>
        { db with txTypeCounts := db.txTypeCounts.upsert addCount ⟨entry.1, entry.2⟩ }) db
      = { db with txTypeCounts := addTotals db.txTypeCounts inserted } :=
  foldl_field Db.txTypeCounts (fun db t => { db with txTypeCounts := t }) (fun _ _ => rfl)
    (fun _ _ _ => rfl) (fun _ => rfl)
    (fun t (entry : ℕ × ℕ) => t.upsert addCount ⟨entry.1, entry.2⟩) inserted db

theorem foldl_upsertConsensus (rows : List ConsensusRow) (db : Db) :
    rows.foldl (fun db row =>
        { db with consensusBlocks := db.consensusBlocks.upsert widenRange (.ofRow row) }) db
      = { db with
          consensusBlocks := rows.foldl (fun blocks row => blocks.upsert widenRange (.ofRow row))
            db.consensusBlocks } :=
  foldl_field Db.consensusBlocks (fun db t => { db with consensusBlocks := t }) (fun _ _ => rfl)
    (fun _ _ _ => rfl) (fun _ => rfl)
    (fun t (row : ConsensusRow) => t.upsert widenRange (.ofRow row)) rows db

theorem foldl_insertTransfer (rows : List TransferRow) (db : Db) :
    rows.foldl
        (fun db row => { db with tokenTransfers := db.tokenTransfers.insertIgnore (.ofRow row) }) db
      = { db with tokenTransfers := db.tokenTransfers.insertAll (rows.map .ofRow) } := by
  rw [Table.insertAll, List.foldl_map]
  exact foldl_field Db.tokenTransfers (fun db t => { db with tokenTransfers := t }) (fun _ _ => rfl)
    (fun _ _ _ => rfl) (fun _ => rfl) (fun t (row : TransferRow) => t.insertIgnore (.ofRow row))
    rows db

theorem foldl_upsertToken (rows : List TokenRow) (db : Db) :
    rows.foldl (fun db row => { db with tokens := db.tokens.upsert escalate (.ofRow row) }) db
      = { db with tokens := upsertTokens db.tokens rows } :=
  foldl_field Db.tokens (fun db t => { db with tokens := t }) (fun _ _ => rfl)
    (fun _ _ _ => rfl) (fun _ => rfl)
    (fun t (row : TokenRow) => t.upsert escalate (.ofRow row)) rows db

/-! ### The type map -/

/-- The total a map holds for a type. -/
def totalFor (t : ℕ) (inserted : List (ℕ × ℕ)) : ℕ :=
  ((inserted.filter fun entry => entry.1 = t).map Prod.snd).sum

@[simp] theorem totalFor_nil (t : ℕ) : totalFor t [] = 0 := rfl

theorem totalFor_cons (t : ℕ) (entry : ℕ × ℕ) (inserted : List (ℕ × ℕ)) :
    totalFor t (entry :: inserted) =
      (if entry.1 = t then entry.2 else 0) + totalFor t inserted := by
  by_cases h : entry.1 = t <;> simp [totalFor, h]

theorem totalFor_addEntry (t key value : ℕ) (inserted : List (ℕ × ℕ)) :
    totalFor t (addEntry key value inserted) =
      totalFor t inserted + if key = t then value else 0 := by
  induction inserted with
  | nil => simp [addEntry, totalFor_cons]
  | cons entry inserted ih =>
    obtain ⟨k, v⟩ := entry
    rw [addEntry]
    split
    · simp only [totalFor_cons]; omega
    · split
      · next hk => subst hk; simp only [totalFor_cons]; split <;> omega
      · simp only [totalFor_cons, ih]; omega

theorem le_totalFor {entry : ℕ × ℕ} {inserted : List (ℕ × ℕ)} (h : entry ∈ inserted) :
    entry.2 ≤ totalFor entry.1 inserted := by
  induction inserted with
  | nil => cases h
  | cons e inserted ih =>
    rw [totalFor_cons]
    rcases List.mem_cons.mp h with rfl | h
    · rw [if_pos rfl]; omega
    · have := ih h; omega

/-- The type loop counts what it stores: a type's rows grow by exactly its total. -/
theorem countP_add_totalFor (t : ℕ) (rows : List TxTypeRow) (inserted : List (ℕ × ℕ))
    (table : Table TxTypeRow.key) :
    (table.insertAll rows).rows.countP (·.txType = t) + totalFor t inserted =
      table.rows.countP (·.txType = t) +
        totalFor t (rows.foldl pushTxType (inserted, table)).1 := by
  induction rows generalizing inserted table with
  | nil => rfl
  | cons row rows ih =>
    have hstep := ih (addEntry row.txType (table.changes row) inserted) (table.insertIgnore row)
    rw [totalFor_addEntry, Table.countP_insertIgnore] at hstep
    simp only [decide_eq_true_eq] at hstep
    rw [Table.insertAll_cons, List.foldl_cons]
    change _ = _ + totalFor t
      (rows.foldl pushTxType (addEntry row.txType (table.changes row) inserted,
        table.insertIgnore row)).1
    omega

theorem totalFor_foldl_pushTxType_le (t : ℕ) (rows : List TxTypeRow) (inserted : List (ℕ × ℕ))
    (table : Table TxTypeRow.key) :
    totalFor t (rows.foldl pushTxType (inserted, table)).1 ≤
      totalFor t inserted + rows.length := by
  induction rows generalizing inserted table with
  | nil => exact Nat.le_refl _
  | cons row rows ih =>
    have hstep := ih (addEntry row.txType (table.changes row) inserted) (table.insertIgnore row)
    have hone : table.changes row ≤ 1 := by unfold Table.changes; split <;> omega
    rw [totalFor_addEntry] at hstep
    rw [List.foldl_cons, List.length_cons]
    change totalFor t (rows.foldl pushTxType (addEntry row.txType (table.changes row) inserted,
      table.insertIgnore row)).1 ≤ _
    split at hstep <;> omega

/-! ### One block -/

/-- What a returning write leaves: a block above the cursor is applied, a block at or below it is
skipped. -/
def WriteOutcome (db : Db) (extracted : ExtractedBlock) (tokenRows : List TokenRow) :
    Bool → Db → Prop
  | true, db' =>
    db' = db.applied extracted tokenRows ∧ ∀ c, db.cursor = some c → c < extracted.number
  | false, db' => db' = db ∧ ∃ c, db.cursor = some c ∧ extracted.number ≤ c

/-- Why a write on a database stops with an error. -/
def WriteError (db : Db) (extracted : ExtractedBlock) (tokenRows : List TokenRow) : Prop :=
  (∃ e, db.readCursor = .error e) ∨ ¬ Storable extracted tokenRows

theorem applyRows_spec (extracted : ExtractedBlock) (tokenRows : List TokenRow) (db : Db) :
    Triple (· = db) (applyRows extracted tokenRows)
      (fun b db' => b = true ∧ db' = db.applied extracted tokenRows)
      (fun _ _ => ¬ Storable extracted tokenRows) fun _ => True := by
  refine Triple.bind (Triple.forM_foldl (fun row hrow st => (insertAddressTx_spec row st).conseq
    (fun _ h => h) (fun _ _ h => h) (fun _ _ h hs => h (hs.addressRows row hrow)) fun _ h => h) db)
    fun _ => Triple.of_forall fun db₁ h₁ => ?_
  rw [foldl_insertAddressTx] at h₁
  refine Triple.bind (Triple.foldlM_foldl
    (g := fun acc row => (addEntry row.txType (acc.2.txTypes.changes row) acc.1,
      { acc.2 with txTypes := acc.2.txTypes.insertIgnore row }))
    (fun row hrow c st => (storeTxType_spec c row st).conseq
      (fun _ h => h) (fun _ _ h => h) (fun _ _ h hs => h (hs.txTypes row hrow)) fun _ h => h) []
    db₁) fun inserted => Triple.of_forall fun db₂ h₂ => ?_
  rw [foldl_pushTxType] at h₂
  obtain ⟨rfl, rfl⟩ := Prod.mk.inj h₂
  refine Triple.bind (Triple.forM_foldl (fun entry hentry st => (addTotal_spec entry st).conseq
    (fun _ h => h) (fun _ _ h => h) (fun _ _ h hs => h ?_) fun _ h => h) _)
    fun _ => Triple.of_forall fun db₃ h₃ => ?_
  · have hle := totalFor_foldl_pushTxType_le entry.1 extracted.txTypes [] db₁.txTypes
    rw [totalFor_nil] at hle
    have := le_totalFor hentry
    have := hs.length_txTypes
    omega
  rw [foldl_addTotal] at h₃
  refine Triple.bind (Triple.forM_foldl (fun row hrow st => (upsertConsensus_spec row st).conseq
    (fun _ h => h) (fun _ _ h => h)
    (fun _ _ h hs => h (hs.consensus row (Option.mem_toList.mp hrow))) fun _ h => h) _)
    fun _ => Triple.of_forall fun db₄ h₄ => ?_
  rw [foldl_upsertConsensus] at h₄
  refine Triple.bind (Triple.forM_foldl (fun row hrow st => (insertTransfer_spec row st).conseq
    (fun _ h => h) (fun _ _ h => h) (fun _ _ h hs => h (hs.transfers row hrow)) fun _ h => h) _)
    fun _ => Triple.of_forall fun db₅ h₅ => ?_
  rw [foldl_insertTransfer] at h₅
  refine Triple.bind (Triple.forM_foldl (fun row hrow st => (upsertToken_spec row st).conseq
    (fun _ h => h) (fun _ _ h => h) (fun _ _ h hs => h (hs.tokenRows row hrow)) fun _ h => h) _)
    fun _ => Triple.of_forall fun db₆ h₆ => ?_
  rw [foldl_upsertToken] at h₆
  refine Triple.bind (Q := fun _ db' => db' = db.applied extracted tokenRows)
    (Triple.execute ?_ fun _ _ => trivial) fun _ => Triple.pure _ fun _ h => ⟨rfl, h⟩
  rintro _ rfl
  subst h₁ h₃ h₄ h₅ h₆
  rfl

theorem applyBlock_spec (extracted : ExtractedBlock) (tokenRows : List TokenRow) (db : Db) :
    Triple (· = db) (applyBlock extracted tokenRows) (WriteOutcome db extracted tokenRows)
      (fun _ _ => WriteError db extracted tokenRows) fun _ => True := by
  refine Triple.bind
    (Q := fun cursor db' => db' = db ∧ db.readCursor = .ok cursor)
    (Triple.query ?_ fun _ _ => trivial) fun cursor => Triple.of_forall ?_
  · rintro db rfl
    cases h : db.readCursor with
    | ok cursor => exact ⟨rfl, rfl⟩
    | error e => exact Or.inl ⟨e, h⟩
  rintro db ⟨rfl, hcursor⟩
  have hdb := readCursor_eq_ok hcursor
  split
  · next hskip =>
    refine Triple.pure _ ?_
    rintro db rfl
    obtain ⟨c, hc, hle⟩ := (Option.any_eq_true ..).mp hskip
    exact ⟨rfl, c, by rw [hdb, hc], by simpa using hle⟩
  · next hnew =>
    refine (applyRows_spec extracted tokenRows db).conseq (fun _ h => h) ?_
      (fun _ _ h => Or.inr h) fun _ h => h
    rintro _ db' ⟨rfl, hdb'⟩
    refine ⟨hdb', fun c hc => ?_⟩
    rw [hdb] at hc
    simpa [hc] using hnew

/-- **A call applies its block, skips it, or changes nothing.** -/
theorem indexBlock_spec (extracted : ExtractedBlock) (tokenRows : List TokenRow) (db : Db) :
    Triple (· = db) (indexBlock extracted tokenRows) (WriteOutcome db extracted tokenRows)
      (fun _ db' => db' = db ∧ WriteError db extracted tokenRows) (fun db' => db' = db) := by
  refine (Triple.transaction (applyBlock_spec extracted tokenRows db)).conseq (fun _ h => h) ?_
    (fun _ _ h => ⟨h.1, h.2.choose_spec⟩) fun _ h => h
  rintro (_ | _) db' ⟨mid, hmid, rfl⟩
  · exact ⟨rfl, hmid.2⟩
  · exact hmid

/-- `indexBlock_spec`, read off a run. -/
theorem indexBlock_cases (extracted : ExtractedBlock) (tokenRows : List TokenRow)
    (s : Session Db) :
    (∃ b, (indexBlock extracted tokenRows s).1 = .ok b ∧
      WriteOutcome s.store extracted tokenRows b (indexBlock extracted tokenRows s).2.store) ∨
    (∃ stop, (indexBlock extracted tokenRows s).1 = .error stop ∧
      (indexBlock extracted tokenRows s).2.store = s.store) := by
  have hspec := indexBlock_spec extracted tokenRows s.store s rfl
  match hrun : indexBlock extracted tokenRows s with
  | (.ok b, s') => rw [hrun] at hspec; exact Or.inl ⟨b, rfl, hspec.1⟩
  | (.error (.failed e), s') => rw [hrun] at hspec; exact Or.inr ⟨_, rfl, hspec.1⟩
  | (.error .cut, s') => rw [hrun] at hspec; exact Or.inr ⟨_, rfl, hspec.1⟩

/-- The store a call leaves: the block's, or the one it found. -/
theorem store_indexBlock (extracted : ExtractedBlock) (tokenRows : List TokenRow)
    (s : Session Db) :
    ((indexBlock extracted tokenRows s).2.store = s.store.applied extracted tokenRows ∧
      ∀ c, s.store.cursor = some c → c < extracted.number) ∨
    (indexBlock extracted tokenRows s).2.store = s.store := by
  rcases indexBlock_cases extracted tokenRows s with ⟨_ | _, -, h⟩ | ⟨_, -, h⟩
  · exact Or.inr h.1
  · exact Or.inl h
  · exact Or.inr h

/-- **An uncut call on a storable block returns.** -/
theorem indexBlock_returns {extracted : ExtractedBlock} {tokenRows : List TokenRow} {db : Db}
    {cursor : Option ℕ} (hcursor : db.readCursor = .ok cursor)
    (hs : Storable extracted tokenRows) :
    ∃ b db', indexBlock extracted tokenRows ⟨db, none⟩ = (.ok b, ⟨db', none⟩) ∧
      WriteOutcome db extracted tokenRows b db' := by
  refine Triple.returns (P := (· = db)) ((indexBlock_spec extracted tokenRows db).conseq
    (fun _ h => h) (fun _ _ h => h) (fun _ _ h => ?_) fun _ h => h) rfl
  rcases h.2 with ⟨e, he⟩ | hn
  · rw [hcursor] at he
    cases he
  · exact hn hs

/-! ### The applied database -/

theorem readMeta_applied (db : Db) (extracted : ExtractedBlock) (tokenRows : List TokenRow)
    (key : String) : readMeta (db.applied extracted tokenRows).metadata key =
      if key = "last_indexed" then some extracted.number.repr else readMeta db.metadata key :=
  readMeta_replace _ _ _

theorem readCursor_applied (db : Db) (extracted : ExtractedBlock) (tokenRows : List TokenRow)
    (h : extracted.number < 2 ^ 64) :
    (db.applied extracted tokenRows).readCursor = .ok (some extracted.number) := by
  rw [Db.readCursor]
  rw [readMeta_applied, if_pos rfl]
  simp only [Numeral.parseNat_repr h]

/-- **An applied block is the new cursor.** -/
theorem cursor_applied (db : Db) (extracted : ExtractedBlock) (tokenRows : List TokenRow)
    (h : extracted.number < 2 ^ 64) :
    (db.applied extracted tokenRows).cursor = some extracted.number :=
  readCursor_eq_ok (readCursor_applied db extracted tokenRows h)

end ExplorerIndexer
