import ExplorerIndexer.Extract
import ExplorerIndexer.Library.Table
import ExplorerIndexer.Library.Numeral

/-!
# Schema v3

The tables of the index file, with the primary keys of the DDL, and the file itself: what tables
exist, in which shape, with which rows. A file in the v3 shape is a `Db`; a file left by an older
version, or by a migration that was killed, is only a `File`.

The text columns hold what the writer stores: addresses and digests in lowercase hexadecimal,
transfer values and the values of `meta` in decimal.

## Main definitions

* `Db` — the seven tables of schema v3
* `Db.cursor` — the block `meta.last_indexed` names
* `File` — the tables that exist, each in the v3 shape or in an outdated one
* `Db.toFile`, `File.toDb` — the v3 files among all files

## Main results

* `addrHex_injective`, `digestHex_injective` — the text keys name one address, one digest
* `File.toDb_eq_some_iff` — a file is in the v3 shape exactly when it comes from a `Db`
-/

namespace ExplorerIndexer

/-! ### Text keys -/

/-- Lowercase `0x`-prefixed hex for an address. -/
def addrHex (address : Address) : String := Numeral.hexString 40 address.toNat

/-- Lowercase `0x`-prefixed hex for a 32-byte digest. -/
def digestHex (digest : B256) : String := Numeral.hexString 64 digest.toNat

theorem addrHex_injective {a b : Address} (h : addrHex a = addrHex b) : a = b :=
  BitVec.eq_of_toNat_eq (Numeral.hexString_injective a.isLt b.isLt h)

theorem digestHex_injective {a b : B256} (h : digestHex a = digestHex b) : a = b :=
  BitVec.eq_of_toNat_eq (Numeral.hexString_injective a.isLt b.isLt h)

@[simp] theorem addrHex_inj {a b : Address} : addrHex a = addrHex b ↔ a = b :=
  ⟨addrHex_injective, congrArg _⟩

@[simp] theorem digestHex_inj {a b : B256} : digestHex a = digestHex b ↔ a = b :=
  ⟨digestHex_injective, congrArg _⟩

/-! ### Rows and their keys -/

/-- A row of `meta`. -/
structure MetaRow where
  key : String
  value : String
  deriving DecidableEq, Repr

/-- A row of `address_txs`. -/
structure AddressTx where
  address : String
  blockNumber : ℕ
  txIndex : ℕ
  txType : ℕ
  deriving DecidableEq, Repr

/-- A row of `tx_type_counts`. -/
structure TypeCount where
  txType : ℕ
  count : ℕ
  deriving DecidableEq, Repr

/-- A row of `consensus_blocks`. -/
structure ConsensusBlock where
  digest : String
  epoch : ℕ
  round : ℕ
  firstBlock : ℕ
  lastBlock : ℕ
  deriving DecidableEq, Repr

/-- A row of `token_transfers`. -/
structure StoredTransfer where
  blockNumber : ℕ
  txIndex : ℕ
  logIndex : ℕ
  token : String
  fromAddr : String
  toAddr : String
  value : String
  deriving DecidableEq, Repr

/-- A row of `tokens`. -/
structure StoredToken where
  address : String
  name : Option String
  symbol : Option String
  decimals : Option ℕ
  /-- 0 ok, 1 retry pending, 2 failed for good. -/
  status : ℕ
  fetchedAt : ℕ
  deriving DecidableEq, Repr

/-- `PRIMARY KEY (address, block_number, tx_index)`. -/
def AddressTx.key (r : AddressTx) : String × ℕ × ℕ := (r.address, r.blockNumber, r.txIndex)

/-- `PRIMARY KEY (tx_type, block_number, tx_index)`: the whole row. -/
def TxTypeRow.key (r : TxTypeRow) : ℕ × ℕ × ℕ := (r.txType, r.blockNumber, r.txIndex)

/-- `PRIMARY KEY (block_number, tx_index, log_index)`. -/
def StoredTransfer.key (r : StoredTransfer) : ℕ × ℕ × ℕ := (r.blockNumber, r.txIndex, r.logIndex)

theorem TxTypeRow.key_injective {r s : TxTypeRow} (h : r.key = s.key) : r = s := by
  cases r; cases s; simpa [TxTypeRow.key] using h

/-! ### The database -/

/-- The tables of schema v3. -/
structure Db where
  metadata : Table MetaRow.key
  addressTxs : Table AddressTx.key
  txTypes : Table TxTypeRow.key
  txTypeCounts : Table TypeCount.txType
  consensusBlocks : Table ConsensusBlock.digest
  tokenTransfers : Table StoredTransfer.key
  tokens : Table StoredToken.address
  deriving DecidableEq

/-- The value `meta` holds for a key. -/
def readMeta (metadata : Table MetaRow.key) (key : String) : Option String :=
  (metadata.find? key).map MetaRow.value

theorem readMeta_replace (metadata : Table MetaRow.key) (row : MetaRow) (key : String) :
    readMeta (metadata.replace row) key =
      if key = row.key then some row.value else readMeta metadata key := by
  rw [readMeta]
  rw [Table.find?_replace]
  split <;> rfl

theorem readMeta_insertIgnore (metadata : Table MetaRow.key) (row : MetaRow) (key : String) :
    readMeta (metadata.insertIgnore row) key =
      (readMeta metadata key).or (if row.key = key then some row.value else none) := by
  unfold readMeta
  rw [Table.find?_insertIgnore]
  cases metadata.find? key with
  | none => by_cases h : row.key = key <;> simp [h]
  | some r => rfl

/-- The block `meta.last_indexed` names; `none` when the key is absent or its text is not a
64-bit number. -/
def Db.cursor (db : Db) : Option ℕ :=
  (readMeta db.metadata "last_indexed").bind (Numeral.parseNat (2 ^ 64))

/-- `n` is at or below the cursor. -/
def Db.Indexed (db : Db) (n : ℕ) : Prop := ∃ c, db.cursor = some c ∧ n ≤ c

/-- The first block a replay of this database starts from: `cursor + 1`, or `0`. -/
def Db.next (db : Db) : ℕ := db.cursor.elim 0 (· + 1)

theorem Db.indexed_iff (db : Db) {n : ℕ} : db.Indexed n ↔ n < db.next := by
  rw [Indexed, next]
  cases db.cursor with
  | none => simp
  | some c => simp only [Option.elim_some, Option.some.injEq, exists_eq_left', Nat.lt_succ_iff]

/-! ### Files -/

/-- A table of another schema version. Nothing reads its rows. -/
structure Outdated where
  columns : List String
  rows : List (List String)
  deriving DecidableEq, Repr

/-- A table that exists: in the v3 shape, or in another one. -/
inductive Stored (α : Type) where
  | current (t : α)
  | outdated (o : Outdated)
  deriving DecidableEq

/-- `token_transfers` with the indexes on it, which are dropped with it. -/
structure TransferTable where
  table : Stored (Table StoredTransfer.key)
  idxToken : Bool
  idxFrom : Bool
  idxTo : Bool
  deriving DecidableEq

/-- An index file: the tables that exist. `meta` has had its two columns in every
version. `blocks` and `transactions` are tables of v1. -/
structure File where
  metadata : Option (Table MetaRow.key)
  addressTxs : Option (Stored (Table AddressTx.key))
  txTypes : Option (Stored (Table TxTypeRow.key))
  txTypeCounts : Option (Stored (Table TypeCount.txType))
  consensusBlocks : Option (Stored (Table ConsensusBlock.digest))
  tokenTransfers : Option TransferTable
  tokens : Option (Stored (Table StoredToken.address))
  blocks : Option Outdated
  transactions : Option Outdated
  deriving DecidableEq

/-- The file that does not exist yet. -/
def File.empty : File := ⟨none, none, none, none, none, none, none, none, none⟩

/-- The file that holds a database and nothing else. -/
def Db.toFile (db : Db) : File where
  metadata := some db.metadata
  addressTxs := some (.current db.addressTxs)
  txTypes := some (.current db.txTypes)
  txTypeCounts := some (.current db.txTypeCounts)
  consensusBlocks := some (.current db.consensusBlocks)
  tokenTransfers := some ⟨.current db.tokenTransfers, true, true, true⟩
  tokens := some (.current db.tokens)
  blocks := none
  transactions := none

/-- The database of a file in the v3 shape. -/
def File.toDb : File → Option Db
  | ⟨some metadata, some (.current addressTxs), some (.current txTypes),
      some (.current txTypeCounts), some (.current consensusBlocks),
      some ⟨.current tokenTransfers, true, true, true⟩, some (.current tokens), none, none⟩ =>
    some ⟨metadata, addressTxs, txTypes, txTypeCounts, consensusBlocks, tokenTransfers, tokens⟩
  | _ => none

@[simp] theorem Db.toDb_toFile (db : Db) : db.toFile.toDb = some db := rfl

/-- **A file in the v3 shape is the file of its database.** -/
theorem File.toDb_eq_some_iff {f : File} {db : Db} : f.toDb = some db ↔ f = db.toFile := by
  refine ⟨fun h => ?_, fun h => h ▸ rfl⟩
  unfold File.toDb at h
  split at h
  · cases h; rfl
  · cases h

theorem Db.toFile_injective {db db' : Db} (h : db.toFile = db'.toFile) : db = db' := by
  have := congrArg File.toDb h
  simpa using this

/-- The cursor of a file: what `meta.last_indexed` names, whatever else the file holds. -/
def File.cursor (f : File) : Option ℕ :=
  (f.metadata.bind (readMeta · "last_indexed")).bind (Numeral.parseNat (2 ^ 64))

/-- The first block a replay of a file starts from. -/
def File.next (f : File) : ℕ := f.cursor.elim 0 (· + 1)

@[simp] theorem Db.cursor_toFile (db : Db) : db.toFile.cursor = db.cursor := rfl

@[simp] theorem Db.next_toFile (db : Db) : db.toFile.next = db.next := rfl

end ExplorerIndexer
