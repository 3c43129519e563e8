import ExplorerIndexer.Writer
import ExplorerIndexer.Library.Fetch
import ExplorerIndexer.Library.Page
import Mathlib.Data.List.Dedup

/-!
# The read side

The queries behind the paged routes: for each feed a count and a page. The page is a slice of the
whole feed, which is defined first, in the order of the query's `ORDER BY`.

## Main definitions

* `typePointers`, `addressPointers`, `addressPointersByType` — the transaction feeds
* `addressTransferRows`, `tokenTransferRows`, `txTransferRows` — the transfer feeds
* `selectPage` — `LIMIT ?limit OFFSET ?offset` on a feed

## Main results

* `length_addressPointers` and its siblings — each count is the length of its feed; for the feed of
  a type, whose count is a stored counter, that is an invariant proved elsewhere
* `nodup_typePointers` and its siblings — no row stands in a feed twice
-/

namespace ExplorerIndexer

/-- A `(block_number, tx_index)` pointer. -/
structure TxPointer where
  blockNumber : ℕ
  txIndex : ℕ
  deriving DecidableEq, Repr

/-! ### Orders -/

/-- `ORDER BY block_number DESC, tx_index DESC`. -/
def newestFirst (p q : TxPointer) : Prop :=
  q.blockNumber < p.blockNumber ∨ q.blockNumber = p.blockNumber ∧ q.txIndex ≤ p.txIndex

instance : DecidableRel newestFirst := fun _ _ => inferInstanceAs (Decidable (_ ∨ _))

instance : Std.Total newestFirst := ⟨fun p q => by unfold newestFirst; omega⟩

instance : IsTrans TxPointer newestFirst := ⟨fun p q s => by unfold newestFirst; omega⟩

theorem newestFirst_antisymm {p q : TxPointer} (h : newestFirst p q) (h' : newestFirst q p) :
    p = q := by
  cases p; cases q
  simp only [newestFirst, TxPointer.mk.injEq] at *
  omega

/-- `ORDER BY block_number DESC, tx_index DESC, log_index DESC`. -/
def newestTransferFirst (r s : StoredTransfer) : Prop :=
  s.blockNumber < r.blockNumber ∨ s.blockNumber = r.blockNumber ∧
    (s.txIndex < r.txIndex ∨ s.txIndex = r.txIndex ∧ s.logIndex ≤ r.logIndex)

instance : DecidableRel newestTransferFirst := fun _ _ => inferInstanceAs (Decidable (_ ∨ _))

instance : Std.Total newestTransferFirst := ⟨fun r s => by unfold newestTransferFirst; omega⟩

instance : IsTrans StoredTransfer newestTransferFirst :=
  ⟨fun r s t => by unfold newestTransferFirst; omega⟩

theorem key_eq_of_newestTransferFirst {r s : StoredTransfer} (h : newestTransferFirst r s)
    (h' : newestTransferFirst s r) : r.key = s.key := by
  simp only [newestTransferFirst, StoredTransfer.key, Prod.mk.injEq] at *
  omega

/-- `ORDER BY log_index ASC`. -/
def emissionOrder (r s : StoredTransfer) : Prop := r.logIndex ≤ s.logIndex

instance : DecidableRel emissionOrder := fun _ _ => inferInstanceAs (Decidable (_ ≤ _))

instance : Std.Total emissionOrder := ⟨fun r s => Nat.le_total r.logIndex s.logIndex⟩

instance : IsTrans StoredTransfer emissionOrder := ⟨fun _ _ _ => Nat.le_trans⟩

/-! ### Feeds -/

/-- The pointer of a row of `address_txs`. -/
def AddressTx.pointer (r : AddressTx) : TxPointer := ⟨r.blockNumber, r.txIndex⟩

/-- The pointer of a row of `tx_types`. -/
def TxTypeRow.pointer (r : TxTypeRow) : TxPointer := ⟨r.blockNumber, r.txIndex⟩

/-- The transaction a transfer row belongs to. -/
def StoredTransfer.pointer (r : StoredTransfer) : TxPointer := ⟨r.blockNumber, r.txIndex⟩

/-- The pointers of an address, newest first. -/
def addressPointers (db : Db) (address : String) : List TxPointer :=
  ((db.addressTxs.rows.filter (·.address = address)).map (·.pointer)).insertionSort newestFirst

/-- The pointers of an address with one transaction type, newest first. -/
def addressPointersByType (db : Db) (address : String) (txType : ℕ) : List TxPointer :=
  ((db.addressTxs.rows.filter fun r => r.address = address ∧ r.txType = txType).map
    (·.pointer)).insertionSort newestFirst

/-- The pointers of one transaction type, newest first. -/
def typePointers (db : Db) (txType : ℕ) : List TxPointer :=
  ((db.txTypes.rows.filter (·.txType = txType)).map (·.pointer)).insertionSort newestFirst

/-- The transfers with the address as sender or recipient, newest first. A self-transfer is
selected by both arms of the `UNION`, which keeps it once. -/
def addressTransferRows (db : Db) (address : String) : List StoredTransfer :=
  (db.tokenTransfers.rows.filter (·.fromAddr = address) ++
    db.tokenTransfers.rows.filter (·.toAddr = address)).dedup.insertionSort newestTransferFirst

/-- The transfers of a token, newest first. -/
def tokenTransferRows (db : Db) (token : String) : List StoredTransfer :=
  (db.tokenTransfers.rows.filter (·.token = token)).insertionSort newestTransferFirst

/-- The transfers of a transaction, in emission order. -/
def txTransferRows (db : Db) (blockNumber txIndex : ℕ) : List StoredTransfer :=
  (db.tokenTransfers.rows.filter fun r =>
    r.blockNumber = blockNumber ∧ r.txIndex = txIndex).insertionSort emissionOrder

/-! ### Queries -/

/-- `LIMIT ?limit OFFSET ?offset`, both bound as parameters. -/
def selectPage {ρ : Type} (limit offset : ℕ) (feed : List ρ) : Except Error (List ρ) := do
  let limit ← bindU64 limit
  let offset ← bindU64 offset
  return Page.slice limit offset feed

theorem selectPage_eq {ρ : Type} {limit offset : ℕ} (feed : List ρ) (hlimit : limit < 2 ^ 63)
    (hoffset : offset < 2 ^ 63) :
    selectPage limit offset feed = .ok (Page.slice limit offset feed) := by
  simp only [selectPage, bindU64, if_pos hlimit, if_pos hoffset]
  rfl

theorem bindU64_eq_ok_iff {n m : ℕ} : bindU64 n = .ok m ↔ n < 2 ^ 63 ∧ m = n := by
  unfold bindU64
  split <;> simp_all [eq_comm]

theorem selectPage_eq_ok_iff {ρ : Type} {limit offset : ℕ} {feed rows : List ρ} :
    selectPage limit offset feed = .ok rows ↔
      limit < 2 ^ 63 ∧ offset < 2 ^ 63 ∧ rows = Page.slice limit offset feed := by
  constructor
  · intro h
    obtain ⟨l, hl, h⟩ := Fetch.bind_eq_ok_iff.mp h
    obtain ⟨o, ho, h⟩ := Fetch.bind_eq_ok_iff.mp h
    cases h
    obtain ⟨hl, rfl⟩ := bindU64_eq_ok_iff.mp hl
    obtain ⟨ho, rfl⟩ := bindU64_eq_ok_iff.mp ho
    exact ⟨hl, ho, rfl⟩
  · rintro ⟨hlimit, hoffset, rfl⟩
    exact selectPage_eq feed hlimit hoffset

def countAddressTxs (db : Db) (address : String) : ℕ :=
  db.addressTxs.rows.countP (·.address = address)

def addressTxsPage (db : Db) (address : String) (limit offset : ℕ) :
    Except Error (List TxPointer) :=
  selectPage limit offset (addressPointers db address)

def countAddressTxsByType (db : Db) (address : String) (txType : ℕ) : ℕ :=
  db.addressTxs.rows.countP fun r => r.address = address ∧ r.txType = txType

def addressTxsPageByType (db : Db) (address : String) (txType limit offset : ℕ) :
    Except Error (List TxPointer) :=
  selectPage limit offset (addressPointersByType db address txType)

/-- The stored counter of a type; a type never seen has no row and counts as `0`. -/
def countTxType (db : Db) (txType : ℕ) : ℕ :=
  ((db.txTypeCounts.find? txType).map TypeCount.count).getD 0

def txTypePage (db : Db) (txType limit offset : ℕ) : Except Error (List TxPointer) :=
  selectPage limit offset (typePointers db txType)

/-- `COUNT(*)` over the `UNION` of the keys the two arms select. -/
def countAddressTransfers (db : Db) (address : String) : ℕ :=
  ((db.tokenTransfers.rows.filter (·.fromAddr = address)).map StoredTransfer.key ++
    (db.tokenTransfers.rows.filter (·.toAddr = address)).map StoredTransfer.key).dedup.length

def addressTransfersPage (db : Db) (address : String) (limit offset : ℕ) :
    Except Error (List StoredTransfer) :=
  selectPage limit offset (addressTransferRows db address)

def countTokenTransfers (db : Db) (token : String) : ℕ :=
  db.tokenTransfers.rows.countP (·.token = token)

def tokenTransfersPage (db : Db) (token : String) (limit offset : ℕ) :
    Except Error (List StoredTransfer) :=
  selectPage limit offset (tokenTransferRows db token)

def countTransfersForTx (db : Db) (blockNumber txIndex : ℕ) : Except Error ℕ := do
  let blockNumber ← bindU64 blockNumber
  let txIndex ← bindU64 txIndex
  return db.tokenTransfers.rows.countP fun r => r.blockNumber = blockNumber ∧ r.txIndex = txIndex

def transfersForTxPage (db : Db) (blockNumber txIndex limit offset : ℕ) :
    Except Error (List StoredTransfer) := do
  let blockNumber ← bindU64 blockNumber
  let txIndex ← bindU64 txIndex
  selectPage limit offset (txTransferRows db blockNumber txIndex)

/-- The cached metadata row of a token. -/
def tokenRow (db : Db) (address : String) : Option StoredToken := db.tokens.find? address

/-! ### A count is the length of its feed -/

/-- Selected rows of a table whose pointers determine their keys have distinct pointers. -/
theorem nodup_map_filter {ρ κ τ : Type} {key : ρ → κ} (t : Table key) (p : ρ → Bool) (f : ρ → τ)
    (hf : ∀ r ∈ t.rows, ∀ s ∈ t.rows, p r → p s → f r = f s → key r = key s) :
    ((t.rows.filter p).map f).Nodup := by
  refine List.Nodup.map_on (fun r hr s hs heq => ?_) (t.nodup_rows.filter p)
  rw [List.mem_filter] at hr hs
  exact t.eq_of_key_eq hr.1 hs.1 (hf r hr.1 s hs.1 hr.2 hs.2 heq)

theorem length_addressPointers (db : Db) (address : String) :
    (addressPointers db address).length = countAddressTxs db address := by
  simp [addressPointers, countAddressTxs, List.countP_eq_length_filter]

theorem nodup_addressPointers (db : Db) (address : String) :
    (addressPointers db address).Nodup := by
  refine (List.perm_insertionSort newestFirst _).nodup_iff.mpr (nodup_map_filter _ _ _ ?_)
  intro r _ s _ hr hs h
  simp only [decide_eq_true_eq] at hr hs
  simp only [AddressTx.pointer, TxPointer.mk.injEq] at h
  rw [AddressTx.key, AddressTx.key, hr, hs, h.1, h.2]

theorem length_addressPointersByType (db : Db) (address : String) (txType : ℕ) :
    (addressPointersByType db address txType).length =
      countAddressTxsByType db address txType := by
  simp [addressPointersByType, countAddressTxsByType, List.countP_eq_length_filter]

theorem nodup_addressPointersByType (db : Db) (address : String) (txType : ℕ) :
    (addressPointersByType db address txType).Nodup := by
  refine (List.perm_insertionSort newestFirst _).nodup_iff.mpr (nodup_map_filter _ _ _ ?_)
  intro r _ s _ hr hs h
  simp only [decide_eq_true_eq] at hr hs
  simp only [AddressTx.pointer, TxPointer.mk.injEq] at h
  rw [AddressTx.key, AddressTx.key, hr.1, hs.1, h.1, h.2]

theorem length_typePointers (db : Db) (txType : ℕ) :
    (typePointers db txType).length = db.txTypes.rows.countP (·.txType = txType) := by
  simp [typePointers, List.countP_eq_length_filter]

theorem nodup_typePointers (db : Db) (txType : ℕ) : (typePointers db txType).Nodup := by
  refine (List.perm_insertionSort newestFirst _).nodup_iff.mpr (nodup_map_filter _ _ _ ?_)
  intro r _ s _ hr hs h
  simp only [decide_eq_true_eq] at hr hs
  simp only [TxTypeRow.pointer, TxPointer.mk.injEq] at h
  rw [TxTypeRow.key, TxTypeRow.key, hr, hs, h.1, h.2]

/-- The `UNION` of the two arms holds each transfer of the address once. -/
theorem mem_addressTransferRows {db : Db} {address : String} {r : StoredTransfer} :
    r ∈ addressTransferRows db address ↔
      r ∈ db.tokenTransfers.rows ∧ (r.fromAddr = address ∨ r.toAddr = address) := by
  simp [addressTransferRows, and_or_left]

theorem nodup_addressTransferRows (db : Db) (address : String) :
    (addressTransferRows db address).Nodup :=
  (List.perm_insertionSort newestTransferFirst _).nodup_iff.mpr (List.nodup_dedup _)

/-- Within one table rows with one key are one row, so rows and keys have the same duplicates. -/
theorem dedup_map_key {ρ κ : Type} [DecidableEq ρ] [DecidableEq κ] {key : ρ → κ} (t : Table key)
    {rs : List ρ} (hrs : ∀ r ∈ rs, r ∈ t.rows) : (rs.map key).dedup = rs.dedup.map key := by
  induction rs with
  | nil => rfl
  | cons r rs ih =>
    obtain ⟨hr, hrs⟩ := List.forall_mem_cons.mp hrs
    have hmem : key r ∈ rs.map key ↔ r ∈ rs := by
      refine ⟨fun h => ?_, List.mem_map_of_mem⟩
      obtain ⟨s, hs, hkey⟩ := List.mem_map.mp h
      rwa [← t.eq_of_key_eq (hrs s hs) hr hkey]
    rw [List.map_cons]
    by_cases h : r ∈ rs
    · rw [List.dedup_cons_of_mem h, List.dedup_cons_of_mem (hmem.mpr h), ih hrs]
    · rw [List.dedup_cons_of_notMem h, List.dedup_cons_of_notMem fun hc => h (hmem.mp hc), ih hrs,
        List.map_cons]

theorem length_addressTransferRows (db : Db) (address : String) :
    (addressTransferRows db address).length = countAddressTransfers db address := by
  rw [addressTransferRows, List.length_insertionSort, countAddressTransfers, ← List.map_append,
    dedup_map_key db.tokenTransfers fun r hr => ?_, List.length_map]
  rcases List.mem_append.mp hr with h | h <;> exact (List.mem_filter.mp h).1

theorem length_tokenTransferRows (db : Db) (token : String) :
    (tokenTransferRows db token).length = countTokenTransfers db token := by
  simp [tokenTransferRows, countTokenTransfers, List.countP_eq_length_filter]

theorem nodup_tokenTransferRows (db : Db) (token : String) : (tokenTransferRows db token).Nodup :=
  (List.perm_insertionSort newestTransferFirst _).nodup_iff.mpr
    (db.tokenTransfers.nodup_rows.filter _)

theorem length_txTransferRows (db : Db) (blockNumber txIndex : ℕ) :
    (txTransferRows db blockNumber txIndex).length =
      db.tokenTransfers.rows.countP fun r =>
        r.blockNumber = blockNumber ∧ r.txIndex = txIndex := by
  simp [txTransferRows, List.countP_eq_length_filter]

theorem nodup_txTransferRows (db : Db) (blockNumber txIndex : ℕ) :
    (txTransferRows db blockNumber txIndex).Nodup :=
  (List.perm_insertionSort emissionOrder _).nodup_iff.mpr (db.tokenTransfers.nodup_rows.filter _)

end ExplorerIndexer
