import ExplorerIndexer.Queries

/-!
# The transfer feeds

The transfers of an address, of a token and of a transaction, page by page. The feed of an address
is a union of two arms over all columns, its count a union over the key columns only; the key of the
table makes the two agree. Nothing else is asked of the table's contents.

## Main definitions

* `Complete` — a feed lists the selected rows, each once and in a strict order, with its count and
  its pages

## Main results

* `transfer_feeds_complete` — the three feeds are complete
-/

namespace ExplorerIndexer

/-! ### Strict orders -/

/-- Descending `(block_number, tx_index, log_index)`. -/
def newerTransfer (r s : StoredTransfer) : Prop :=
  s.blockNumber < r.blockNumber ∨ s.blockNumber = r.blockNumber ∧
    (s.txIndex < r.txIndex ∨ s.txIndex = r.txIndex ∧ s.logIndex < r.logIndex)

/-- Ascending `log_index`. -/
def emittedBefore (r s : StoredTransfer) : Prop := r.logIndex < s.logIndex

theorem newerTransfer_of_key_ne {r s : StoredTransfer} (h : newestTransferFirst r s)
    (hne : r.key ≠ s.key) : newerTransfer r s := by
  simp only [newestTransferFirst, newerTransfer, StoredTransfer.key, ne_eq, Prod.mk.injEq] at *
  omega

/-- Sorted rows of the table are strictly sorted, when no two of them tie. -/
theorem pairwise_insertionSort_of_key {r before : StoredTransfer → StoredTransfer → Prop}
    [DecidableRel r] [Std.Total r] [IsTrans StoredTransfer r] (db : Db) {rows : List StoredTransfer}
    (hrows : ∀ a ∈ rows, a ∈ db.tokenTransfers.rows) (hnodup : rows.Nodup)
    (hbefore : ∀ a ∈ rows, ∀ b ∈ rows, r a b → a.key ≠ b.key → before a b) :
    (rows.insertionSort r).Pairwise before := by
  have hsorted := List.pairwise_insertionSort r rows
  have hdistinct : (rows.insertionSort r).Pairwise (· ≠ ·) :=
    (rows.perm_insertionSort r).nodup_iff.mpr hnodup
  refine (hsorted.and hdistinct).imp_of_mem fun {a b} ha hb ⟨hle, hne⟩ => ?_
  rw [List.mem_insertionSort] at ha hb
  exact hbefore a ha b hb hle fun hkey =>
    hne (db.tokenTransfers.eq_of_key_eq (hrows a ha) (hrows b hb) hkey)

/-! ### Complete feeds -/

/-- A feed lists the selected rows, each once and in a strict order; the count query returns its
length; and its pages, concatenated, are the feed, as far as SQLite binds their offsets. -/
structure Complete (selected : StoredTransfer → Prop)
    (before : StoredTransfer → StoredTransfer → Prop) (count : Except Error ℕ)
    (page : ℕ → ℕ → Except Error (List StoredTransfer)) (feed : List StoredTransfer) : Prop where
  mem : ∀ row, row ∈ feed ↔ selected row
  nodup : feed.Nodup
  sorted : feed.Pairwise before
  count : count = .ok feed.length
  pages : ∀ perPage n, 1 ≤ perPage → perPage ≤ 100 → (n - 1) * perPage < 2 ^ 63 →
    ∃ pages, (List.range n).mapM (fun p => page perPage (p * perPage)) = .ok pages ∧
      pages.flatten = feed.take (n * perPage)

/-- **Consecutive pages of a feed are the feed.** -/
theorem exists_pages {feed : List StoredTransfer}
    {page : ℕ → ℕ → Except Error (List StoredTransfer)}
    (hpage : ∀ limit offset, limit < 2 ^ 63 → offset < 2 ^ 63 →
      page limit offset = .ok (Page.slice limit offset feed)) {perPage n : ℕ}
    (hle : perPage ≤ 100) (hn : (n - 1) * perPage < 2 ^ 63) :
    ∃ pages, (List.range n).mapM (fun p => page perPage (p * perPage)) = .ok pages ∧
      pages.flatten = feed.take (n * perPage) := by
  refine Page.exists_pages fun p hp => ?_
  have hp : p ≤ n - 1 := Nat.le_pred_of_lt hp
  exact hpage _ _ (hle.trans_lt (by decide)) ((Nat.mul_le_mul_right perPage hp).trans_lt hn)

section Feeds

variable (db : Db)

theorem complete_addressTransferRows (address : String) :
    Complete (fun row => row ∈ db.tokenTransfers.rows ∧
        (row.fromAddr = address ∨ row.toAddr = address))
      newerTransfer (.ok (countAddressTransfers db address)) (addressTransfersPage db address)
      (addressTransferRows db address) where
  mem _ := mem_addressTransferRows
  nodup := nodup_addressTransferRows db address
  sorted := by
    refine pairwise_insertionSort_of_key db (fun row hrow => ?_) (List.nodup_dedup _)
      fun a _ b _ => newerTransfer_of_key_ne
    rcases List.mem_append.mp (List.mem_dedup.mp hrow) with hrow | hrow <;>
      exact (List.mem_filter.mp hrow).1
  count := by rw [length_addressTransferRows]
  pages _ _ _ hle hn :=
    exists_pages (fun _ _ hlimit hoffset => selectPage_eq _ hlimit hoffset) hle hn

theorem complete_tokenTransferRows (token : String) :
    Complete (fun row => row ∈ db.tokenTransfers.rows ∧ row.token = token) newerTransfer
      (.ok (countTokenTransfers db token)) (tokenTransfersPage db token)
      (tokenTransferRows db token) where
  mem row := by simp [tokenTransferRows]
  nodup := nodup_tokenTransferRows db token
  sorted := pairwise_insertionSort_of_key db (fun _ hrow => (List.mem_filter.mp hrow).1)
    (db.tokenTransfers.nodup_rows.filter _) fun a _ b _ => newerTransfer_of_key_ne
  count := by rw [length_tokenTransferRows]
  pages _ _ _ hle hn :=
    exists_pages (fun _ _ hlimit hoffset => selectPage_eq _ hlimit hoffset) hle hn

theorem complete_txTransferRows {blockNumber txIndex : ℕ} (hn : blockNumber < 2 ^ 63)
    (hi : txIndex < 2 ^ 63) :
    Complete (fun row => row ∈ db.tokenTransfers.rows ∧ row.blockNumber = blockNumber ∧
        row.txIndex = txIndex)
      emittedBefore (countTransfersForTx db blockNumber txIndex)
      (transfersForTxPage db blockNumber txIndex) (txTransferRows db blockNumber txIndex) where
  mem row := by simp [txTransferRows]
  nodup := nodup_txTransferRows db blockNumber txIndex
  sorted := by
    refine pairwise_insertionSort_of_key db (fun _ hrow => (List.mem_filter.mp hrow).1)
      (db.tokenTransfers.nodup_rows.filter _) fun a ha b hb hle hne => ?_
    -- within one transaction the key is the log index
    simp only [List.mem_filter, decide_eq_true_eq] at ha hb
    refine Nat.lt_of_le_of_ne hle fun heq => hne ?_
    rw [StoredTransfer.key, StoredTransfer.key, ha.2.1, ha.2.2, hb.2.1, hb.2.2, heq]
  count := by
    simp only [countTransfersForTx, bindU64, if_pos hn, if_pos hi]
    exact congrArg _ (length_txTransferRows db blockNumber txIndex).symm
  pages _ _ _ hle hn' := by
    refine exists_pages (fun _ _ hlimit hoffset => ?_) hle hn'
    simp only [transfersForTxPage, bindU64, if_pos hn, if_pos hi]
    exact selectPage_eq _ hlimit hoffset

/-- **The transfer feeds are complete and free of duplicates**, whatever the table holds: the feed
of an address has its transfers once each, also those to itself, newest first; so has the feed of a
token; and the feed of a transaction has its transfers in log order. -/
theorem transfer_feeds_complete :
    (∀ address, ∃ feed, Complete
      (fun row => row ∈ db.tokenTransfers.rows ∧
        (row.fromAddr = address ∨ row.toAddr = address))
      newerTransfer (.ok (countAddressTransfers db address)) (addressTransfersPage db address)
      feed) ∧
    (∀ token, ∃ feed, Complete (fun row => row ∈ db.tokenTransfers.rows ∧ row.token = token)
      newerTransfer (.ok (countTokenTransfers db token)) (tokenTransfersPage db token) feed) ∧
    ∀ blockNumber txIndex, blockNumber < 2 ^ 63 → txIndex < 2 ^ 63 → ∃ feed, Complete
      (fun row => row ∈ db.tokenTransfers.rows ∧ row.blockNumber = blockNumber ∧
        row.txIndex = txIndex)
      emittedBefore (countTransfersForTx db blockNumber txIndex)
      (transfersForTxPage db blockNumber txIndex) feed :=
  ⟨fun address => ⟨_, complete_addressTransferRows db address⟩,
    fun token => ⟨_, complete_tokenTransferRows db token⟩,
    fun _ _ hn hi => ⟨_, complete_txTransferRows db hn hi⟩⟩

end Feeds

/-- A transfer that was sent, one to itself and one received. -/
def transferDb : Db where
  metadata := .empty
  addressTxs := .empty
  txTypes := .empty
  txTypeCounts := .empty
  consensusBlocks := .empty
  tokenTransfers := Table.empty.insertAll
    [⟨1, 0, 0, "t", "a", "b", "10"⟩, ⟨1, 0, 1, "t", "a", "a", "5"⟩, ⟨2, 0, 0, "t", "b", "a", "7"⟩]
  tokens := .empty

/-- Two pages of two list the three transfers of the address. -/
theorem transfer_feeds_complete_self : ∃ pages,
    (List.range 2).mapM (fun p => addressTransfersPage transferDb "a" 2 (p * 2)) = .ok pages ∧
      pages.flatten.length = 3 := by
  obtain ⟨feed, hfeed⟩ := (transfer_feeds_complete transferDb).1 "a"
  obtain ⟨pages, hpages, hflatten⟩ := hfeed.pages 2 2 (by decide) (by decide) (by decide)
  have hcount : countAddressTransfers transferDb "a" = 3 := by decide +kernel
  have hlength : 3 = feed.length := hcount ▸ Except.ok.inj hfeed.count
  exact ⟨pages, hpages, by rw [hflatten, List.length_take, ← hlength]; rfl⟩

end ExplorerIndexer
