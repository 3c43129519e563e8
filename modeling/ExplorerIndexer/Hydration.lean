import ExplorerIndexer.Delivery
import ExplorerIndexer.NodeReads
import ExplorerIndexer.Snapshot

/-!
# No dangling pointers

A pointer of the index is a position that `extract_block` counted when the block was indexed.
Reading it back replays the block: the position must still name a transaction, and the same one.

## Main definitions

* `Db.Points` — a row of one of the three pointer tables names the transaction

## Main results

* `reference_of_reachable` — what the file of a reachable state holds
* `hydratePointers_of_reference` — pointers of the index hydrate
* `no_dangling_pointer` — every page of every route hydrates, at any moment
-/

namespace ExplorerIndexer

/-- A row of one of the pointer tables names the transaction. -/
inductive Db.Points (db : Db) : TxPointer → Prop where
  | addressTxs {r : AddressTx} (hr : r ∈ db.addressTxs.rows) : db.Points r.pointer
  | txTypes {r : TxTypeRow} (hr : r ∈ db.txTypes.rows) : db.Points r.pointer
  | tokenTransfers {r : StoredTransfer} (hr : r ∈ db.tokenTransfers.rows) : db.Points r.pointer

/-! ### Pages hold pointers of the index -/

theorem Db.points_of_map_filter {ρ : Type} {db : Db} {rows : List ρ} {p : ρ → Bool}
    {f : ρ → TxPointer} (hrows : ∀ r ∈ rows, db.Points (f r)) {pointer : TxPointer}
    (h : pointer ∈ ((rows.filter p).map f).insertionSort newestFirst) : db.Points pointer := by
  rw [List.mem_insertionSort] at h
  obtain ⟨r, hr, rfl⟩ := List.mem_map.mp h
  exact hrows r (List.mem_filter.mp hr).1

/-- The rows of a feed are rows of the tables. -/
theorem PagedQuery.points_of_feed (q : PagedQuery) (db : Db) :
    ∀ pointer ∈ q.pointers (q.feed db), db.Points pointer := by
  have htransfers : ∀ rows : List StoredTransfer, (∀ r ∈ rows, r ∈ db.tokenTransfers.rows) →
      ∀ pointer ∈ rows.map StoredTransfer.pointer, db.Points pointer := by
    intro rows hrows pointer hpointer
    obtain ⟨r, hr, rfl⟩ := List.mem_map.mp hpointer
    exact .tokenTransfers (hrows r hr)
  cases q with
  | txsByType txType => exact fun _ => Db.points_of_map_filter fun _ => .txTypes
  | addressTxs address => exact fun _ => Db.points_of_map_filter fun _ => .addressTxs
  | addressTxsByType address txType => exact fun _ => Db.points_of_map_filter fun _ => .addressTxs
  | addressTransfers address =>
    exact htransfers _ fun r hr => (mem_addressTransferRows.mp hr).1
  | tokenTransfers token =>
    exact htransfers _ fun r hr => (List.mem_filter.mp ((List.mem_insertionSort _).mp hr)).1
  | txTransfers blockNumber txIndex =>
    exact htransfers _ fun r hr => (List.mem_filter.mp ((List.mem_insertionSort _).mp hr)).1

/-- **The rows of a page are rows of the tables.** -/
theorem PagedQuery.points_of_page {q : PagedQuery} {db : Db} {limit offset : ℕ} {rows : List q.Row}
    (h : q.page db limit offset = .ok rows) : ∀ pointer ∈ q.pointers rows, db.Points pointer := by
  intro pointer hpointer
  obtain ⟨-, -, -, rfl⟩ := PagedQuery.page_eq_ok_iff.mp h
  refine q.points_of_feed db pointer ?_
  cases q with
  | txsByType | addressTxs | addressTxsByType => exact Page.mem_of_mem_slice hpointer
  | addressTransfers | tokenTransfers | txTransfers =>
    obtain ⟨r, hr, rfl⟩ := List.mem_map.mp hpointer
    exact List.mem_map_of_mem (Page.mem_of_mem_slice hr)

/-! ### Pointers of the index name transactions of the chain -/

variable {up : Upstream} {chain : NodeChain} {chainId : UInt64} {w : World} {db : Db}

/-- A pointer of the rows of a chain prefix names a transaction of the prefix. -/
theorem Db.Points.tx {next : ℕ} {pointer : TxPointer} (h : db.Points pointer)
    (hreference : Reference up chain.toChain next db) :
    pointer.blockNumber < next ∧
      ∃ entry, chain.tx? pointer.blockNumber pointer.txIndex = some entry := by
  cases h with
  | addressTxs hr =>
    obtain ⟨n, hn, i, sender, tx, a, htx, -, rfl⟩ := (hreference.addressTxs _).mp hr
    exact ⟨hn, _, htx⟩
  | txTypes hr =>
    obtain ⟨n, hn, i, sender, tx, htx, rfl⟩ := (hreference.txTypes _).mp hr
    exact ⟨hn, _, htx⟩
  | tokenTransfers hr =>
    obtain ⟨n, hn, i, j, receipt, log, f, t, htx, -, -, -, -, rfl⟩ :=
      (hreference.tokenTransfers _).mp hr
    exact ⟨hn, Option.isSome_iff_exists.mp htx⟩

/-- A database nothing was written to is the index of no blocks. -/
theorem reference_of_vacant (h : db.toFile.Vacant) : Reference up chain.toChain 0 db where
  addressTxs row := by
    have hempty : db.addressTxs = .empty := Stored.current.inj (h.addressTxs _ rfl)
    rw [hempty]
    refine iff_of_false List.not_mem_nil ?_
    rintro ⟨n, hn, -⟩
    omega
  txTypes row := by
    have hempty : db.txTypes = .empty := Stored.current.inj (h.txTypes _ rfl)
    rw [hempty]
    refine iff_of_false List.not_mem_nil ?_
    rintro ⟨n, hn, -⟩
    omega
  txTypeCounts := countsExact_toFile.mp h.countsExact
  tokenTransfers row := by
    have hempty : db.tokenTransfers = .empty := Stored.current.inj (h.tokenTransfers _ rfl)
    rw [hempty]
    refine iff_of_false List.not_mem_nil ?_
    rintro ⟨n, hn, -⟩
    omega
  consensusBlocks row := by
    have hempty : db.consensusBlocks = .empty := Stored.current.inj (h.consensusBlocks _ rfl)
    rw [hempty]
    refine iff_of_false List.not_mem_nil ?_
    rintro ⟨d, e, r, lo, hi, hlo, -⟩
    omega

/-- **What the file of a reachable state holds**: the rows of the blocks below the next one, all of
them executed. -/
theorem reference_of_reachable
    (hw : (exexSystem ⟨up, chain.toChain, chainId⟩ (· = File.empty)).Reachable w)
    (hdb : w.file = db.toFile) :
    Reference up chain.toChain db.next db ∧ db.next ≤ w.tip + 1 := by
  rcases started_of_reachable rebuildable_empty hw with ⟨-, hvacant, -⟩ | ⟨db', hwhole⟩
  · have hvacant := hvacant fun f hf => hf ▸ vacant_empty
    rw [hdb] at hvacant
    have hnext : db.next = 0 := by
      have hcursor := hvacant.cursor
      rw [Db.cursor_toFile] at hcursor
      rw [Db.next, hcursor]
      rfl
    rw [hnext]
    exact ⟨reference_of_vacant hvacant, Nat.zero_le _⟩
  · cases Db.toFile_injective (hdb.symm.trans hwhole.file)
    exact ⟨hwhole.reference, hwhole.executed⟩

/-- **Pointers of the index hydrate**, whatever the node has executed since: one entry for each
pointer, the transaction at its position with its own status and gas. -/
theorem hydratePointers_of_reference {next tip : ℕ}
    (hreference : Reference up chain.toChain next db) (hnext : next ≤ tip + 1) {env : RethEnv}
    (henv : env.Replays (chain.store tip))
    {pointers : List TxPointer} (hpoints : ∀ pointer ∈ pointers, db.Points pointer) :
    ∃ data, hydratePointers env pointers = .ok data ∧
      List.Forall₂ (fun pointer d => chain.txData? pointer = some d) pointers data := by
  have hle : ∀ pointer ∈ pointers, pointer.blockNumber ≤ tip := fun pointer hpointer => by
    have := ((hpoints pointer hpointer).tx hreference).1
    omega
  obtain ⟨data, hdata⟩ : ∃ data, List.Forall₂
      (fun pointer d => (chain.store tip).txData? pointer = some d) pointers data := by
    refine Fetch.exists_forall₂_iff.mpr fun pointer hpointer => ?_
    obtain ⟨-, entry, htx⟩ := (hpoints pointer hpointer).tx hreference
    exact NodeStore.has_iff.mp (NodeChain.has_store (hle pointer hpointer) htx)
  refine ⟨data, (hydratePointers_eq_ok_iff henv).mpr hdata, ?_⟩
  refine (Fetch.forall₂_congr_left fun pointer hpointer d => ?_).mp hdata
  rw [NodeChain.txData?_store (hle pointer hpointer)]

/-- **No dangling pointer.** In every reachable state, whatever the node has executed since, every
list of pointers of the index hydrates, in any order and with repetitions: one entry for each
pointer, the transaction at its position with its own status and gas. So does every page a route
reads. For arbitrary pointers, hydration fails exactly when the node lacks what one of them
names. -/
theorem no_dangling_pointer
    (hw : (exexSystem ⟨up, chain.toChain, chainId⟩ (· = File.empty)).Reachable w)
    (hdb : w.file = db.toFile) {tip : ℕ} (htip : w.tip ≤ tip) {env : RethEnv}
    (henv : env.Replays (chain.store tip)) :
    (∀ pointers, (∀ pointer ∈ pointers, db.Points pointer) →
      ∃ data, hydratePointers env pointers = .ok data ∧
        List.Forall₂ (fun pointer d => chain.txData? pointer = some d) pointers data) ∧
    (∀ (q : PagedQuery) limit offset rows, q.page db limit offset = .ok rows →
      ∃ data, hydratePointers env (q.pointers rows) = .ok data ∧
        List.Forall₂ (fun pointer d => chain.txData? pointer = some d) (q.pointers rows) data) ∧
    (∀ (env : RethEnv) (store : NodeStore), env.Replays store → ∀ pointers,
      (∃ report, hydratePointers env pointers = .error report) ↔
        ∃ pointer ∈ pointers, ¬ store.Has pointer) := by
  obtain ⟨hreference, hexecuted⟩ := reference_of_reachable hw hdb
  have hnext : db.next ≤ tip + 1 := hexecuted.trans (Nat.succ_le_succ htip)
  exact ⟨fun pointers => hydratePointers_of_reference hreference hnext henv,
    fun q limit offset rows hpage => hydratePointers_of_reference hreference hnext henv
      (PagedQuery.points_of_page hpage),
    fun env store henv pointers => hydratePointers_eq_error_iff henv⟩

/-- After the commits of the blocks `0` and `1` their pointers hydrate on a node that is further,
one of them twice. -/
theorem no_dangling_pointer_repeated :
    ∃ (w : World) (db : Db), (exexSystem steadyNetwork (· = File.empty)).run (freshWorld 1)
        (startActions 2 ++ bodyActions ++ bodyActions) = some w ∧ w.file = db.toFile ∧
      ∃ data, hydratePointers (steadyChain.env 3) [⟨1, 0⟩, ⟨0, 0⟩, ⟨1, 0⟩] = .ok data ∧
        data.map (fun d => (d.blockNumber, d.tx.hash, d.gasUsed)) =
          [(1, 1, 21000), (0, 0, 21000), (1, 1, 21000)] := by
  have hrun : ((exexSystem steadyNetwork (· = File.empty)).run (freshWorld 1)
      (startActions 2 ++ bodyActions ++ bodyActions)).bind (fun w => w.file.toDb.map fun db =>
        (w.tip, addressPointers db (addrHex 1))) = some (1, [⟨1, 0⟩, ⟨0, 0⟩]) := by
    decide +kernel
  obtain ⟨w, db, hw, hreach, hdb, hrun⟩ := exists_index_of_run (by decide) hrun
  obtain ⟨htip, hfeed⟩ := Prod.mk.inj hrun
  have hpoints : ∀ pointer ∈ [(⟨1, 0⟩ : TxPointer), ⟨0, 0⟩, ⟨1, 0⟩], db.Points pointer := by
    intro pointer hmem
    refine (PagedQuery.addressTxs (addrHex 1)).points_of_feed db pointer ?_
    show pointer ∈ addressPointers db (addrHex 1)
    rw [hfeed]
    exact (by decide : [(⟨1, 0⟩ : TxPointer), ⟨0, 0⟩, ⟨1, 0⟩] ⊆ [⟨1, 0⟩, ⟨0, 0⟩]) hmem
  obtain ⟨data, hdata, hall⟩ := (no_dangling_pointer hreach hdb (show w.tip ≤ 3 by omega)
    (steadyChain.replays_env 3)).1 _ hpoints
  exact ⟨w, db, hw, hdb, data, hdata, Fetch.map_of_forall₂ hall (by decide)⟩

end ExplorerIndexer
