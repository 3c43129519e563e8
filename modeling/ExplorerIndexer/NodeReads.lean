import ExplorerIndexer.Reference
import ExplorerIndexer.Library.Fetch

/-!
# Reads from the node

The index stores positions only; transactions are read back from the node when a page is served.
`hydratePointers` replays each block a page points into once, `latestTxsPage` pages through the
node's own transaction numbers. `RethEnv` is the part of the node's database handle the two use, and
a node error is the text of its report.

`NodeReader::read` runs these closures on a blocking pool, one permit each. Here they are functions
of the handle.

## Main definitions

* `RethEnv` — the reads of the node
* `ownGasUsed`, `hydratePointers`, `descPageBounds`, `latestTxsPage` — the functions of the source
* `NodeStore.txData?` — what the node has at a pointer
* `NodeChain.txData?` — the transaction of a chain at a pointer, with the gas it used itself

## Main results

* `hydratePointers_eq_ok_iff`, `hydratePointers_eq_error_iff` — a list of pointers hydrates, one
  entry for each pointer in order, exactly when the node has what each of them names
* `latestTxsPage_eq` — a page of transaction numbers is a page of the chain's transactions, newest
  first
-/

namespace ExplorerIndexer

/-! ### The handle -/

/-- The text of an error report. -/
abbrev Report := String

/-- A transaction as a range read returns it, with its position. -/
structure TxEntry where
  blockNumber : ℕ
  index : ℕ
  timestamp : ℕ
  sender : Address
  transaction : TransactionSigned
  deriving DecidableEq, Repr

/-- The position of an entry. -/
def TxEntry.pointer (entry : TxEntry) : TxPointer := ⟨entry.blockNumber, entry.index⟩

/-- The position of a mined transaction, with what its block says of it. -/
structure TransactionMeta where
  blockNumber : ℕ
  index : ℕ
  baseFee : Option ℕ
  timestamp : ℕ
  deriving DecidableEq, Repr

/-- What a contract call fails with: a revert on chain, or an internal fault with its message. -/
inductive EvmReadError where
  | revert
  | internal (message : String)
  deriving DecidableEq, Repr

/-- The reads of the node. -/
structure RethEnv where
  /-- The executed block at a height, with its receipts, as a chain; `none` without the block. -/
  replayBlockAsChain : ℕ → Except Report (Option (List (RecoveredBlock × List Receipt)))
  totalTransactions : Except Report ℕ
  /-- The transactions with numbers `low ..= high`. -/
  transactionsByTxRangeWithMeta : ℕ → ℕ → Except Report (List TxEntry)
  receiptsByBlock : ℕ → Except Report (Option (List Receipt))
  sealedHeaderByNumber : ℕ → Except Report (Option ExecHeader)
  /-- A mined transaction by its hash, with its sender. -/
  transactionByHashWithMeta :
    B256 → Except Report (Option (Address × TransactionSigned × TransactionMeta))
  /-- The receipt of a mined transaction, with the gas it used itself. -/
  receiptByHashWithGasUsed : B256 → Except Report (Option (Receipt × ℕ))
  /-- A call of a contract at the canonical tip. -/
  readContract : Address → Bytes → Except EvmReadError Bytes

/-- Everything needed to render one mined transaction. -/
structure TxData where
  sender : Address
  tx : TransactionSigned
  success : Bool
  /-- Gas used by this transaction alone. -/
  gasUsed : ℕ
  blockNumber : ℕ
  txIndex : ℕ
  baseFee : Option ℕ
  timestamp : ℕ
  deriving DecidableEq, Repr

/-! ### Pure helpers -/

/-- `checked_sub`. -/
def checkedSub (a b : ℕ) : Option ℕ := if b ≤ a then some (a - b) else none

/-- `checked_mul` on 64-bit numbers. -/
def checkedMul (a b : ℕ) : Option ℕ := if a * b < 2 ^ 64 then some (a * b) else none

/-- Gas used by the receipt at `index` alone: the difference to the previous receipt. -/
def ownGasUsed (receipts : List Receipt) (index : ℕ) : ℕ :=
  let cumulative := (receipts[index]?.map Receipt.cumulativeGasUsed).getD 0
  match (checkedSub index 1).bind fun prev => receipts[prev]? with
  | some prev => cumulative - prev.cumulativeGasUsed
  | none => cumulative

/-- The blocks a list of pointers names, in first-seen order. -/
def distinctBlocks (pointers : List TxPointer) : List ℕ :=
  pointers.foldl
    (fun out pointer => if pointer.blockNumber ∈ out then out else out ++ [pointer.blockNumber]) []

/-- `-` on unsigned numbers, which panics below zero. -/
def rawSub (a b : ℕ) : Except Report ℕ :=
  Fetch.okOr (checkedSub a b) "attempt to subtract with overflow"

/-- Inclusive bounds of a descending page of `total` items; `none` past the end. The lower bound
saturates at `0`. -/
def descPageBounds (total page perPage : ℕ) : Except Report (Option (ℕ × ℕ)) := do
  match checkedMul page perPage with
  | none => return none
  | some skip =>
    if total ≤ skip then
      return none
    let high ← rawSub (← rawSub total 1) skip
    let low := high - (perPage - 1)
    return some (low, high)

/-- **The bounds of a descending page**: no operation leaves the range, and there are none exactly
past the end. -/
theorem descPageBounds_eq {total : ℕ} (htotal : total < 2 ^ 64) (page perPage : ℕ) :
    descPageBounds total page perPage = .ok (if total ≤ page * perPage then none
      else some (total - 1 - page * perPage - (perPage - 1), total - 1 - page * perPage)) := by
  rw [descPageBounds, checkedMul]
  by_cases hbound : page * perPage < 2 ^ 64
  · rw [if_pos hbound]
    by_cases hpast : total ≤ page * perPage
    · simp only [if_pos hpast]
      rfl
    · have hone : rawSub total 1 = .ok (total - 1) := by
        rw [rawSub, checkedSub, if_pos (by omega), Fetch.okOr_some]
      have hskip : rawSub (total - 1) (page * perPage) = .ok (total - 1 - page * perPage) := by
        rw [rawSub, checkedSub, if_pos (by omega), Fetch.okOr_some]
      simp only [if_neg hpast, hone, bind, Except.bind, hskip]
      rfl
  · rw [if_neg hbound, if_pos (by omega)]
    rfl

/-! ### Hydration -/

/-- One block of `hydratePointers`: replay it, and take the only entry of the chain. -/
def replayBlock (env : RethEnv) (number : ℕ) : Except Report (RecoveredBlock × List Receipt) := do
  let chain ← Fetch.okOr (← env.replayBlockAsChain number)
    s!"dangling index pointer: block {number} not in node DB"
  Fetch.okOr chain.head? s!"replayed chain for block {number} is empty"

/-- One pointer of `hydratePointers`, among the replayed blocks. -/
def hydratePointer (blocks : List (ℕ × RecoveredBlock × List Receipt)) (pointer : TxPointer) :
    Except Report TxData := do
  let number := pointer.blockNumber
  let index := pointer.txIndex
  let (block, receipts) ← Fetch.okOr (Fetch.find blocks number)
    s!"block context missing for {number}"
  let (sender, tx) ← Fetch.okOr block.transactionsWithSender[index]?
    s!"dangling index pointer: tx {index} missing in block {number}"
  let receipt ← Fetch.okOr receipts[index]?
    s!"dangling index pointer: receipt {index} missing in block {number}"
  return {
    sender, tx
    success := receipt.success
    gasUsed := ownGasUsed receipts index
    blockNumber := number
    txIndex := index
    baseFee := block.header.baseFeePerGas
    timestamp := block.header.timestamp }

/-- Hydrate index pointers into transactions, in the order of the pointers. -/
def hydratePointers (env : RethEnv) (pointers : List TxPointer) : Except Report (List TxData) := do
  if pointers.isEmpty then
    return []
  let blocks ← (distinctBlocks pointers).mapM fun number =>
    (replayBlock env number).map fun entry => (number, entry)
  pointers.mapM (hydratePointer blocks)

/-! ### The chain-wide feed -/

/-- The receipts and the base fee of one block of the feed. -/
def blockContext (env : RethEnv) (number : ℕ) : Except Report (List Receipt × Option ℕ) := do
  let receipts ← Fetch.okOr (← env.receiptsByBlock number) s!"receipts missing for block {number}"
  let header ← Fetch.okOr (← env.sealedHeaderByNumber number) s!"header missing for block {number}"
  return (receipts, header.baseFeePerGas)

/-- One entry of the feed, among the contexts of its blocks. -/
def latestTx (blocks : List (ℕ × List Receipt × Option ℕ)) (entry : TxEntry) :
    Except Report TxData := do
  let number := entry.blockNumber
  let index := entry.index
  let (receipts, baseFee) ← Fetch.okOr (Fetch.find blocks number)
    s!"block context missing for {number}"
  let receipt ← Fetch.okOr receipts[index]? s!"receipt {index} missing in block {number}"
  return {
    sender := entry.sender
    tx := entry.transaction
    success := receipt.success
    gasUsed := ownGasUsed receipts index
    blockNumber := number
    txIndex := index
    baseFee
    timestamp := entry.timestamp }

/-- One newest-first page of the chain-wide feed and its total, by arithmetic on transaction
numbers. The range is ascending; it is served backwards. -/
def latestTxsPage (env : RethEnv) (page perPage : ℕ) : Except Report (List TxData × ℕ) := do
  let total ← env.totalTransactions
  match ← descPageBounds total page perPage with
  | none => return ([], total)
  | some (low, high) =>
    let entries ← env.transactionsByTxRangeWithMeta low high
    let blocks ← (entries.map TxEntry.blockNumber).foldlM
      (Fetch.insertVacant (blockContext env)) []
    let out ← entries.reverse.mapM (latestTx blocks)
    return (out, total)

/-- A mined transaction by hash; `none` when the node does not know it, or not its receipt. -/
def txByHash (env : RethEnv) (hash : B256) : Except Report (Option TxData) := do
  match ← env.transactionByHashWithMeta hash with
  | none => return none
  | some (sender, tx, position) =>
    match ← env.receiptByHashWithGasUsed hash with
    | none => return none
    | some (receipt, gasUsed) =>
      return some {
        sender, tx
        success := receipt.success
        gasUsed
        blockNumber := position.blockNumber
        txIndex := position.index
        baseFee := position.baseFee
        timestamp := position.timestamp }

/-! ### What the node has -/

/-- The blocks the node has, with their receipts. -/
def NodeStore := ℕ → Option (RecoveredBlock × List Receipt)

/-- The block, the transaction and the receipt that a pointer names are there. -/
def NodeStore.Has (store : NodeStore) (pointer : TxPointer) : Prop :=
  ∃ block receipts, store pointer.blockNumber = some (block, receipts) ∧
    pointer.txIndex < block.transactionsWithSender.length ∧ pointer.txIndex < receipts.length

/-- The transaction that a pointer names, as the reads return it. -/
def NodeStore.txData? (store : NodeStore) (pointer : TxPointer) : Option TxData := do
  let (block, receipts) ← store pointer.blockNumber
  let (sender, tx) ← block.transactionsWithSender[pointer.txIndex]?
  let receipt ← receipts[pointer.txIndex]?
  return {
    sender, tx
    success := receipt.success
    gasUsed := ownGasUsed receipts pointer.txIndex
    blockNumber := pointer.blockNumber
    txIndex := pointer.txIndex
    baseFee := block.header.baseFeePerGas
    timestamp := block.header.timestamp }

theorem NodeStore.has_iff {store : NodeStore} {pointer : TxPointer} :
    store.Has pointer ↔ ∃ data, store.txData? pointer = some data := by
  constructor
  · rintro ⟨block, receipts, hstore, htx, hreceipt⟩
    exact ⟨_, by
      simp only [txData?, hstore, Option.bind_eq_bind, Option.bind_some,
        List.getElem?_eq_getElem htx, List.getElem?_eq_getElem hreceipt]; rfl⟩
  · rintro ⟨data, hdata⟩
    obtain ⟨⟨block, receipts⟩, hstore, hdata⟩ := Option.bind_eq_some_iff.mp hdata
    obtain ⟨⟨sender, tx⟩, htx, hdata⟩ := Option.bind_eq_some_iff.mp hdata
    obtain ⟨receipt, hreceipt, -⟩ := Option.bind_eq_some_iff.mp hdata
    exact ⟨block, receipts, hstore, (List.getElem?_eq_some_iff.mp htx).1,
      (List.getElem?_eq_some_iff.mp hreceipt).1⟩

/-- A replay of a block yields the block and the receipts that the node has, and nothing else. -/
def RethEnv.Replays (env : RethEnv) (store : NodeStore) : Prop :=
  ∀ n, env.replayBlockAsChain n = .ok ((store n).map fun entry => [entry])

section Hydrate

variable {env : RethEnv} {store : NodeStore} {pointers : List TxPointer} {data : List TxData}

theorem mem_distinctBlocks {n : ℕ} :
    n ∈ distinctBlocks pointers ↔ ∃ pointer ∈ pointers, pointer.blockNumber = n := by
  suffices h : ∀ out : List ℕ, n ∈ pointers.foldl (fun out pointer =>
      if pointer.blockNumber ∈ out then out else out ++ [pointer.blockNumber]) out ↔
      n ∈ out ∨ ∃ pointer ∈ pointers, pointer.blockNumber = n by
    simpa [distinctBlocks] using h []
  induction pointers with
  | nil => simp
  | cons pointer pointers ih =>
    intro out
    rw [List.foldl_cons, ih]
    split <;> grind

theorem replayBlock_eq_ok_iff (henv : env.Replays store) {n : ℕ}
    {entry : RecoveredBlock × List Receipt} :
    replayBlock env n = .ok entry ↔ store n = some entry := by
  rw [replayBlock, henv n]
  cases store n <;> simp [Fetch.bind_eq_ok_iff, Fetch.okOr_eq_ok_iff]

/-- A pointer hydrates among the replayed blocks as it does in the node. -/
theorem hydratePointer_eq_ok_iff {blocks : List (ℕ × RecoveredBlock × List Receipt)}
    {pointer : TxPointer}
    (hfind : Fetch.find blocks pointer.blockNumber = store pointer.blockNumber) {d : TxData} :
    hydratePointer blocks pointer = .ok d ↔ store.txData? pointer = some d := by
  simp only [hydratePointer, NodeStore.txData?, hfind]
  cases store pointer.blockNumber with
  | none => simp [bind, Except.bind]
  | some entry =>
    cases htx : entry.1.transactionsWithSender[pointer.txIndex]? with
    | none => simp [bind, Except.bind, htx]
    | some transaction =>
      cases hreceipt : entry.2[pointer.txIndex]? with
      | none => simp [bind, Except.bind, htx, hreceipt]
      | some receipt => simp [bind, Except.bind, pure, Except.pure, htx, hreceipt]

/-- **A list of pointers hydrates when the node has each of them**: one entry for each pointer, in
their order, each the transaction its pointer names. -/
theorem hydratePointers_eq_ok_iff (henv : env.Replays store) :
    hydratePointers env pointers = .ok data ↔
      List.Forall₂ (fun pointer d => store.txData? pointer = some d) pointers data := by
  -- the replays succeed when the node has the blocks, and then the map agrees with the node
  have hblocks : ∀ {blocks}, (distinctBlocks pointers).mapM (fun number =>
      (replayBlock env number).map fun entry => (number, entry)) = .ok blocks →
      ∀ pointer ∈ pointers,
        Fetch.find blocks pointer.blockNumber = store pointer.blockNumber := by
    intro blocks hrun pointer hpointer
    obtain ⟨entry, hreplay, hfind⟩ :=
      Fetch.find_of_mapM hrun (mem_distinctBlocks.mpr ⟨pointer, hpointer, rfl⟩)
    rw [hfind, (replayBlock_eq_ok_iff henv).mp hreplay]
  cases pointers with
  | nil =>
    rw [List.forall₂_nil_left_iff]
    simp [hydratePointers, pure, Except.pure, eq_comm]
  | cons pointer pointers =>
    simp only [hydratePointers, List.isEmpty_cons, Bool.false_eq_true, if_false,
      Fetch.bind_eq_ok_iff]
    constructor
    · rintro ⟨blocks, hrun, hdata⟩
      refine (Fetch.forall₂_congr_left fun p hp d => ?_).mp (Fetch.mapM_eq_ok_iff.mp hdata)
      exact hydratePointer_eq_ok_iff (hblocks hrun p hp)
    · intro hdata
      obtain ⟨blocks, hrun⟩ : ∃ blocks, (distinctBlocks (pointer :: pointers)).mapM (fun number =>
          (replayBlock env number).map fun entry => (number, entry)) = .ok blocks := by
        simp only [Fetch.mapM_eq_ok_iff, Fetch.exists_forall₂_iff]
        intro number hnumber
        obtain ⟨p, hp, rfl⟩ := mem_distinctBlocks.mp hnumber
        obtain ⟨d, hd⟩ := Fetch.exists_forall₂_iff.mp ⟨data, hdata⟩ p hp
        obtain ⟨block, receipts, hstore, -⟩ := NodeStore.has_iff.mpr ⟨d, hd⟩
        rw [(replayBlock_eq_ok_iff henv).mpr hstore]
        exact ⟨_, rfl⟩
      refine ⟨blocks, hrun, Fetch.mapM_eq_ok_iff.mpr ?_⟩
      refine (Fetch.forall₂_congr_left fun p hp d => ?_).mpr hdata
      exact hydratePointer_eq_ok_iff (hblocks hrun p hp)

/-- **A list of pointers fails when the node lacks what one of them names.** -/
theorem hydratePointers_eq_error_iff (henv : env.Replays store) :
    (∃ report, hydratePointers env pointers = .error report) ↔
      ∃ pointer ∈ pointers, ¬ store.Has pointer := by
  rw [Fetch.exists_error_iff]
  simp only [hydratePointers_eq_ok_iff henv, Fetch.exists_forall₂_iff, NodeStore.has_iff,
    not_forall, exists_prop]

end Hydrate

/-! ### The transactions of a chain -/

namespace NodeChain

variable (chain : NodeChain)

/-- The transaction of a chain at a position, with its own receipt and the gas it used itself. -/
def txData? (pointer : TxPointer) : Option TxData := do
  let (sender, tx) ← chain.tx? pointer.blockNumber pointer.txIndex
  let receipt ← chain.receipt? pointer.blockNumber pointer.txIndex
  let gasUsed ← (chain.gasUsed pointer.blockNumber)[pointer.txIndex]?
  return {
    sender, tx
    success := receipt.success
    gasUsed
    blockNumber := pointer.blockNumber
    txIndex := pointer.txIndex
    baseFee := (chain.block pointer.blockNumber).header.baseFeePerGas
    timestamp := (chain.block pointer.blockNumber).header.timestamp }

/-- What a node has that has executed the blocks up to `tip`. -/
def store (tip : ℕ) : NodeStore := fun n =>
  if n ≤ tip then some (chain.block n, chain.receipts n) else none

variable {chain}

/-- The difference of the cumulative gas is what the transaction used. -/
theorem ownGasUsed_eq {n i gas : ℕ} (h : (chain.gasUsed n)[i]? = some gas) :
    ownGasUsed (chain.receipts n) i = gas := by
  have hi : i < (chain.receipts n).length := by
    rw [← chain.length_gasUsed]
    exact (List.getElem?_eq_some_iff.mp h).1
  have hreceipt : (chain.receipts n)[i]? = some (chain.receipts n)[i] := List.getElem?_eq_getElem hi
  have hsum : ((chain.gasUsed n).take (i + 1)).foldl (· + ·) 0 =
      ((chain.gasUsed n).take i).foldl (· + ·) 0 + gas := by
    rw [List.take_add_one, h, Option.toList_some, List.foldl_append, List.foldl_cons,
      List.foldl_nil]
  rw [ownGasUsed, hreceipt, Option.map_some, Option.getD_some, chain.cumulative n i _ hreceipt,
    hsum]
  cases i with
  | zero => simp [checkedSub]
  | succ i =>
    have hprev : (chain.receipts n)[i]? = some (chain.receipts n)[i] :=
      List.getElem?_eq_getElem (by omega)
    simp [checkedSub, hprev, chain.cumulative n i _ hprev]

theorem exists_txData? {n i : ℕ} {entry : Address × TransactionSigned}
    (h : chain.tx? n i = some entry) : ∃ receipt gas, chain.receipt? n i = some receipt ∧
      (chain.gasUsed n)[i]? = some gas ∧ ownGasUsed (chain.receipts n) i = gas := by
  have hi := (List.getElem?_eq_some_iff.mp h).1
  have hreceipt : i < (chain.receipts n).length := by rwa [chain.length_receipts]
  have hgas : i < (chain.gasUsed n).length := by rwa [chain.length_gasUsed]
  exact ⟨_, _, List.getElem?_eq_getElem hreceipt, List.getElem?_eq_getElem hgas,
    ownGasUsed_eq (List.getElem?_eq_getElem hgas)⟩

/-- The node reads the transactions of the chain. -/
theorem txData?_store {tip : ℕ} {pointer : TxPointer} (h : pointer.blockNumber ≤ tip) :
    (chain.store tip).txData? pointer = chain.txData? pointer := by
  simp only [NodeStore.txData?, store, if_pos h, txData?]
  cases htx : chain.tx? pointer.blockNumber pointer.txIndex with
  | none => simp [show (chain.block pointer.blockNumber).transactionsWithSender[pointer.txIndex]? =
      none from htx]
  | some entry =>
    obtain ⟨receipt, gas, hreceipt, hgas, hown⟩ := exists_txData? htx
    simp only [hreceipt, hgas, hown, Option.bind_eq_bind, Option.bind_some,
      show (chain.block pointer.blockNumber).transactionsWithSender[pointer.txIndex]? =
        some entry from htx,
      show (chain.receipts pointer.blockNumber)[pointer.txIndex]? = some receipt from hreceipt]

theorem has_store {tip n i : ℕ} {entry : Address × TransactionSigned} (h : n ≤ tip)
    (htx : chain.tx? n i = some entry) : (chain.store tip).Has ⟨n, i⟩ := by
  have hi := (List.getElem?_eq_some_iff.mp htx).1
  exact ⟨_, _, if_pos h, hi, by rwa [chain.length_receipts]⟩

/-! ### Transaction numbers -/

variable (chain)

/-- The transactions of one block, in order. -/
def blockEntries (n : ℕ) : List TxEntry :=
  (chain.block n).transactionsWithSender.zipIdx.map fun e =>
    ⟨n, e.2, (chain.block n).header.timestamp, e.1.1, e.1.2⟩

/-- The transactions of the blocks up to `tip`, by number. -/
def entries (tip : ℕ) : List TxEntry := (List.range (tip + 1)).flatMap chain.blockEntries

/-- The positions of the transactions of the blocks up to `tip`, newest first. -/
def latestPointers (tip : ℕ) : List TxPointer := (chain.entries tip).reverse.map TxEntry.pointer

variable {chain}

theorem mem_entries {tip : ℕ} {entry : TxEntry} : entry ∈ chain.entries tip ↔
    entry.blockNumber ≤ tip ∧
      chain.tx? entry.blockNumber entry.index = some (entry.sender, entry.transaction) ∧
      entry.timestamp = (chain.block entry.blockNumber).header.timestamp := by
  simp only [entries, blockEntries, List.mem_flatMap, List.mem_range, Nat.lt_succ_iff, List.mem_map,
    List.mem_zipIdx_iff_getElem?]
  constructor
  · rintro ⟨n, hn, ⟨⟨sender, tx⟩, i⟩, htx, rfl⟩
    exact ⟨hn, htx, rfl⟩
  · rintro ⟨hn, htx, htimestamp⟩
    refine ⟨entry.blockNumber, hn, ((entry.sender, entry.transaction), entry.index), htx, ?_⟩
    rw [← htimestamp]

/-- Every position of the feed has its transaction. -/
theorem exists_latestFeed (chain : NodeChain) (tip : ℕ) : ∃ feed : List TxData,
    List.Forall₂ (fun pointer d => chain.txData? pointer = some d) (chain.latestPointers tip)
      feed := by
  rw [Fetch.exists_forall₂_iff]
  intro pointer hpointer
  obtain ⟨entry, hentry, rfl⟩ := List.mem_map.mp hpointer
  obtain ⟨hn, htx, -⟩ := mem_entries.mp (List.mem_reverse.mp hentry)
  obtain ⟨d, hd⟩ := NodeStore.has_iff.mp (has_store hn htx)
  rw [txData?_store hn] at hd
  exact ⟨d, hd⟩

end NodeChain

/-- The reads of a node that has executed the blocks up to `tip`: transactions are numbered in the
order of the blocks and of their positions. -/
structure RethEnv.Serves (env : RethEnv) (chain : NodeChain) (tip : ℕ) : Prop where
  replays : env.Replays (chain.store tip)
  total : env.totalTransactions = .ok (chain.entries tip).length
  /-- Transaction numbers are 64-bit. -/
  total_lt : (chain.entries tip).length < 2 ^ 64
  range : ∀ low high, low ≤ high → high < (chain.entries tip).length →
    env.transactionsByTxRangeWithMeta low high =
      .ok (Page.slice (high + 1 - low) low (chain.entries tip))
  receipts : ∀ n ≤ tip, env.receiptsByBlock n = .ok (some (chain.receipts n))
  header : ∀ n ≤ tip, env.sealedHeaderByNumber n = .ok (some (chain.block n).header)

section Latest

variable {env : RethEnv} {chain : NodeChain} {tip : ℕ}

theorem blockContext_eq (henv : env.Serves chain tip) {n : ℕ} (hn : n ≤ tip) :
    blockContext env n = .ok (chain.receipts n, (chain.block n).header.baseFeePerGas) := by
  rw [blockContext, henv.receipts n hn, henv.header n hn]
  rfl

/-- The contexts of the blocks on a page. -/
theorem exists_blockContexts (henv : env.Serves chain tip) {entries : List TxEntry}
    (hentries : ∀ entry ∈ entries, entry ∈ chain.entries tip) : ∃ blocks,
      (entries.map TxEntry.blockNumber).foldlM (Fetch.insertVacant (blockContext env)) [] =
        .ok blocks ∧
      ∀ entry ∈ entries, Fetch.find blocks entry.blockNumber =
        some (chain.receipts entry.blockNumber,
          (chain.block entry.blockNumber).header.baseFeePerGas) := by
  have hread : ∀ n ∈ entries.map TxEntry.blockNumber, blockContext env n =
      .ok (chain.receipts n, (chain.block n).header.baseFeePerGas) := fun n hn => by
    obtain ⟨entry, hentry, rfl⟩ := List.mem_map.mp hn
    exact blockContext_eq henv (NodeChain.mem_entries.mp (hentries entry hentry)).1
  obtain ⟨blocks, hblocks, -, hfind⟩ :=
    Fetch.foldlM_insertVacant (m := []) hread fun k a h => by cases h
  exact ⟨blocks, hblocks, fun entry hentry => hfind _ (Or.inl (List.mem_map_of_mem hentry))⟩

/-- An entry of the feed and the pointer to it give the same transaction. -/
theorem latestTx_eq_ok_iff {blocks : List (ℕ × List Receipt × Option ℕ)} {entry : TxEntry}
    (hentry : entry ∈ chain.entries tip)
    (hfind : Fetch.find blocks entry.blockNumber = some (chain.receipts entry.blockNumber,
      (chain.block entry.blockNumber).header.baseFeePerGas)) {d : TxData} :
    latestTx blocks entry = .ok d ↔ chain.txData? entry.pointer = some d := by
  obtain ⟨hn, htx, htimestamp⟩ := NodeChain.mem_entries.mp hentry
  obtain ⟨receipt, gas, hreceipt, hgas, hown⟩ := NodeChain.exists_txData? htx
  have hreceipt' : (chain.receipts entry.blockNumber)[entry.index]? = some receipt := hreceipt
  simp only [latestTx, NodeChain.txData?, TxEntry.pointer, hfind, htx, hreceipt, hgas, htimestamp]
  simp [bind, Except.bind, pure, Except.pure, hreceipt', hown]

/-- **A page of transaction numbers is a page of the chain's transactions, newest first.** -/
theorem latestTxsPage_eq (henv : env.Serves chain tip) {page perPage : ℕ} (hpos : 0 < perPage)
    {feed : List TxData}
    (hfeed : List.Forall₂ (fun pointer d => chain.txData? pointer = some d)
      (chain.latestPointers tip) feed) :
    latestTxsPage env page perPage =
      .ok (Page.slice perPage (page * perPage) feed, feed.length) := by
  have hlength : (chain.entries tip).length = feed.length := by
    rw [← hfeed.length_eq, NodeChain.latestPointers, List.length_map, List.length_reverse]
  rw [latestTxsPage, Fetch.bind_eq_ok_iff]
  refine ⟨_, henv.total, Fetch.bind_eq_ok_iff.mpr ⟨_, descPageBounds_eq henv.total_lt _ _, ?_⟩⟩
  rw [hlength]
  by_cases hpast : feed.length ≤ page * perPage
  · rw [if_pos hpast, Page.slice_eq_nil hpast]
    rfl
  · rw [if_neg hpast]
    set high := feed.length - 1 - page * perPage with hhigh
    set low := high - (perPage - 1) with hlow
    have hread := henv.range low high (by omega) (by omega)
    have hslice : (Page.slice (high + 1 - low) low (chain.entries tip)).reverse =
        Page.slice perPage (page * perPage) (chain.entries tip).reverse :=
      (Page.slice_reverse hpos (by omega) hlow).symm
    have hmem : ∀ entry ∈ Page.slice (high + 1 - low) low (chain.entries tip),
        entry ∈ chain.entries tip := fun entry => Page.mem_of_mem_slice
    obtain ⟨blocks, hblocks, hfind⟩ := exists_blockContexts henv hmem
    refine Fetch.bind_eq_ok_iff.mpr ⟨_, hread, Fetch.bind_eq_ok_iff.mpr ⟨blocks, hblocks, ?_⟩⟩
    refine Fetch.bind_eq_ok_iff.mpr ⟨_, Fetch.mapM_eq_ok_iff.mpr ?_, rfl⟩
    rw [Fetch.forall₂_congr_left fun entry hentry d => ?_, hslice]
    · exact Page.forall₂_slice (List.forall₂_map_left_iff.mp hfeed) perPage (page * perPage)
    · have hentry := List.mem_reverse.mp hentry
      exact latestTx_eq_ok_iff (hmem entry hentry) (hfind entry hentry)

end Latest

/-! ### A node to evaluate on -/

/-- A node that answers from the chain. No contract call succeeds on it. -/
def NodeChain.env (chain : NodeChain) (tip : ℕ) : RethEnv where
  replayBlockAsChain n := .ok ((chain.store tip n).map fun entry => [entry])
  totalTransactions := .ok (chain.entries tip).length
  transactionsByTxRangeWithMeta low high :=
    .ok (Page.slice (high + 1 - low) low (chain.entries tip))
  receiptsByBlock n := .ok ((chain.store tip n).map Prod.snd)
  sealedHeaderByNumber n := .ok ((chain.store tip n).map fun entry => entry.1.header)
  transactionByHashWithMeta hash := .ok <|
    ((chain.entries tip).find? (·.transaction.hash = hash)).map fun entry =>
      (entry.sender, entry.transaction, ⟨entry.blockNumber, entry.index,
        (chain.block entry.blockNumber).header.baseFeePerGas, entry.timestamp⟩)
  receiptByHashWithGasUsed hash := .ok <| do
    let entry ← (chain.entries tip).find? (·.transaction.hash = hash)
    let receipt ← chain.receipt? entry.blockNumber entry.index
    let gasUsed ← (chain.gasUsed entry.blockNumber)[entry.index]?
    return (receipt, gasUsed)
  readContract _ _ := .error .revert

theorem NodeChain.replays_env (chain : NodeChain) (tip : ℕ) :
    (chain.env tip).Replays (chain.store tip) := fun _ => rfl

theorem NodeChain.serves_env (chain : NodeChain) (tip : ℕ)
    (h : (chain.entries tip).length < 2 ^ 64) : (chain.env tip).Serves chain tip where
  replays := chain.replays_env tip
  total := rfl
  total_lt := h
  range _ _ _ _ := rfl
  receipts n hn := by simp only [env, store, if_pos hn, Option.map_some]
  header n hn := by simp only [env, store, if_pos hn, Option.map_some]

end ExplorerIndexer
