import ExplorerIndexer.Walks

/-!
# Following the links of a transaction

Every list shows transactions by their hashes: the rows of the transaction lists, the transfers, and
the bodies of blocks. Each hash is a link to `/txs/{hash}`. Four reads of the node are behind these:
the lists replay blocks or page by transaction numbers and take the gas as a difference, a block is
read whole, and the detail is looked up by hash, with the gas of its receipt.

A link is followed later than its list is read. In between the node executes blocks, the loop
commits them, and the process may be killed and restarted.

## Main definitions

* `buildApiTransaction` — a transaction in wire form: a list cuts the input to its selector
* `RethEnv.Finds` — what a node finds by hash

## Main results

* `row_buildApiTransaction` — the row of a list is the detail with its input cut
* `transaction_links` — every link resolves, to what the list showed
-/

namespace ExplorerIndexer

/-! ### The wire form -/

/-- Which input a response carries. -/
inductive InputMode where
  /-- `"0x"`, or the selector. -/
  | list
  /-- The full calldata. -/
  | detail
  deriving DecidableEq, Repr

/-- Lowercase `0x` hex for arbitrary bytes. -/
def hexBytes (bytes : Bytes) : String :=
  String.ofList ('0' :: 'x' :: bytes.flatMap fun b => Numeral.hexDigits 2 b.toNat)

/-- The selector of calldata; `none` below four bytes. -/
def selectorHex (input : Bytes) : Option String :=
  if 4 ≤ input.length then some (hexBytes (input.take 4)) else none

/-- What the wire form reads of a transaction and the index does not. -/
structure TxAccess where
  input : TransactionSigned → Bytes
  /-- Below `2 ^ 256`. -/
  value : TransactionSigned → ℕ
  gasLimit : TransactionSigned → ℕ
  /-- At a base fee, below `2 ^ 128`. -/
  effectiveGasPrice : TransactionSigned → Option ℕ → ℕ

/-- A transaction in wire form. The value is also sent as a floating-point number of TEL, and the
decoded input is always `null`; both are left out. -/
structure ApiTransaction where
  hash : String
  fromAddr : String
  toAddr : Option String
  value : ℕ
  gas : ℕ
  gasPrice : ℕ
  gasUsed : ℕ
  status : Option Bool
  input : String
  blockNumber : Option ℕ
  transactionIndex : Option ℕ
  nonce : ℕ
  txType : ℕ
  txTypeName : String
  tokenTransfers : Option (List ApiTokenTransfer)
  tokenTransferCount : Option ℕ
  deriving DecidableEq, Repr

/-- Map a hydrated transaction to the wire form. The value and the gas price saturate. -/
def buildApiTransaction (access : TxAccess) (data : TxData) (mode : InputMode) : ApiTransaction :=
  let inputBytes := access.input data.tx
  { hash := digestHex data.tx.hash
    fromAddr := addrHex data.sender
    toAddr := data.tx.toAddr.map addrHex
    value := min (access.value data.tx) (2 ^ 128 - 1)
    gas := access.gasLimit data.tx
    gasPrice := min (access.effectiveGasPrice data.tx data.baseFee) (2 ^ 64 - 1)
    gasUsed := data.gasUsed
    status := some data.success
    input := match mode with
      | .detail => hexBytes inputBytes
      | .list => (selectorHex inputBytes).getD "0x"
    blockNumber := some data.blockNumber
    transactionIndex := some data.txIndex
    nonce := data.tx.nonce
    txType := data.tx.ty
    txTypeName := txTypeName data.tx.ty
    tokenTransfers := none
    tokenTransferCount := none }

/-- The body of `/txs/{hash}`. -/
def Api.TxDetail.wire (access : TxAccess) (response : Api.TxDetail) : ApiTransaction :=
  { buildApiTransaction access response.data .detail with
    tokenTransfers := response.tokenTransfers
    tokenTransferCount := response.tokenTransferCount }

/-- Hex text, cut after four bytes. -/
def cutInput (input : String) : String :=
  if 10 ≤ input.toList.length then String.ofList (input.toList.take 10) else "0x"

/-- What a list shows of a detail. -/
def ApiTransaction.row (detail : ApiTransaction) : ApiTransaction :=
  { detail with input := cutInput detail.input, tokenTransfers := none, tokenTransferCount := none }

/-- Entries of one length are taken whole. -/
theorem take_flatMap {α β : Type} {f : α → List β} {k : ℕ} (hf : ∀ a, (f a).length = k)
    (l : List α) (n : ℕ) : (l.flatMap f).take (k * n) = (l.take n).flatMap f := by
  induction n generalizing l with
  | zero => simp
  | succ n ih =>
    cases l with
    | nil => simp
    | cons a l =>
      rw [List.flatMap_cons, List.take_succ_cons, List.flatMap_cons, ← ih, List.take_append, hf,
        List.take_of_length_le (by rw [hf, Nat.mul_succ]; exact Nat.le_add_left _ _),
        Nat.mul_succ, Nat.add_sub_cancel]

theorem length_hexDigits (w n : ℕ) : (Numeral.hexDigits w n).length = w := by
  induction w generalizing n with
  | zero => rfl
  | succ w ih => rw [Numeral.hexDigits, List.length_append, ih, List.length_singleton]

theorem length_hexBytes (bytes : Bytes) :
    (hexBytes bytes).toList.length = 2 + 2 * bytes.length := by
  rw [hexBytes, String.toList_ofList, List.length_cons, List.length_cons, List.length_flatMap,
    funext fun b : UInt8 => length_hexDigits 2 b.toNat, List.map_const', List.sum_replicate_nat]
  omega

/-- **The selector is the calldata, cut.** -/
theorem cutInput_hexBytes (input : Bytes) :
    cutInput (hexBytes input) = (selectorHex input).getD "0x" := by
  rw [cutInput, length_hexBytes, selectorHex]
  by_cases h : 4 ≤ input.length
  · have htake := take_flatMap (fun b : UInt8 => length_hexDigits 2 b.toNat) input 4
    rw [if_pos (by omega), if_pos h, Option.getD_some, hexBytes, String.toList_ofList,
      List.take_succ_cons, List.take_succ_cons, htake]
    rfl
  · rw [if_neg (by omega), if_neg h, Option.getD_none]

/-- **A row of a list is the detail, cut.** -/
theorem row_buildApiTransaction (access : TxAccess) (response : Api.TxDetail) :
    (response.wire access).row = buildApiTransaction access response.data .list := by
  simp only [ApiTransaction.row, Api.TxDetail.wire, buildApiTransaction, cutInput_hexBytes]

/-! ### What a hash finds -/

/-- What a node that has executed the blocks up to `tip` finds by the hash of a transaction: the
transaction with its position, its receipt with the gas it used itself, and nothing for a hash that
no transaction has. -/
structure RethEnv.Finds (env : RethEnv) (chain : NodeChain) (tip : ℕ) : Prop where
  transaction : ∀ n ≤ tip, ∀ i sender tx, chain.tx? n i = some (sender, tx) →
    env.transactionByHashWithMeta tx.hash = .ok (some (sender, tx,
      ⟨n, i, (chain.block n).header.baseFeePerGas, (chain.block n).header.timestamp⟩))
  receipt : ∀ n ≤ tip, ∀ i sender tx receipt gas, chain.tx? n i = some (sender, tx) →
    chain.receipt? n i = some receipt → (chain.gasUsed n)[i]? = some gas →
    env.receiptByHashWithGasUsed tx.hash = .ok (some (receipt, gas))
  unknown : ∀ hash, (∀ n ≤ tip, ∀ i sender tx, chain.tx? n i = some (sender, tx) →
    tx.hash ≠ hash) → env.transactionByHashWithMeta hash = .ok none

section Find

variable {chain : NodeChain} {env : RethEnv} {tip : ℕ} {pointer : TxPointer} {data : TxData}

/-- What the data of a position consists of. -/
theorem NodeChain.txData?_eq_some (h : chain.txData? pointer = some data) :
    data.blockNumber = pointer.blockNumber ∧ data.txIndex = pointer.txIndex ∧
      data.timestamp = (chain.block pointer.blockNumber).header.timestamp ∧
      data.baseFee = (chain.block pointer.blockNumber).header.baseFeePerGas ∧
      chain.tx? pointer.blockNumber pointer.txIndex = some (data.sender, data.tx) ∧
      (chain.gasUsed pointer.blockNumber)[pointer.txIndex]? = some data.gasUsed ∧
      ∃ receipt, chain.receipt? pointer.blockNumber pointer.txIndex = some receipt ∧
        data.success = receipt.success := by
  obtain ⟨⟨sender, tx⟩, htx, h⟩ := Option.bind_eq_some_iff.mp h
  obtain ⟨receipt, hreceipt, h⟩ := Option.bind_eq_some_iff.mp h
  obtain ⟨gas, hgas, h⟩ := Option.bind_eq_some_iff.mp h
  cases h
  exact ⟨rfl, rfl, rfl, rfl, htx, hgas, receipt, hreceipt, rfl⟩

/-- What the node has at a pointer is in an executed block. -/
theorem NodeChain.txData?_of_store (h : (chain.store tip).txData? pointer = some data) :
    pointer.blockNumber ≤ tip ∧ chain.txData? pointer = some data := by
  have hle : pointer.blockNumber ≤ tip := by
    by_contra hlt
    obtain ⟨block, hblock, -⟩ := Option.bind_eq_some_iff.mp h
    rw [store, if_neg hlt] at hblock
    cases hblock
  exact ⟨hle, txData?_store hle ▸ h⟩

/-- **A hash finds its transaction**, as the lists hydrate it. -/
theorem txByHash_of_txData (hfinds : env.Finds chain tip) (hle : pointer.blockNumber ≤ tip)
    (h : chain.txData? pointer = some data) : txByHash env data.tx.hash = .ok (some data) := by
  obtain ⟨⟨sender, tx⟩, htx, h⟩ := Option.bind_eq_some_iff.mp h
  obtain ⟨receipt, hreceipt, h⟩ := Option.bind_eq_some_iff.mp h
  obtain ⟨gas, hgas, h⟩ := Option.bind_eq_some_iff.mp h
  cases h
  simp only [txByHash, hfinds.transaction _ hle _ _ _ htx,
    hfinds.receipt _ hle _ _ _ _ _ htx hreceipt hgas, bind, Except.bind]
  rfl

/-- A hash that no transaction has is not found. -/
theorem txByHash_unknown (hfinds : env.Finds chain tip) {hash : B256}
    (h : ∀ n ≤ tip, ∀ i sender tx, chain.tx? n i = some (sender, tx) → tx.hash ≠ hash) :
    txByHash env hash = .ok none := by
  rw [txByHash, hfinds.unknown hash h]
  rfl

variable {hashFromStr : String → Option B256} {views : ℕ → Db}

/-- The detail of a transaction of the chain answers, whatever the status says. -/
theorem detail_of_txData (hfinds : env.Finds chain tip)
    (hhash : ∀ hash, hashFromStr (digestHex hash) = some hash) (hcounts : CountsExact (views 1))
    (hfits : ∀ n ≤ tip, FitsColumns chain.toChain n []) (hle : pointer.blockNumber ≤ tip)
    (h : chain.txData? pointer = some data) (status : IndexerStatus) :
    ∃ response, Api.txByHash hashFromStr env views status (digestHex data.tx.hash) = .ok response ∧
      response.data = data := by
  have hread := liftNode_eq_ok_iff.mpr (txByHash_of_txData hfinds hle h)
  obtain ⟨hn, hi, -, -, htx, -⟩ := NodeChain.txData?_eq_some h
  have hposition : data.blockNumber < 2 ^ 63 ∧ data.txIndex < 2 ^ 63 := by
    have hlt := (List.getElem?_eq_some_iff.mp htx).1
    rw [hn, hi]
    exact ⟨(hfits _ hle).number, hlt.trans (hfits _ hle).transactions⟩
  by_cases hstatus : data.blockNumber ≤ status.lastIndexed.getD 0
  · obtain ⟨⟨items, count⟩, hpage⟩ : ∃ r, txTransferPage views data MAX_PER_PAGE 0 = .ok r :=
      (@txTransferPage_eq views MAX_PER_PAGE 0 data hposition hcounts (by decide)
        (by decide)).elim fun _ h => ⟨_, h.1⟩
    refine ⟨⟨data, some items, some count⟩, ?_, rfl⟩
    simp only [Api.txByHash, parseHash, hhash, Fetch.okOr_some, hread, hpage, if_pos hstatus, bind,
      Except.bind]
    rfl
  · refine ⟨⟨data, none, none⟩, ?_, rfl⟩
    simp only [Api.txByHash, parseHash, hhash, Fetch.okOr_some, hread, if_neg hstatus, bind,
      Except.bind]
    rfl

/-- A receipt has no more transfers than logs. -/
theorem length_txTransfers_lt {chain : Chain} {n : ℕ} (hfits : FitsColumns chain n []) (i : ℕ) :
    (txTransfers n (chain.receipts n) i).length < 2 ^ 63 := by
  rw [txTransfers]
  split
  · decide
  · next receipt hreceipt =>
    have hlogs := hfits.logs receipt (List.mem_of_getElem? hreceipt)
    refine (List.length_filterMap_le _ _).trans_lt ?_
    rwa [List.length_zipIdx]

/-- An indexed transfer is on a page of the list of its transaction, for every page size. -/
theorem txTransfers_of_row {up : Upstream} {next : ℕ} (hfinds : env.Finds chain tip)
    (hhash : ∀ hash, hashFromStr (digestHex hash) = some hash)
    (hreference : Reference up chain.toChain next (views 0)) (hcounts : CountsExact (views 1))
    (hfits : ∀ n ≤ tip, FitsColumns chain.toChain n []) {row : StoredTransfer}
    (hrow : row ∈ (views 0).tokenTransfers.rows) (hnext : row.blockNumber < next)
    (hle : row.blockNumber ≤ tip) (h : chain.txData? row.pointer = some data)
    (perPage : Option ℕ) :
    ∃ page answer, Api.txTransfers hashFromStr env views (digestHex data.tx.hash)
        ⟨some page, perPage⟩ = .ok answer ∧
      ∃ item ∈ answer.items, ∃ token, item = buildTokenTransfer row data token := by
  have hread := liftNode_eq_ok_iff.mpr (txByHash_of_txData hfinds hle h)
  obtain ⟨hn, hi, -, -, htx, -⟩ := NodeChain.txData?_eq_some h
  have hn : data.blockNumber = row.blockNumber := hn
  have hi : data.txIndex = row.txIndex := hi
  have htx : chain.tx? row.blockNumber row.txIndex = some (data.sender, data.tx) := htx
  have hposition : data.blockNumber < 2 ^ 63 ∧ data.txIndex < 2 ^ 63 := by
    have hlt := (List.getElem?_eq_some_iff.mp htx).1
    rw [hn, hi]
    exact ⟨(hfits _ hle).number, hlt.trans (hfits _ hle).transactions⟩
  have hmem : row ∈ txTransferRows (views 0) data.blockNumber data.txIndex := by
    rw [txTransferRows, List.mem_insertionSort, List.mem_filter, hn, hi]
    exact ⟨hrow, decide_eq_true ⟨rfl, rfl⟩⟩
  have hlength : (txTransferRows (views 0) data.blockNumber data.txIndex).length < 2 ^ 63 := by
    rw [hn, hi, txTransferRows_eq hreference hnext (Option.isSome_of_mem htx), List.length_map]
    exact length_txTransfers_lt (hfits _ hle) _
  -- the page of the place at which the row stands
  obtain ⟨j, hj⟩ := List.mem_iff_getElem?.mp hmem
  have hlt := (List.getElem?_eq_some_iff.mp hj).1
  have hpos := clampPerPage_pos perPage
  have hoffset := Nat.div_mul_le_self j (clampPerPage perPage)
  have hend := Nat.lt_div_mul_add hpos (a := j)
  have hbound : j / clampPerPage perPage * clampPerPage perPage < 2 ^ 63 := by omega
  obtain ⟨tokens, hpage, -⟩ := @txTransferPage_eq views (clampPerPage perPage)
    (j / clampPerPage perPage * clampPerPage perPage) data hposition hcounts
    ((clampPerPage_le perPage).trans_lt (by decide)) hbound
  have hslice := Page.mem_slice_of_getElem? hj hoffset hend
  refine ⟨j / clampPerPage perPage, ⟨(Page.slice _ _ _).map fun row =>
    buildTokenTransfer row data (lookupToken tokens row.token),
    (txTransferRows (views 1) data.blockNumber data.txIndex).length, j / clampPerPage perPage,
    clampPerPage perPage⟩, ?_, _, List.mem_map.mpr ⟨row, hslice, rfl⟩, _, rfl⟩
  simp only [Api.txTransfers, parseHash, hhash, Fetch.okOr_some, hread, pageParams,
    Option.getD_some, saturatingMul_eq hbound, hpage, bind, Except.bind]
  rfl

end Find

/-! ### What the lists show -/

/-- A transfer without what the metadata of its token adds. -/
def ApiTokenTransfer.bare (item : ApiTokenTransfer) : ApiTokenTransfer :=
  { item with amount := (item.amount.1, 0), tokenSymbol := none }

section Lists

variable {up : Upstream} {chain : NodeChain} {env : RethEnv} {tip : ℕ} {views : ℕ → Db}
  {addressFromStr : String → Option Address}

/-- An item of a list of the index is a transaction of an executed block. -/
theorem txData?_of_servePointers (henv : env.Replays (chain.store tip)) {query : PageQuery}
    {q : PagedQuery} {answer : Envelope TxData}
    (h : servePointers env views query q = .ok answer) {item : TxData}
    (hitem : item ∈ answer.items) :
    ∃ pointer, pointer.blockNumber ≤ tip ∧ chain.txData? pointer = some item := by
  obtain ⟨read, -, h⟩ := Fetch.bind_eq_ok_iff.mp h
  obtain ⟨items, hitems, h⟩ := Fetch.bind_eq_ok_iff.mp h
  cases h
  have hall := (hydratePointers_eq_ok_iff henv).mp (liftNode_eq_ok_iff.mp hitems)
  obtain ⟨pointer, -, hdata⟩ := Page.exists_row_of_mem hall hitem
  exact ⟨pointer, NodeChain.txData?_of_store hdata⟩

/-- So is an item of any list of transactions. -/
theorem txData?_of_list (henv : env.Serves chain tip) {answer : Envelope TxData}
    (h : (∃ query, Api.txsList env views query = .ok answer) ∨
      ∃ raw query, Api.addressTxs addressFromStr env views raw query = .ok answer)
    {item : TxData} (hitem : item ∈ answer.items) :
    ∃ pointer, pointer.blockNumber ≤ tip ∧ chain.txData? pointer = some item := by
  rcases h with ⟨⟨page, perPage, txType⟩, h⟩ | ⟨raw, query, h⟩
  · cases txType with
    | none =>
      obtain ⟨items, hok, hall⟩ := @txsList_answers env views chain tip henv page perPage
      cases hok.symm.trans h
      obtain ⟨pointer, hpointer, hdata⟩ := Page.exists_row_of_mem hall hitem
      exact ⟨pointer, (NodeChain.mem_latestPointers.mp (Page.mem_of_mem_slice hpointer)).1, hdata⟩
    | some s =>
      obtain ⟨parsed, hparsed, h⟩ := Fetch.bind_eq_ok_iff.mp h
      cases parsed with
      | some t => exact txData?_of_servePointers henv.replays h hitem
      | none =>
        -- a type that is given is parsed, or refused
        simp only [TxsQuery.parsedType] at hparsed
        split at hparsed <;> cases hparsed
  · obtain ⟨address, -, h⟩ := Fetch.bind_eq_ok_iff.mp h
    obtain ⟨parsed, -, h⟩ := Fetch.bind_eq_ok_iff.mp h
    cases parsed with
    | none | some => exact txData?_of_servePointers henv.replays h hitem

/-- A transfer on a list of an address or of a token is a row of the index, with the transaction of
the chain at its position. -/
theorem row_of_transfers {worlds : ℕ → ℕ → World} {views : ℕ → ℕ → Db} {chainId : UInt64}
    (hwalk : Walk ⟨up, chain.toChain, chainId⟩ worlds views) (htip : (worlds 0 0).tip ≤ tip)
    (henv : env.Replays (chain.store tip)) {raw : String} {query : PageQuery}
    {answer : Envelope ApiTokenTransfer}
    (h : Api.addressTransfers addressFromStr env (views 0) raw query = .ok answer ∨
      Api.tokenTransfers addressFromStr env (views 0) raw query = .ok answer)
    {item : ApiTokenTransfer} (hitem : item ∈ answer.items) :
    ∃ row ∈ (views 0 0).tokenTransfers.rows, TransferShown chain row item := by
  obtain ⟨hpage, hexecuted⟩ := reference_of_reachable hwalk.reachable (hwalk.file 0 0)
  obtain ⟨hcount, -⟩ := reference_of_reachable (hwalk.reachable_count 0) (hwalk.file 0 1)
  have hnext := hexecuted.trans (Nat.succ_le_succ htip)
  have hpaging : ∀ q, serveTransfers env (views 0) query q =
      serveTransfers env (views 0) ⟨some (query.page.getD 0), query.perPage⟩ q := fun _ => rfl
  rcases h with h | h
  · obtain ⟨address, -, h⟩ := Fetch.bind_eq_ok_iff.mp h
    rw [hpaging] at h
    have hshows := serveTransfers_shows hpage hcount.txTypeCounts hnext henv
      (hwalk.feed_suffix (.addressTransfers (addrHex address)) 0).1 (fun _ => rfl)
      (fun _ _ _ => rfl) h
    obtain ⟨row, hrow, hshown⟩ := Page.exists_row_of_mem hshows.items hitem
    exact ⟨row, (mem_addressTransferRows.mp (Page.mem_of_mem_slice hrow)).1, hshown⟩
  · obtain ⟨token, -, h⟩ := Fetch.bind_eq_ok_iff.mp h
    rw [hpaging] at h
    have hshows := serveTransfers_shows hpage hcount.txTypeCounts hnext henv
      (hwalk.feed_suffix (.tokenTransfers (addrHex token)) 0).1 (fun _ => rfl)
      (fun _ _ _ => rfl) h
    obtain ⟨row, hrow, hshown⟩ := Page.exists_row_of_mem hshows.items hitem
    have hmem := (List.mem_insertionSort _).mp (Page.mem_of_mem_slice hrow)
    exact ⟨row, (List.mem_filter.mp hmem).1, hshown⟩

variable {bs58Of : B256 → String} {hexOf : Bytes → String} {reader : BlockReader}
  {blocks : ℕ → SealedBlock}

/-- A block that a route shows is a block of the chain, with the hashes of its transactions. -/
theorem tx_of_block (hserves : reader.Serves chain.toChain blocks tip)
    (hbodies : ∀ n ≤ tip, (blocks n).transactions =
      (chain.block n).transactionsWithSender.map fun entry => entry.2.hash)
    {block : ApiBlock}
    (h : (∃ query answer, Api.blocksList bs58Of hexOf up reader query = .ok answer ∧
        block ∈ answer.items) ∨
      ∃ consensusReader raw,
        Api.blockByNumber bs58Of hexOf up reader consensusReader raw = .ok block)
    {i : ℕ} {text : String} (htext : block.transactions[i]? = some text) :
    block.number ≤ tip ∧ block.timestamp = (chain.block block.number).header.timestamp ∧
      ∃ sender tx, chain.tx? block.number i = some (sender, tx) ∧ text = digestHex tx.hash := by
  obtain ⟨n, hn, hblock⟩ : ∃ n ≤ tip,
      block.unlinked = buildApiBlock bs58Of hexOf up (blocks n) := by
    rcases h with ⟨query, answer, hlist, hmem⟩ | ⟨consensusReader, raw, hdetail⟩
    · cases (blocksList_eq hserves query).symm.trans hlist
      obtain ⟨sealed, hsealed, rfl⟩ := List.mem_map.mp hmem
      obtain ⟨n, hn, rfl⟩ := List.mem_map.mp hsealed
      have hlt := List.mem_range.mp (List.mem_reverse.mp (Page.mem_of_mem_slice hn))
      exact ⟨n, Nat.le_of_lt_succ hlt, unlinked_buildApiBlock _ _ _ _⟩
    · obtain ⟨n, hraw, -⟩ := Fetch.bind_eq_ok_iff.mp hdetail
      by_cases hn : n ≤ tip
      · obtain ⟨item, hitem, hrow, -⟩ :=
          blockByNumber_eq bs58Of hexOf up hserves consensusReader hraw hn
        cases hitem.symm.trans hdetail
        exact ⟨n, hn, hrow⟩
      · simp only [Api.blockByNumber, hraw, hserves.above n (not_le.mp hn), liftNode,
          Except.mapError, bind, Except.bind] at hdetail
        cases hdetail
  have hheader := hserves.header n
  have hnumber : block.number = n := by
    rw [← chain.number_block n, RecoveredBlock.number, ← hheader]
    exact congrArg ApiBlock.number hblock
  have htime : block.timestamp = (chain.block n).header.timestamp := by
    rw [← hheader]
    exact congrArg ApiBlock.timestamp hblock
  have htransactions : block.transactions = (blocks n).transactions.map digestHex :=
    congrArg ApiBlock.transactions hblock
  rw [htransactions, hbodies n hn, List.map_map, List.getElem?_map] at htext
  obtain ⟨⟨sender, tx⟩, htx, rfl⟩ := Option.map_eq_some_iff.mp htext
  rw [hnumber]
  exact ⟨hn, htime, sender, tx, htx, rfl⟩

variable {worlds : ℕ → ℕ → World} {views : ℕ → ℕ → Db} {chainId : UInt64} {env' : RethEnv}
  {tip' : ℕ} {hashFromStr : String → Option B256}

/-- **Every link resolves, to what the list showed.** A list is read, and one of its hashes is
followed at any later time. The detail answers, and

* the row of a list of transactions is the detail with the input cut and without the transfers;
* a transfer is of the block and the time of the detail, and it is on a page of the list of the
  transaction, for every page size, the same but for the metadata of its token;
* the hash at a place in a block is that of the transaction which is there, of the same time.

A hash that no transaction has is not found. -/
theorem transaction_links (hwalk : Walk ⟨up, chain.toChain, chainId⟩ worlds views)
    (htip : (worlds 0 0).tip ≤ tip) (hlater : tip ≤ tip') (henv : env.Serves chain tip)
    (hserves : reader.Serves chain.toChain blocks tip)
    (hbodies : ∀ n ≤ tip, (blocks n).transactions =
      (chain.block n).transactionsWithSender.map fun entry => entry.2.hash)
    (hfinds : env'.Finds chain tip') (hfits : ∀ n ≤ tip', FitsColumns chain.toChain n [])
    (hhash : ∀ hash, hashFromStr (digestHex hash) = some hash) (access : TxAccess)
    (status : IndexerStatus) :
    let detail := Api.txByHash hashFromStr env' (views 1) status
    (∀ answer, ((∃ query, Api.txsList env (views 0) query = .ok answer) ∨
        ∃ raw query, Api.addressTxs addressFromStr env (views 0) raw query = .ok answer) →
      ∀ item ∈ answer.items, ∃ response,
        detail (buildApiTransaction access item .list).hash = .ok response ∧
        (response.wire access).row = buildApiTransaction access item .list) ∧
    (∀ raw query answer,
        (Api.addressTransfers addressFromStr env (views 0) raw query = .ok answer ∨
          Api.tokenTransfers addressFromStr env (views 0) raw query = .ok answer) →
      ∀ item ∈ answer.items,
        (∃ response, detail item.txHash = .ok response ∧
          response.data.blockNumber = item.blockNumber ∧
          response.data.timestamp = item.timestamp) ∧
        ∀ perPage, ∃ page own, Api.txTransfers hashFromStr env' (views 1) item.txHash
            ⟨some page, perPage⟩ = .ok own ∧
          ∃ again ∈ own.items, again.bare = item.bare) ∧
    (∀ block, ((∃ query answer, Api.blocksList bs58Of hexOf up reader query = .ok answer ∧
          block ∈ answer.items) ∨
        ∃ consensusReader raw,
          Api.blockByNumber bs58Of hexOf up reader consensusReader raw = .ok block) →
      ∀ i text, block.transactions[i]? = some text → ∃ response, detail text = .ok response ∧
        response.data.blockNumber = block.number ∧ response.data.txIndex = i ∧
        response.data.timestamp = block.timestamp) ∧
    ∀ hash, (∀ n ≤ tip', ∀ i sender tx, chain.tx? n i = some (sender, tx) → tx.hash ≠ hash) →
      detail (digestHex hash) = .error .notFound := by
  intro detail
  obtain ⟨hlisted, hexecuted⟩ := reference_of_reachable hwalk.reachable (hwalk.file 0 0)
  obtain ⟨hown, -⟩ := reference_of_reachable (hwalk.reachable_page 1) (hwalk.file 1 0)
  obtain ⟨hcount, -⟩ := reference_of_reachable (hwalk.reachable_count 1) (hwalk.file 1 1)
  have hcounts := hcount.txTypeCounts
  -- whatever is executed when a list is read has a detail later
  have hdetail : ∀ {pointer : TxPointer} {data : TxData}, pointer.blockNumber ≤ tip →
      chain.txData? pointer = some data → ∃ response, detail (digestHex data.tx.hash) =
        .ok response ∧ response.data = data := fun hle hdata =>
    detail_of_txData hfinds hhash hcounts hfits (hle.trans hlater) hdata status
  refine ⟨fun answer hanswer item hitem => ?_, fun raw query answer hanswer item hitem => ?_,
    fun block hblock i text htext => ?_, fun hash hnone => ?_⟩
  · obtain ⟨pointer, hle, hdata⟩ := txData?_of_list henv hanswer hitem
    obtain ⟨response, hresponse, rfl⟩ := hdetail hle hdata
    exact ⟨response, hresponse, row_buildApiTransaction access response⟩
  · obtain ⟨row, hrow, data, token, hdata, rfl⟩ :=
      row_of_transfers hwalk htip henv.replays hanswer hitem
    have hgrow : (views 0 0).next ≤ (views 1 0).next :=
      (hwalk.next_le 0).1.trans (hwalk.next_le 0).2
    obtain ⟨hrow', hlt⟩ := (hlisted.mem_tokenTransfers_iff hown hgrow).mp hrow
    have hle : row.pointer.blockNumber ≤ tip :=
      Nat.le_of_lt_succ (hlt.trans_le (hexecuted.trans (Nat.succ_le_succ htip)))
    obtain ⟨hn, -, -⟩ := NodeChain.txData?_eq_some hdata
    constructor
    · obtain ⟨response, hresponse, rfl⟩ := hdetail hle hdata
      exact ⟨response, hresponse, hn, rfl⟩
    · intro perPage
      obtain ⟨page, own, hpage, again, hagain, token', rfl⟩ := txTransfers_of_row hfinds hhash hown
        hcounts hfits hrow' (hlt.trans_le hgrow) (hle.trans hlater) hdata perPage
      exact ⟨page, own, hpage, _, hagain, rfl⟩
  · obtain ⟨hle, htime, sender, tx, htx, rfl⟩ := tx_of_block hserves hbodies hblock htext
    obtain ⟨data, hdata⟩ := NodeStore.has_iff.mp (NodeChain.has_store hle htx)
    obtain ⟨hle, hdata⟩ := NodeChain.txData?_of_store hdata
    obtain ⟨hn, hi, htime', -, htx', -⟩ := NodeChain.txData?_eq_some hdata
    obtain ⟨response, hresponse, rfl⟩ := hdetail hle hdata
    cases htx.symm.trans htx'
    exact ⟨response, hresponse, hn, hi, htime'.trans htime.symm⟩
  · have hread := liftNode_eq_ok_iff.mpr (txByHash_unknown hfinds hnone)
    simp only [detail, Api.txByHash, parseHash, hhash, Fetch.okOr_some, hread, bind, Except.bind]
    rfl

end Lists

/-! ### A link to evaluate on -/

/-- The value of a hexadecimal digit. -/
def hexValue (c : Char) : ℕ := if c.isDigit then c.toNat - '0'.toNat else c.toNat - 'a'.toNat + 10

/-- `TxHash::from_str` on `0x` and 64 lowercase digits. -/
def hashFromHex (text : String) : Option B256 :=
  let digits := text.toList.drop 2
  if text.toList.take 2 = ['0', 'x'] ∧ digits.length = 64 then
    some (BitVec.ofNat 256 (digits.foldl (fun n c => n * 16 + hexValue c) 0))
  else none

theorem foldl_hexDigits {w n : ℕ} (h : n < 16 ^ w) :
    (Numeral.hexDigits w n).foldl (fun n c => n * 16 + hexValue c) 0 = n := by
  induction w generalizing n with
  | zero =>
    rw [pow_zero] at h
    show 0 = n
    omega
  | succ w ih =>
    have hvalue : ∀ d : Fin 16, hexValue (Nat.digitChar d) = d := by decide
    have hlast : hexValue (Nat.digitChar (n % 16)) = n % 16 :=
      hvalue ⟨n % 16, Nat.mod_lt _ (by decide)⟩
    rw [pow_succ] at h
    rw [Numeral.hexDigits, List.foldl_append, ih (by omega), List.foldl_cons, List.foldl_nil, hlast]
    omega

/-- A hash in text is read back. -/
theorem hashFromHex_digestHex (hash : B256) : hashFromHex (digestHex hash) = some hash := by
  have hlt : hash.toNat < 16 ^ 64 := hash.isLt
  have htext : (digestHex hash).toList = '0' :: 'x' :: Numeral.hexDigits 64 hash.toNat := by
    rw [digestHex, Numeral.hexString, String.toList_ofList]
  simp only [hashFromHex, htext, List.drop_succ_cons, List.drop_zero, List.take_succ_cons,
    List.take_zero, length_hexDigits, and_self, if_true, foldl_hexDigits hlt, BitVec.ofNat_toNat,
    BitVec.setWidth_eq]

/-- A node that answers from the chain finds by hash, when the hashes are distinct. -/
theorem NodeChain.finds_env (chain : NodeChain) (tip : ℕ)
    (hdistinct : ((chain.entries tip).map fun entry => entry.transaction.hash).Nodup) :
    (chain.env tip).Finds chain tip := by
  have hfind : ∀ n ≤ tip, ∀ i sender tx, chain.tx? n i = some (sender, tx) →
      (chain.entries tip).find? (·.transaction.hash = tx.hash) =
        some ⟨n, i, (chain.block n).header.timestamp, sender, tx⟩ := by
    intro n hn i sender tx htx
    have hmem : (⟨n, i, (chain.block n).header.timestamp, sender, tx⟩ : TxEntry) ∈
        chain.entries tip := mem_entries.mpr ⟨hn, htx, rfl⟩
    cases hfind : (chain.entries tip).find? (·.transaction.hash = tx.hash) with
    | none => exact absurd (List.find?_eq_none.mp hfind _ hmem) (by simp)
    | some entry =>
      have hsame : entry.transaction.hash = tx.hash := by simpa using List.find?_some hfind
      exact congrArg some
        (List.inj_on_of_nodup_map hdistinct (List.mem_of_find?_eq_some hfind) hmem hsame)
  refine ⟨fun n hn i sender tx htx => ?_, fun n hn i sender tx receipt gas htx hreceipt hgas => ?_,
    fun hash hnone => ?_⟩
  · simp only [env, hfind n hn i sender tx htx, Option.map_some]
  · simp only [env, hfind n hn i sender tx htx, Option.bind_eq_bind, Option.bind_some, hreceipt,
      hgas]
    rfl
  · have hunknown : (chain.entries tip).find? (·.transaction.hash = hash) = none := by
      refine List.find?_eq_none.mpr fun entry hentry => ?_
      obtain ⟨hn, htx, -⟩ := mem_entries.mp hentry
      simpa using hnone _ hn _ _ _ htx
    simp only [env, hunknown, Option.map_none]

/-- The blocks of the chain whose transactions transfer a token. -/
def transferBlock (n : ℕ) : SealedBlock where
  header := ⟨(transferChain.block n).header, 5⟩
  hash := BitVec.ofNat 256 n
  parentHash := 0
  gasUsed := 21000
  gasLimit := 30000000
  transactions := (transferChain.block n).transactionsWithSender.map fun entry => entry.2.hash
  rlpLength := 600

/-- A node that has executed two of them. -/
def transferNode : BlockReader where
  lastBlockNumber := .ok 1
  sealedBlockByNumber n := .ok (if n ≤ 1 then some (transferBlock n) else none)

theorem serves_transferNode : transferNode.Serves transferChain.toChain transferBlock 1 where
  last := rfl
  tip_lt := by decide
  block _ hn := congrArg Except.ok (if_pos hn)
  above _ hn := congrArg Except.ok (if_neg (Nat.not_le.mpr hn))
  header _ := rfl

/-- The plain fields of a transaction, with an input of six bytes. -/
def plainAccess : TxAccess where
  input _ := [0xa9, 0x05, 0x9c, 0xbb, 0, 0]
  value tx := tx.nonce
  gasLimit _ := 30000
  effectiveGasPrice _ baseFee := baseFee.getD 0

/-- Two transfers of the token are listed, each with its transaction behind it. -/
theorem transaction_links_first : ∃ (db : Db) (answer : Envelope ApiTokenTransfer),
    Api.tokenTransfers (fun _ => some 7) (transferChain.env 1) (fun _ => db) "0x7" ⟨none, none⟩ =
      .ok answer ∧ answer.items.map ApiTokenTransfer.blockNumber = [1, 0] ∧
    ∀ item ∈ answer.items, ∃ response, Api.txByHash hashFromHex (transferChain.env 1) (fun _ => db)
      ⟨2, 1, true⟩ item.txHash = .ok response ∧ response.data.blockNumber = item.blockNumber := by
  have hrun : ((exexSystem ⟨plainUpstream, transferChain.toChain, 7⟩ (· = File.empty)).run
      (freshWorld 1) transferActions).bind (fun w => w.file.toDb.map fun db =>
        (w.tip, (Api.tokenTransfers (fun _ => some 7) (transferChain.env 1) (fun _ => db) "0x7"
          ⟨none, none⟩).map fun answer => answer.items.map ApiTokenTransfer.blockNumber)) =
        some (1, .ok [1, 0]) := by decide +kernel
  obtain ⟨w, db, -, hreach, hdb, hrun⟩ := exists_index_of_run (by decide) hrun
  obtain ⟨htip, hlist⟩ := Prod.mk.inj hrun
  obtain ⟨answer, hanswer, hnumbers⟩ := Fetch.map_eq_ok_iff.mp hlist
  have hwalk : Walk ⟨plainUpstream, transferChain.toChain, 7⟩ (fun _ _ => w) (fun _ _ => db) :=
    ⟨hreach, fun _ _ => ⟨[], rfl⟩, fun _ => ⟨[], rfl⟩, fun _ _ => hdb⟩
  have hentries : (transferChain.entries 1).length < 2 ^ 64 := by decide
  obtain ⟨-, htransfers, -⟩ := @transaction_links plainUpstream transferChain
    (transferChain.env 1) 1 (fun _ => some 7) (fun _ => "") hexBytes transferNode transferBlock
    (fun _ _ => w) (fun _ _ => db) 7 (transferChain.env 1) 1 hashFromHex hwalk htip.le le_rfl
    (transferChain.serves_env 1 hentries) serves_transferNode (fun _ _ => rfl)
    (transferChain.finds_env 1 (by decide)) (fun n hn => fitsColumns_transferChain (by omega))
    hashFromHex_digestHex plainAccess ⟨2, 1, true⟩
  refine ⟨db, answer, hanswer, hnumbers, fun item hitem => ?_⟩
  obtain ⟨response, hresponse, hn, -⟩ := (htransfers "0x7" _ _ (.inr hanswer) item hitem).1
  exact ⟨response, hresponse, hn⟩

end ExplorerIndexer
