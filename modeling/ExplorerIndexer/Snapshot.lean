import ExplorerIndexer.IndexLoop
import ExplorerIndexer.Reference

/-!
# The statements of one request

A paged route reads the index with several `SELECT`s on one pooled connection: the page, the count
and, for transfers, the cached metadata of the tokens on the page. They are not wrapped in a
transaction, so each sees the latest commit at its own start, and the loop may commit blocks in
between.

## Main definitions

* `PagedQuery` — the five paged routes, one of them with and without a type
* `Reads` — the statements of a request, each on its own view of the index
* `PagedQuery.read` — what a route reads

## Main results

* `feed_of_run` — blocks put rows in front of a feed and never change the rest
* `PagedQuery.read_eq` — a route reads the page of the first view and the count of the second
-/

namespace ExplorerIndexer

/-! ### Routes -/

/-- The query behind a paged route. -/
inductive PagedQuery where
  /-- `/txs?type=`. -/
  | txsByType (txType : ℕ)
  /-- `/address/{addr}/txs`. -/
  | addressTxs (address : String)
  /-- `/address/{addr}/txs?type=`. -/
  | addressTxsByType (address : String) (txType : ℕ)
  /-- `/address/{addr}/transfers`. -/
  | addressTransfers (address : String)
  /-- `/tokens/{addr}/transfers`. -/
  | tokenTransfers (token : String)
  /-- `/txs/{hash}/transfers`, by the position of the transaction. -/
  | txTransfers (blockNumber txIndex : ℕ)
  deriving DecidableEq, Repr

namespace PagedQuery

/-- The rows of a route. -/
def Row : PagedQuery → Type
  | txsByType _ | addressTxs _ | addressTxsByType .. => TxPointer
  | addressTransfers _ | tokenTransfers _ | txTransfers .. => StoredTransfer

/-- All rows of a route, in the order of its pages. -/
def feed (db : Db) : (q : PagedQuery) → List q.Row
  | txsByType txType => typePointers db txType
  | addressTxs address => addressPointers db address
  | addressTxsByType address txType => addressPointersByType db address txType
  | addressTransfers address => addressTransferRows db address
  | tokenTransfers token => tokenTransferRows db token
  | txTransfers blockNumber txIndex => txTransferRows db blockNumber txIndex

/-- The page statement. -/
def page (db : Db) (limit offset : ℕ) : (q : PagedQuery) → Except Error (List q.Row)
  | txsByType txType => txTypePage db txType limit offset
  | addressTxs address => addressTxsPage db address limit offset
  | addressTxsByType address txType => addressTxsPageByType db address txType limit offset
  | addressTransfers address => addressTransfersPage db address limit offset
  | tokenTransfers token => tokenTransfersPage db token limit offset
  | txTransfers blockNumber txIndex => transfersForTxPage db blockNumber txIndex limit offset

/-- The count statement. -/
def count (db : Db) : PagedQuery → Except Error ℕ
  | txsByType txType => .ok (countTxType db txType)
  | addressTxs address => .ok (countAddressTxs db address)
  | addressTxsByType address txType => .ok (countAddressTxsByType db address txType)
  | addressTransfers address => .ok (countAddressTransfers db address)
  | tokenTransfers token => .ok (countTokenTransfers db token)
  | txTransfers blockNumber txIndex => countTransfersForTx db blockNumber txIndex

/-- The position of a transaction fits SQLite's integers. -/
def Fits : PagedQuery → Prop
  | txTransfers blockNumber txIndex => blockNumber < 2 ^ 63 ∧ txIndex < 2 ^ 63
  | _ => True

theorem page_eq {q : PagedQuery} (hq : q.Fits) (db : Db) {limit offset : ℕ}
    (hlimit : limit < 2 ^ 63) (hoffset : offset < 2 ^ 63) :
    q.page db limit offset = .ok (Page.slice limit offset (q.feed db)) := by
  cases q with
  | txTransfers blockNumber txIndex =>
    simp only [page, transfersForTxPage, bindU64, if_pos hq.1, if_pos hq.2]
    exact selectPage_eq _ hlimit hoffset
  | _ => exact selectPage_eq _ hlimit hoffset

/-- **When the page statement returns**: all its parameters fit SQLite's integers. -/
theorem page_eq_ok_iff {q : PagedQuery} {db : Db} {limit offset : ℕ} {rows : List q.Row} :
    q.page db limit offset = .ok rows ↔ q.Fits ∧ limit < 2 ^ 63 ∧ offset < 2 ^ 63 ∧
      rows = Page.slice limit offset (q.feed db) := by
  constructor
  · intro h
    cases q with
    | txTransfers blockNumber txIndex =>
      obtain ⟨n, hn, h⟩ := Fetch.bind_eq_ok_iff.mp h
      obtain ⟨i, hi, h⟩ := Fetch.bind_eq_ok_iff.mp h
      obtain ⟨hn, rfl⟩ := bindU64_eq_ok_iff.mp hn
      obtain ⟨hi, rfl⟩ := bindU64_eq_ok_iff.mp hi
      exact ⟨⟨hn, hi⟩, selectPage_eq_ok_iff.mp h⟩
    | _ => exact ⟨trivial, selectPage_eq_ok_iff.mp h⟩
  · rintro ⟨hq, hlimit, hoffset, rfl⟩
    exact page_eq hq db hlimit hoffset

/-- A count is the length of the feed. For a type it is a stored counter. -/
theorem count_eq {q : PagedQuery} (hq : q.Fits) {db : Db} (hcounts : CountsExact db) :
    q.count db = .ok (q.feed db).length := by
  cases q with
  | txsByType txType =>
    rw [count, hcounts txType]
    exact congrArg _ (length_typePointers db txType).symm
  | addressTxs address => exact congrArg _ (length_addressPointers db address).symm
  | addressTxsByType address txType =>
    exact congrArg _ (length_addressPointersByType db address txType).symm
  | addressTransfers address => exact congrArg _ (length_addressTransferRows db address).symm
  | tokenTransfers token => exact congrArg _ (length_tokenTransferRows db token).symm
  | txTransfers blockNumber txIndex =>
    simp only [count, countTransfersForTx, bindU64, if_pos hq.1, if_pos hq.2]
    exact congrArg _ (length_txTransferRows db blockNumber txIndex).symm

theorem nodup_feed (q : PagedQuery) (db : Db) : (q.feed db).Nodup := by
  cases q with
  | txsByType txType => exact nodup_typePointers db txType
  | addressTxs address => exact nodup_addressPointers db address
  | addressTxsByType address txType => exact nodup_addressPointersByType db address txType
  | addressTransfers address => exact nodup_addressTransferRows db address
  | tokenTransfers token => exact nodup_tokenTransferRows db token
  | txTransfers blockNumber txIndex => exact nodup_txTransferRows db blockNumber txIndex

end PagedQuery

/-! ### How feeds grow -/

/-- The rows of the index name blocks up to the cursor. -/
structure RowsBelow (db : Db) (next : ℕ) : Prop where
  addressTxs : ∀ r ∈ db.addressTxs.rows, r.blockNumber < next
  txTypes : ∀ r ∈ db.txTypes.rows, r.blockNumber < next
  tokenTransfers : ∀ r ∈ db.tokenTransfers.rows, r.blockNumber < next

/-- A block puts rows of its own into the tables of the feeds, behind the rows that were there. -/
structure Appends (db db' : Db) (number : ℕ) : Prop where
  addressTxs : ∃ added, db'.addressTxs.rows = db.addressTxs.rows ++ added ∧
    ∀ r ∈ added, r.blockNumber = number
  txTypes : ∃ added, db'.txTypes.rows = db.txTypes.rows ++ added ∧
    ∀ r ∈ added, r.blockNumber = number
  tokenTransfers : ∃ added, db'.tokenTransfers.rows = db.tokenTransfers.rows ++ added ∧
    ∀ r ∈ added, r.blockNumber = number

theorem appends_applied (db : Db) (up : Upstream) (block : RecoveredBlock)
    (receipts : List Receipt) (rows : List TokenRow) :
    Appends db (db.applied (extractBlock up block receipts) rows) block.number where
  addressTxs := by
    obtain ⟨added, heq, hadded⟩ := db.addressTxs.rows_insertAll
      ((extractBlock up block receipts).addressRows.map .ofRow)
    refine ⟨added, heq, fun r hr => ?_⟩
    obtain ⟨i, sender, tx, a, -, -, rfl⟩ := mem_addressRows.mp (hadded r hr)
    rfl
  txTypes := by
    obtain ⟨added, heq, hadded⟩ := db.txTypes.rows_insertAll
      (extractBlock up block receipts).txTypes
    refine ⟨added, heq, fun r hr => ?_⟩
    obtain ⟨i, sender, tx, -, rfl⟩ := mem_txTypes.mp (hadded r hr)
    rfl
  tokenTransfers := by
    obtain ⟨added, heq, hadded⟩ := db.tokenTransfers.rows_insertAll
      ((extractBlock up block receipts).transfers.map .ofRow)
    refine ⟨added, heq, fun r hr => ?_⟩
    obtain ⟨i, j, receipt, log, f, t, -, -, -, -, -, rfl⟩ := mem_transfers.mp (hadded r hr)
    rfl

section Append

variable {old added : List StoredTransfer} {n next : ℕ}

/-- The pointers of newer rows come in front. -/
theorem pointers_append {ρ : Type} {old added : List ρ} (p : ρ → Bool) (f : ρ → TxPointer)
    (hold : ∀ r ∈ old, (f r).blockNumber < next) (hadded : ∀ r ∈ added, (f r).blockNumber = n)
    (hle : next ≤ n) :
    (((old ++ added).filter p).map f).insertionSort newestFirst =
      ((added.filter p).map f).insertionSort newestFirst ++
        ((old.filter p).map f).insertionSort newestFirst := by
  rw [List.filter_append, List.map_append]
  refine Page.insertionSort_append newestFirst (fun a _ b _ => newestFirst_antisymm)
    fun a ha b hb => ?_
  obtain ⟨r, hr, rfl⟩ := List.mem_map.mp ha
  obtain ⟨s, hs, rfl⟩ := List.mem_map.mp hb
  have hlt := hold s (List.mem_filter.mp hs).1
  have heq := hadded r (List.mem_filter.mp hr).1
  exact Or.inl (by omega)

/-- The transfers of a newer block come in front. -/
theorem transfers_append (p : StoredTransfer → Bool)
    (hkey : ∀ r ∈ old ++ added, ∀ s ∈ old ++ added, r.key = s.key → r = s)
    (hold : ∀ r ∈ old, r.blockNumber < next) (hadded : ∀ r ∈ added, r.blockNumber = n)
    (hle : next ≤ n) :
    ((old ++ added).filter p).insertionSort newestTransferFirst =
      (added.filter p).insertionSort newestTransferFirst ++
        (old.filter p).insertionSort newestTransferFirst := by
  rw [List.filter_append]
  refine Page.insertionSort_append newestTransferFirst (fun a ha b hb h h' => ?_)
    fun a ha b hb => ?_
  · rw [← List.filter_append] at ha hb
    exact hkey a (List.mem_filter.mp ha).1 b (List.mem_filter.mp hb).1
      (key_eq_of_newestTransferFirst h h')
  · have hlt := hold b (List.mem_filter.mp hb).1
    have heq := hadded a (List.mem_filter.mp ha).1
    exact Or.inl (by omega)

/-- The transfers of one transaction come with its block, all at once. -/
theorem txTransfers_append (blockNumber txIndex : ℕ) (hold : ∀ r ∈ old, r.blockNumber < next)
    (hadded : ∀ r ∈ added, r.blockNumber = n) (hle : next ≤ n) :
    let p : StoredTransfer → Bool := fun r => r.blockNumber = blockNumber ∧ r.txIndex = txIndex
    ((old ++ added).filter p).insertionSort emissionOrder =
      (added.filter p).insertionSort emissionOrder ++
        (old.filter p).insertionSort emissionOrder := by
  intro p
  rw [List.filter_append]
  by_cases hn : blockNumber = n
  · have hnil : old.filter p = [] := by
      refine List.filter_eq_nil_iff.mpr fun r hr hp => ?_
      have hlt := hold r hr
      simp only [p, decide_eq_true_eq] at hp
      omega
    rw [hnil, List.nil_append, List.insertionSort_nil, List.append_nil]
  · have hnil : added.filter p = [] := by
      refine List.filter_eq_nil_iff.mpr fun r hr hp => ?_
      have heq := hadded r hr
      simp only [p, decide_eq_true_eq] at hp
      omega
    rw [hnil, List.append_nil, List.insertionSort_nil, List.nil_append]

end Append

/-- The `UNION` of the two arms selects the transfers with the address on either side. -/
theorem addressTransferRows_eq (db : Db) (address : String) :
    addressTransferRows db address = (db.tokenTransfers.rows.filter fun r =>
      r.fromAddr = address ∨ r.toAddr = address).insertionSort newestTransferFirst := by
  refine Page.insertionSort_congr newestTransferFirst (fun a ha b hb h h' => ?_) ?_
  · have hmem : ∀ r ∈ (db.tokenTransfers.rows.filter (·.fromAddr = address) ++
        db.tokenTransfers.rows.filter (·.toAddr = address)).dedup, r ∈ db.tokenTransfers.rows := by
      simp only [List.mem_dedup, List.mem_append, List.mem_filter]
      rintro r (h | h) <;> exact h.1
    exact db.tokenTransfers.eq_of_key_eq (hmem a ha) (hmem b hb)
      (key_eq_of_newestTransferFirst h h')
  · refine (List.perm_ext_iff_of_nodup (List.nodup_dedup _)
      (db.tokenTransfers.nodup_rows.filter _)).mpr fun r => ?_
    simp [and_or_left]

/-- **A block puts rows in front of a feed.** -/
theorem PagedQuery.feed_appends (q : PagedQuery) {db db' : Db} {n next : ℕ}
    (h : RowsBelow db next) (ha : Appends db db' n) (hle : next ≤ n) :
    ∃ new, q.feed db' = new ++ q.feed db := by
  cases q with
  | txsByType txType =>
    obtain ⟨added, heq, hadded⟩ := ha.txTypes
    simp only [feed, typePointers, heq]
    exact ⟨_, pointers_append _ _ h.txTypes hadded hle⟩
  | addressTxs address =>
    obtain ⟨added, heq, hadded⟩ := ha.addressTxs
    simp only [feed, addressPointers, heq]
    exact ⟨_, pointers_append _ _ h.addressTxs hadded hle⟩
  | addressTxsByType address txType =>
    obtain ⟨added, heq, hadded⟩ := ha.addressTxs
    simp only [feed, addressPointersByType, heq]
    exact ⟨_, pointers_append _ _ h.addressTxs hadded hle⟩
  | addressTransfers address =>
    obtain ⟨added, heq, hadded⟩ := ha.tokenTransfers
    simp only [feed, addressTransferRows_eq]
    rw [heq]
    exact ⟨_, transfers_append _ (fun r hr s hs => db'.tokenTransfers.eq_of_key_eq (heq ▸ hr)
      (heq ▸ hs)) h.tokenTransfers hadded hle⟩
  | tokenTransfers token =>
    obtain ⟨added, heq, hadded⟩ := ha.tokenTransfers
    simp only [feed, tokenTransferRows]
    rw [heq]
    exact ⟨_, transfers_append _ (fun r hr s hs => db'.tokenTransfers.eq_of_key_eq (heq ▸ hr)
      (heq ▸ hs)) h.tokenTransfers hadded hle⟩
  | txTransfers blockNumber txIndex =>
    obtain ⟨added, heq, hadded⟩ := ha.tokenTransfers
    simp only [feed, txTransferRows]
    rw [heq]
    exact ⟨_, txTransfers_append blockNumber txIndex h.tokenTransfers hadded hle⟩

/-! ### Runs of the loop -/

section Runs

variable {up : Upstream} {s t : LoopState}

theorem rowsBelow_of_reachable (hs : (loopSystem up).Reachable s) : RowsBelow s.db s.db.next := by
  induction hs with
  | init h =>
    obtain ⟨chainId, rfl⟩ := h
    constructor <;> intro r hr <;> cases hr
  | @step s t action hs ht ih =>
    rcases LoopState.db_step hs ht with heq | ⟨block, receipts, rows, heq, hbound, habove⟩
    · rw [heq]
      exact ih
    · have ha := appends_applied s.db up block receipts rows
      have hbelow : ∀ {ρ : Type} {number : ρ → ℕ} {old new : List ρ},
          (∀ r ∈ old, number r < s.db.next) →
          (∃ added, new = old ++ added ∧ ∀ r ∈ added, number r = block.number) →
          ∀ r ∈ new, number r < block.number + 1 := by
        rintro ρ number old _ hold ⟨added, rfl, hadded⟩ r hr
        have hle := next_le_of_above habove
        rcases List.mem_append.mp hr with hr | hr
        · have := hold r hr
          omega
        · have := hadded r hr
          omega
      rw [heq, next_applied _ _ _ (by rwa [number_extractBlock]), number_extractBlock]
      exact ⟨hbelow ih.addressTxs ha.addressTxs, hbelow ih.txTypes ha.txTypes,
        hbelow ih.tokenTransfers ha.tokenTransfers⟩

theorem countsExact_of_loop (hs : (loopSystem up).Reachable s) : CountsExact s.db := by
  induction hs with
  | init h =>
    obtain ⟨chainId, rfl⟩ := h
    exact countsExact_emptyDb _
  | step hs ht ih =>
    rcases LoopState.db_step hs ht with heq | ⟨block, receipts, rows, heq, -⟩
    · rw [heq]
      exact ih
    · rw [heq]
      exact ih.applied _ _

/-- **Runs put rows in front of a feed and never change the rest.** -/
theorem feed_of_run (hs : (loopSystem up).Reachable s) {actions : List LoopAction}
    (ht : (loopSystem up).run s actions = some t) (q : PagedQuery) :
    ∃ new, q.feed t.db = new ++ q.feed s.db := by
  refine TransitionSystem.run_relation (P := (loopSystem up).Reachable)
    (R := fun s t => ∃ new, q.feed t.db = new ++ q.feed s.db) (fun _ => ⟨[], rfl⟩)
    (fun s t u hst htu => ?_) (fun _ _ _ hs ht => hs.step ht) (fun s action t hs ht => ?_) ht hs
  · obtain ⟨new, hnew⟩ := hst
    obtain ⟨newer, hnewer⟩ := htu
    exact ⟨newer ++ new, by rw [hnewer, hnew, List.append_assoc]⟩
  · rcases LoopState.db_step hs ht with heq | ⟨block, receipts, rows, heq, -, habove⟩
    · exact ⟨[], by rw [heq, List.nil_append]⟩
    · rw [heq]
      exact q.feed_appends (rowsBelow_of_reachable hs) (appends_applied s.db up block receipts rows)
        (next_le_of_above habove)

end Runs

/-! ### Requests -/

/-- The statements of a request on one pooled connection. The `k`-th one sees the database
`views k`; the result comes with the number of the next one. -/
abbrev Reads (α : Type) := ReaderT (ℕ → Db) (StateT ℕ (Except Error)) α

/-- One `SELECT`, on the latest commit at its start. -/
def select {α : Type} (statement : Db → Except Error α) : Reads α := fun views k =>
  (statement (views k)).map fun a => (a, k + 1)

/-- The entry of a token in the map `page_tokens` builds. -/
def lookupToken (tokens : List (String × StoredToken)) (token : String) : Option StoredToken :=
  (tokens.find? (·.1 = token)).map Prod.snd

/-- One row of `page_tokens`: look up its token unless the map has it. -/
def addToken (tokens : List (String × StoredToken)) (row : StoredTransfer) :
    Reads (List (String × StoredToken)) := do
  if (lookupToken tokens row.token).isSome then
    return tokens
  else
    match ← select fun db => .ok (tokenRow db row.token) with
    | some token => return tokens ++ [(row.token, token)]
    | none => return tokens

/-- The cached metadata of every token on a page. -/
def pageTokens (rows : List StoredTransfer) : Reads (List (String × StoredToken)) :=
  rows.foldlM addToken []

/-- What a route has read: the rows of the page, the total, and for transfers the metadata of the
tokens on the page. -/
structure PageRead (q : PagedQuery) where
  rows : List q.Row
  total : ℕ
  tokens : List (String × StoredToken)

/-- The transfers on a page. -/
def PagedQuery.transfers : (q : PagedQuery) → List q.Row → List StoredTransfer
  | txsByType _, _ | addressTxs _, _ | addressTxsByType .., _ => []
  | addressTransfers _, rows | tokenTransfers _, rows | txTransfers .., rows => rows

/-- The pointers of the rows of a page. -/
def PagedQuery.pointers : (q : PagedQuery) → List q.Row → List TxPointer
  | txsByType _, rows | addressTxs _, rows | addressTxsByType .., rows => rows
  | addressTransfers _, rows | tokenTransfers _, rows | txTransfers .., rows =>
    rows.map StoredTransfer.pointer

/-- The statements of a route: the page, the count, and the tokens of the page. -/
def PagedQuery.read (q : PagedQuery) (limit offset : ℕ) : Reads (PageRead q) := do
  let rows ← select fun db => q.page db limit offset
  let total ← select fun db => q.count db
  let tokens ← pageTokens (q.transfers rows)
  return ⟨rows, total, tokens⟩

theorem addToken_ok (tokens : List (String × StoredToken)) (row : StoredTransfer)
    (views : ℕ → Db) (k : ℕ) :
    ∃ tokens' k', addToken tokens row views k = .ok (tokens', k') := by
  by_cases hseen : (lookupToken tokens row.token).isSome
  · exact ⟨tokens, k, by simp only [addToken, hseen]; rfl⟩
  · refine ⟨(tokenRow (views k) row.token).elim tokens fun token =>
      tokens ++ [(row.token, token)], k + 1, ?_⟩
    simp only [addToken, if_neg hseen]
    cases h : tokenRow (views k) row.token with
    | none => simp [select, bind, ReaderT.bind, StateT.bind, Except.bind, Except.map, h]; rfl
    | some token => simp [select, bind, ReaderT.bind, StateT.bind, Except.bind, Except.map, h]; rfl

/-- `page_tokens` never fails. -/
theorem pageTokens_ok (rows : List StoredTransfer) (tokens : List (String × StoredToken))
    (views : ℕ → Db) (k : ℕ) :
    ∃ tokens' k', rows.foldlM addToken tokens views k = .ok (tokens', k') := by
  induction rows generalizing tokens k with
  | nil => exact ⟨tokens, k, rfl⟩
  | cons row rows ih =>
    obtain ⟨tokens', k', hrow⟩ := addToken_ok tokens row views k
    obtain ⟨tokens'', k'', hrows⟩ := ih tokens' k'
    refine ⟨tokens'', k'', ?_⟩
    rw [List.foldlM_cons]
    simp only [bind, ReaderT.bind, StateT.bind, Except.bind, hrow, hrows]

/-- What a route reads, statement by statement. -/
theorem PagedQuery.read_eq {q : PagedQuery} (hq : q.Fits) {views : ℕ → Db}
    (hcounts : CountsExact (views 1)) {limit offset : ℕ} (hlimit : limit < 2 ^ 63)
    (hoffset : offset < 2 ^ 63) :
    q.read limit offset views 0 =
      (pageTokens (q.transfers (Page.slice limit offset (q.feed (views 0)))) views 2).map
        fun r => (⟨Page.slice limit offset (q.feed (views 0)), (q.feed (views 1)).length, r.1⟩,
          r.2) := by
  simp only [PagedQuery.read, select, bind, ReaderT.bind, StateT.bind, Except.bind,
    page_eq hq _ hlimit hoffset, count_eq hq hcounts, Except.map]
  rfl

end ExplorerIndexer
