import ExplorerIndexer.NodeReads
import ExplorerIndexer.Snapshot
import ExplorerIndexer.Status
import ExplorerIndexer.TxType

/-!
# The handlers of the lists

The paged routes and the detail route of a transaction: they read the index over one pooled
connection, hydrate what they read from the node, and answer with an envelope or an error. Rendering
to JSON is left out: a transaction item is its `TxData`, and the floating-point amount of a transfer
is the pair it is computed from.

## Main definitions

* `pageParams`, `TxsQuery.parsedType` — what the query string gives
* `buildTokenTransfer` — one transfer item
* `Api.txsList`, `Api.addressTxs`, `Api.addressTransfers`, `Api.tokenTransfers`, `Api.txTransfers`,
  `Api.txByHash` — the handlers

## Main results

* `saturatingMul_lt_iff` — SQLite binds the offset exactly when it binds the product
* `PagedQuery.read_ok`, `withConn_read` — what a list route reads over one connection
-/

namespace ExplorerIndexer

/-! ### Errors and envelopes -/

/-- The cause of a 500: a read of the node, or a statement on the index. -/
inductive Cause where
  | node (report : Report)
  | index (error : Error)
  deriving DecidableEq, Repr

/-- What a handler fails with. -/
inductive ApiError where
  /-- 404. -/
  | notFound
  /-- 400, with the message. -/
  | badRequest (message : String)
  /-- 500. The cause is logged and not sent. -/
  | internal (cause : Cause)
  deriving DecidableEq, Repr

/-- The list envelope of the paged endpoints. -/
structure Envelope (α : Type) where
  items : List α
  /-- Number of items across all pages. -/
  total : ℕ
  page : ℕ
  perPage : ℕ
  deriving DecidableEq, Repr

/-- `?` on a read of the node. -/
def liftNode {α : Type} (x : Except Report α) : Except ApiError α :=
  x.mapError fun report => .internal (.node report)

theorem liftNode_eq_ok_iff {α : Type} {x : Except Report α} {a : α} :
    liftNode x = .ok a ↔ x = .ok a := by
  cases x <;> simp [liftNode, Except.mapError]

/-- `ReadPool::with_conn` and `?`: run the statements of a request on their views of the index. -/
def withConn {α : Type} (reads : Reads α) (views : ℕ → Db) : Except ApiError α :=
  match reads views 0 with
  | .ok (a, _) => .ok a
  | .error error => .error (.internal (.index error))

/-! ### Query strings -/

def DEFAULT_PER_PAGE : ℕ := 25

def MAX_PER_PAGE : ℕ := 100

/-- Clamp a requested page size into `1 ..= MAX_PER_PAGE`. -/
def clampPerPage (requested : Option ℕ) : ℕ :=
  min (max (requested.getD DEFAULT_PER_PAGE) 1) MAX_PER_PAGE

/-- `saturating_mul` on 64-bit numbers. -/
def saturatingMul (a b : ℕ) : ℕ := min (a * b) (2 ^ 64 - 1)

/-- `?page=&per_page=`. -/
structure PageQuery where
  page : Option ℕ
  perPage : Option ℕ
  deriving DecidableEq, Repr

/-- `(page, per_page, offset)`. -/
def pageParams (query : PageQuery) : ℕ × ℕ × ℕ :=
  let page := query.page.getD 0
  let perPage := clampPerPage query.perPage
  (page, perPage, saturatingMul page perPage)

/-- `?page=&per_page=&type=`. -/
structure TxsQuery where
  page : Option ℕ
  perPage : Option ℕ
  txType : Option String
  deriving DecidableEq, Repr

/-- The paging part. -/
def TxsQuery.paging (query : TxsQuery) : PageQuery := ⟨query.page, query.perPage⟩

/-- The parsed `?type=`: `none` when absent, a 400 when present but unknown. -/
def TxsQuery.parsedType (query : TxsQuery) : Except ApiError (Option ℕ) :=
  match query.txType with
  | none => .ok none
  | some raw =>
    match parseTxType raw with
    | some txType => .ok (some txType)
    | none => .error (.badRequest
        s!"unknown tx type: {raw}; expected legacy|eip2930|eip1559|eip4844|eip7702 or 0-4")

/-- Parse an address path segment. `fromStr` is `Address::from_str`. -/
def parseAddress (fromStr : String → Option Address) (raw : String) : Except ApiError Address :=
  Fetch.okOr (fromStr raw) (.badRequest s!"invalid address: {raw}")

/-- Parse a hash path segment. `fromStr` is `TxHash::from_str`. -/
def parseHash (fromStr : String → Option B256) (raw : String) : Except ApiError B256 :=
  Fetch.okOr (fromStr raw) (.badRequest s!"invalid transaction hash: {raw}")

theorem clampPerPage_pos (requested : Option ℕ) : 0 < clampPerPage requested := by
  unfold clampPerPage MAX_PER_PAGE
  omega

theorem clampPerPage_le (requested : Option ℕ) : clampPerPage requested ≤ MAX_PER_PAGE :=
  Nat.min_le_right _ _

/-- A page size in range is served as requested. -/
theorem clampPerPage_eq {perPage : ℕ} (hpos : 0 < perPage) (hle : perPage ≤ MAX_PER_PAGE) :
    clampPerPage (some perPage) = perPage := by
  simp only [clampPerPage, Option.getD_some]
  omega

/-- **The offset is the product of page and page size**, as long as SQLite can bind it. -/
theorem saturatingMul_lt_iff {a b : ℕ} :
    saturatingMul a b < 2 ^ 63 ↔ a * b < 2 ^ 63 := by
  rw [saturatingMul]
  omega

theorem saturatingMul_eq {a b : ℕ} (h : a * b < 2 ^ 63) : saturatingMul a b = a * b := by
  rw [saturatingMul]
  omega

/-! ### Items -/

/-- A transfer item. The amount is computed in floating point from the exact value and the
decimals. -/
structure ApiTokenTransfer where
  txHash : String
  fromAddr : String
  toAddr : String
  value : ℕ
  valueExact : String
  amount : String × ℕ
  blockNumber : ℕ
  timestamp : ℕ
  tokenAddress : String
  tokenSymbol : Option String
  logIndex : ℕ
  deriving DecidableEq, Repr

/-- Map a stored transfer, its transaction and the cached token metadata to an item. The value
saturates at `u128::MAX`; the exact value is the stored text. -/
def buildTokenTransfer (row : StoredTransfer) (hydrated : TxData) (token : Option StoredToken) :
    ApiTokenTransfer where
  txHash := digestHex hydrated.tx.hash
  fromAddr := row.fromAddr
  toAddr := row.toAddr
  value := (Numeral.parseNat (2 ^ 128) row.value).getD (2 ^ 128 - 1)
  valueExact := row.value
  amount := (row.value, (token.bind StoredToken.decimals).getD 0)
  blockNumber := row.blockNumber
  timestamp := hydrated.timestamp
  tokenAddress := row.token
  tokenSymbol := token.bind StoredToken.symbol
  logIndex := row.logIndex

/-- Hydrate one page of index pointers. -/
def hydrateTxPage (env : RethEnv) (pointers : List TxPointer) : Except ApiError (List TxData) :=
  liftNode (hydratePointers env pointers)

/-- Zip stored transfers with their transactions. -/
def hydrateTransfers (env : RethEnv) (rows : List StoredTransfer)
    (tokens : List (String × StoredToken)) : Except ApiError (List ApiTokenTransfer) := do
  let hydrated ← liftNode (hydratePointers env (rows.map StoredTransfer.pointer))
  let got := hydrated.length
  let want := rows.length
  if got ≠ want then
    throw (.internal (.node s!"hydration returned {got} rows for {want} pointers"))
  return List.zipWith (fun row data => buildTokenTransfer row data (lookupToken tokens row.token))
    rows hydrated

/-! ### The list routes -/

/-- One page of a transaction list that the index serves. -/
def servePointers (env : RethEnv) (views : ℕ → Db) (query : PageQuery) (q : PagedQuery) :
    Except ApiError (Envelope TxData) := do
  let (page, perPage, offset) := pageParams query
  let read ← withConn (q.read perPage offset) views
  let items ← hydrateTxPage env (q.pointers read.rows)
  return ⟨items, read.total, page, perPage⟩

/-- One page of a transfer list, each item with its own transaction. -/
def serveTransfers (env : RethEnv) (views : ℕ → Db) (query : PageQuery) (q : PagedQuery) :
    Except ApiError (Envelope ApiTokenTransfer) := do
  let (page, perPage, offset) := pageParams query
  let read ← withConn (q.read perPage offset) views
  let items ← hydrateTransfers env (q.transfers read.rows) read.tokens
  return ⟨items, read.total, page, perPage⟩

/-- One page of the transfers of a transaction that is at hand, and their total. -/
def txTransferPage (views : ℕ → Db) (data : TxData) (limit offset : ℕ) :
    Except ApiError (List ApiTokenTransfer × ℕ) := do
  let q := PagedQuery.txTransfers data.blockNumber data.txIndex
  let read ← withConn (q.read limit offset) views
  let items := (q.transfers read.rows).map fun row =>
    buildTokenTransfer row data (lookupToken read.tokens row.token)
  return (items, read.total)

namespace Api

variable (addressFromStr : String → Option Address) (hashFromStr : String → Option B256)
  (env : RethEnv) (views : ℕ → Db)

/-- `GET /txs`. Without a type it is served by transaction numbers, with one by the index. -/
def txsList (query : TxsQuery) : Except ApiError (Envelope TxData) := do
  match ← query.parsedType with
  | none =>
    let (page, perPage, _) := pageParams query.paging
    let (items, total) ← liftNode (latestTxsPage env page perPage)
    return ⟨items, total, page, perPage⟩
  | some txType => servePointers env views query.paging (.txsByType txType)

/-- `GET /address/{addr}/txs`. -/
def addressTxs (raw : String) (query : TxsQuery) : Except ApiError (Envelope TxData) := do
  let address ← parseAddress addressFromStr raw
  match ← query.parsedType with
  | none => servePointers env views query.paging (.addressTxs (addrHex address))
  | some txType =>
    servePointers env views query.paging (.addressTxsByType (addrHex address) txType)

/-- `GET /address/{addr}/transfers`. -/
def addressTransfers (raw : String) (query : PageQuery) :
    Except ApiError (Envelope ApiTokenTransfer) := do
  let address ← parseAddress addressFromStr raw
  serveTransfers env views query (.addressTransfers (addrHex address))

/-- `GET /tokens/{addr}/transfers`. -/
def tokenTransfers (raw : String) (query : PageQuery) :
    Except ApiError (Envelope ApiTokenTransfer) := do
  let address ← parseAddress addressFromStr raw
  serveTransfers env views query (.tokenTransfers (addrHex address))

/-- `GET /txs/{hash}/transfers`. -/
def txTransfers (raw : String) (query : PageQuery) :
    Except ApiError (Envelope ApiTokenTransfer) := do
  let hash ← parseHash hashFromStr raw
  match ← liftNode (ExplorerIndexer.txByHash env hash) with
  | none => throw .notFound
  | some data =>
    let (page, perPage, offset) := pageParams query
    let (items, total) ← txTransferPage views data perPage offset
    return ⟨items, total, page, perPage⟩

/-- The body of `GET /txs/{hash}`: the transaction, and the transfer fields when the index has
reached its block. -/
structure TxDetail where
  data : TxData
  tokenTransfers : Option (List ApiTokenTransfer)
  tokenTransferCount : Option ℕ
  deriving DecidableEq, Repr

/-- `GET /txs/{hash}`. The status is loaded after the node read and before the statements. -/
def txByHash (status : IndexerStatus) (raw : String) : Except ApiError TxDetail := do
  let hash ← parseHash hashFromStr raw
  match ← liftNode (ExplorerIndexer.txByHash env hash) with
  | none => throw .notFound
  | some data =>
    if data.blockNumber ≤ status.lastIndexed.getD 0 then
      let (transfers, count) ← txTransferPage views data MAX_PER_PAGE 0
      return ⟨data, some transfers, some count⟩
    else
      return ⟨data, none, none⟩

end Api

/-! ### What a route reads -/

section Read

variable {q : PagedQuery} {views : ℕ → Db} {limit offset : ℕ}

theorem lookupToken_concat (tokens : List (String × StoredToken)) (token : String)
    (t : StoredToken) (token' : String) : lookupToken (tokens ++ [(token, t)]) token' =
      (lookupToken tokens token').or (if token = token' then some t else none) :=
  Fetch.find_concat tokens token t token'

/-- What one row does to the map: entries stay, and a token that has none is looked up. -/
theorem lookup_addToken {tokens tokens' : List (String × StoredToken)} {row : StoredTransfer}
    {k k' : ℕ} (h : addToken tokens row views k = .ok (tokens', k')) :
    (k' = if (lookupToken tokens row.token).isSome then k else k + 1) ∧
      ∀ token, lookupToken tokens' token = (lookupToken tokens token).or
        (if row.token = token then tokenRow (views k) token else none) := by
  by_cases hseen : (lookupToken tokens row.token).isSome
  · simp only [addToken, hseen] at h
    cases h
    refine ⟨(if_pos hseen).symm, fun token => ?_⟩
    by_cases heq : row.token = token
    · obtain ⟨t, ht⟩ := Option.isSome_iff_exists.mp hseen
      rw [← heq, ht, Option.some_or]
    · rw [if_neg heq, Option.or_none]
  · simp only [addToken, if_neg hseen] at h
    have hnone : lookupToken tokens row.token = none := by simpa using hseen
    cases htoken : tokenRow (views k) row.token with
    | none =>
      simp [select, bind, ReaderT.bind, StateT.bind, Except.bind, Except.map, htoken] at h
      cases h
      refine ⟨(if_neg hseen).symm, fun token => ?_⟩
      by_cases heq : row.token = token
      · rw [← heq, hnone, htoken, if_pos rfl, Option.or_none]
      · rw [if_neg heq, Option.or_none]
    | some t =>
      simp [select, bind, ReaderT.bind, StateT.bind, Except.bind, Except.map, htoken] at h
      cases h
      refine ⟨(if_neg hseen).symm, fun token => ?_⟩
      rw [lookupToken_concat]
      by_cases heq : row.token = token
      · rw [if_pos heq, if_pos heq, ← heq, htoken]
      · rw [if_neg heq, if_neg heq]

/-- **Each token of a page is looked up in the view of one of the lookups.** -/
theorem lookup_foldlM_addToken {rows : List StoredTransfer}
    {tokens tokens' : List (String × StoredToken)} {k k' : ℕ}
    (h : rows.foldlM addToken tokens views k = .ok (tokens', k')) :
    k ≤ k' ∧
      (∀ token t, lookupToken tokens token = some t → lookupToken tokens' token = some t) ∧
      (∀ token, token ∉ rows.map StoredTransfer.token →
        lookupToken tokens' token = lookupToken tokens token) ∧
      ∀ token ∈ rows.map StoredTransfer.token, (lookupToken tokens token).isNone →
        ∃ j, k ≤ j ∧ j < k' ∧ lookupToken tokens' token = tokenRow (views j) token := by
  induction rows generalizing tokens k with
  | nil =>
    cases h
    exact ⟨le_rfl, fun _ _ h => h, fun _ _ => rfl, fun _ hmem => by cases hmem⟩
  | cons row rows ih =>
    rw [List.foldlM_cons] at h
    obtain ⟨tokens₁, k₁, hrow⟩ := addToken_ok tokens row views k
    simp only [bind, ReaderT.bind, StateT.bind, Except.bind, hrow] at h
    obtain ⟨hle', hkeep, hother, hlook⟩ := ih h
    obtain ⟨hnext, hstep⟩ := lookup_addToken hrow
    have hle : k ≤ k₁ := by
      rw [hnext]
      split <;> omega
    refine ⟨hle.trans hle', fun token t ht => hkeep token t ?_, fun token hmem => ?_,
      fun token hmem hnone => ?_⟩
    · rw [hstep, ht, Option.some_or]
    · rw [List.map_cons, List.mem_cons, not_or] at hmem
      rw [hother token hmem.2, hstep, if_neg (Ne.symm hmem.1), Option.or_none]
    · have hnone := Option.isNone_iff_eq_none.mp hnone
      have htoken := hstep token
      rw [hnone, Option.none_or] at htoken
      have hlater : lookupToken tokens₁ token = none → token ∈ rows.map StoredTransfer.token →
          ∃ j, k ≤ j ∧ j < k' ∧ lookupToken tokens' token = tokenRow (views j) token := by
        intro hnone₁ hmem
        obtain ⟨j, hj, hj', hlookup⟩ := hlook token hmem (by rw [hnone₁]; rfl)
        exact ⟨j, hle.trans hj, hj', hlookup⟩
      by_cases heq : row.token = token
      · rw [if_pos heq] at htoken
        rw [heq, hnone, Option.isSome_none, if_neg Bool.false_ne_true] at hnext
        have hlt : k < k' := by omega
        cases hrow' : tokenRow (views k) token with
        | some t => exact ⟨k, le_rfl, hlt, by rw [hkeep token t (htoken.trans hrow'), hrow']⟩
        | none =>
          -- not cached yet: a later row of the token looks again
          rw [hrow'] at htoken
          by_cases hmem' : token ∈ rows.map StoredTransfer.token
          · exact hlater htoken hmem'
          · exact ⟨k, le_rfl, hlt, by rw [hother token hmem', htoken, hrow']⟩
      · rw [if_neg heq] at htoken
        exact hlater htoken ((List.mem_cons.mp hmem).resolve_left (Ne.symm heq))

/-- `page_tokens` looks every token of its page up, in the view of one of its statements. -/
theorem pageTokens_eq (rows : List StoredTransfer) (views : ℕ → Db) (k : ℕ) :
    ∃ tokens k', pageTokens rows views k = .ok (tokens, k') ∧
      ∀ token ∈ rows.map StoredTransfer.token,
        ∃ j, k ≤ j ∧ j < k' ∧ lookupToken tokens token = tokenRow (views j) token := by
  obtain ⟨tokens, k', htokens⟩ := pageTokens_ok rows [] views k
  exact ⟨tokens, k', htokens, fun token hmem =>
    (lookup_foldlM_addToken htokens).2.2.2 token hmem rfl⟩

/-- **What a route reads**: the page of the first view, the count of the second, and for each token
on the page its metadata in the view of a later statement. -/
theorem PagedQuery.read_ok (hq : q.Fits) (hcounts : CountsExact (views 1))
    (hlimit : limit < 2 ^ 63) (hoffset : offset < 2 ^ 63) :
    ∃ tokens k, q.read limit offset views 0 = .ok (⟨Page.slice limit offset (q.feed (views 0)),
        (q.feed (views 1)).length, tokens⟩, k) ∧
      ∀ token ∈ (q.transfers (Page.slice limit offset (q.feed (views 0)))).map StoredTransfer.token,
        ∃ j, 2 ≤ j ∧ j < k ∧ lookupToken tokens token = tokenRow (views j) token := by
  obtain ⟨tokens, k, htokens, hlookup⟩ := pageTokens_eq
    (q.transfers (Page.slice limit offset (q.feed (views 0)))) views 2
  refine ⟨tokens, k, ?_, hlookup⟩
  rw [PagedQuery.read_eq hq hcounts hlimit hoffset, htokens]
  rfl

/-- What a route reads over one connection. -/
theorem withConn_read (hq : q.Fits) (hcounts : CountsExact (views 1)) (hlimit : limit < 2 ^ 63)
    (hoffset : offset < 2 ^ 63) :
    ∃ tokens, withConn (q.read limit offset) views =
        .ok ⟨Page.slice limit offset (q.feed (views 0)), (q.feed (views 1)).length, tokens⟩ ∧
      ∀ row ∈ q.transfers (Page.slice limit offset (q.feed (views 0))),
        ∃ j, lookupToken tokens row.token = tokenRow (views j) row.token := by
  obtain ⟨tokens, k, hread, hlookup⟩ := PagedQuery.read_ok hq hcounts hlimit hoffset
  refine ⟨tokens, by rw [withConn, hread], fun row hrow => ?_⟩
  obtain ⟨j, -, -, hj⟩ := hlookup row.token (List.mem_map_of_mem hrow)
  exact ⟨j, hj⟩

/-- What the transfers of a transaction are read as. -/
theorem txTransferPage_eq {data : TxData}
    (hq : data.blockNumber < 2 ^ 63 ∧ data.txIndex < 2 ^ 63) (hcounts : CountsExact (views 1))
    (hlimit : limit < 2 ^ 63) (hoffset : offset < 2 ^ 63) :
    let rows := Page.slice limit offset
      (txTransferRows (views 0) data.blockNumber data.txIndex)
    ∃ tokens, txTransferPage views data limit offset =
        .ok (rows.map fun row => buildTokenTransfer row data (lookupToken tokens row.token),
          (txTransferRows (views 1) data.blockNumber data.txIndex).length) ∧
      ∀ row ∈ rows, ∃ j, lookupToken tokens row.token = tokenRow (views j) row.token := by
  obtain ⟨tokens, hread, htokens⟩ := @withConn_read
    (.txTransfers data.blockNumber data.txIndex) views limit offset hq hcounts hlimit hoffset
  refine ⟨tokens, ?_, htokens⟩
  exact Fetch.bind_eq_ok_iff.mpr ⟨_, hread, rfl⟩

/-- A route that answers has bound all its parameters. -/
theorem fits_of_withConn {r : PageRead q} (h : withConn (q.read limit offset) views = .ok r) :
    q.Fits ∧ limit < 2 ^ 63 ∧ offset < 2 ^ 63 := by
  rw [withConn] at h
  cases hpage : q.page (views 0) limit offset with
  | error e =>
    simp [PagedQuery.read, select, bind, ReaderT.bind, StateT.bind, Except.bind, hpage,
      Except.map] at h
  | ok rows =>
    obtain ⟨hq, hlimit, hoffset, -⟩ := PagedQuery.page_eq_ok_iff.mp hpage
    exact ⟨hq, hlimit, hoffset⟩

end Read

end ExplorerIndexer
