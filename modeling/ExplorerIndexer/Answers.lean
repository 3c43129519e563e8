import ExplorerIndexer.Api
import ExplorerIndexer.Hydration

/-!
# What the list routes answer

Over an index that holds a prefix of the chain, a list route answers a page with the items of that
page and the length of its feed. The offset is a saturating product of two numbers the client
chooses; SQLite binds signed numbers only, so the routes that read the index answer up to
`i64::MAX`, and the list that is paged by arithmetic always answers.

## Main definitions

* `Answers` — a response is the page of a feed, item by item, with the feed's length
* `TransferItem` — the item of a stored transfer

## Main results

* `servePointers_answers_iff`, `serveTransfers_answers_iff` — the two kinds of lists
* `page_served_iff` — which pages the routes serve
-/

namespace ExplorerIndexer

/-- A response is the page of a feed, item by item, with the feed's length. -/
def Answers {ρ α : Type} (feed : List ρ) (page perPage : ℕ) (item : ρ → α → Prop)
    (response : Except ApiError (Envelope α)) : Prop :=
  ∃ items, response = .ok ⟨items, feed.length, page, perPage⟩ ∧
    List.Forall₂ item (Page.slice perPage (page * perPage) feed) items

/-- The item of a pointer: the transaction there. -/
def TxItem (chain : NodeChain) (pointer : TxPointer) (item : TxData) : Prop :=
  chain.txData? pointer = some item

/-- The item of a stored transfer: with its own transaction and the cached row of its token. -/
def TransferItem (chain : NodeChain) (db : Db) (row : StoredTransfer) (item : ApiTokenTransfer) :
    Prop :=
  ∃ data, chain.txData? row.pointer = some data ∧
    item = buildTokenTransfer row data (tokenRow db row.token)

/-- A page past the end has no items, and the total all the same. -/
theorem Answers.past_end {ρ α : Type} {feed : List ρ} {page perPage : ℕ} {item : ρ → α → Prop}
    {response : Except ApiError (Envelope α)} (h : Answers feed page perPage item response)
    (hpast : feed.length ≤ page * perPage) : response = .ok ⟨[], feed.length, page, perPage⟩ := by
  obtain ⟨items, heq, hitems⟩ := h
  rw [Page.slice_eq_nil hpast] at hitems
  rw [heq, List.forall₂_nil_left_iff.mp hitems]

/-! ### Pages of pointers -/

theorem PagedQuery.pointers_slice (q : PagedQuery) (limit offset : ℕ) (rows : List q.Row) :
    q.pointers (Page.slice limit offset rows) = Page.slice limit offset (q.pointers rows) := by
  cases q with
  | txsByType | addressTxs | addressTxsByType => rfl
  | addressTransfers | tokenTransfers | txTransfers => exact Page.map_slice _ _ _ _

theorem PagedQuery.length_pointers (q : PagedQuery) (rows : List q.Row) :
    (q.pointers rows).length = rows.length := by
  cases q with
  | txsByType | addressTxs | addressTxsByType => rfl
  | addressTransfers | tokenTransfers | txTransfers => exact List.length_map _

section Serve

variable {up : Upstream} {chain : NodeChain} {db : Db} {next tip : ℕ} {env : RethEnv}
  {query : PageQuery} {q : PagedQuery}

/-- **A list of transactions answers** when its offset can be bound. -/
theorem servePointers_answers_iff (hreference : Reference up chain.toChain next db)
    (hnext : next ≤ tip + 1) (henv : env.Replays (chain.store tip)) :
    Answers (q.pointers (q.feed db)) (query.page.getD 0) (clampPerPage query.perPage)
        (TxItem chain) (servePointers env (fun _ => db) query q) ↔
      q.Fits ∧ query.page.getD 0 * clampPerPage query.perPage < 2 ^ 63 := by
  constructor
  · rintro ⟨items, hok, -⟩
    obtain ⟨read, hread, -⟩ := Fetch.bind_eq_ok_iff.mp hok
    obtain ⟨hq, -, hoffset⟩ := fits_of_withConn hread
    exact ⟨hq, saturatingMul_lt_iff.mp hoffset⟩
  · rintro ⟨hq, hoffset⟩
    have hlimit : clampPerPage query.perPage < 2 ^ 63 :=
      (clampPerPage_le _).trans_lt (by decide)
    obtain ⟨tokens, hread, -⟩ := @withConn_read q (fun _ => db) _ _ hq
      hreference.txTypeCounts hlimit hoffset
    have hpage := PagedQuery.page_eq hq db hlimit hoffset
    obtain ⟨items, hitems, hall⟩ := hydratePointers_of_reference hreference hnext henv
      (PagedQuery.points_of_page hpage)
    rw [q.pointers_slice] at hall
    refine ⟨items, ?_, hall⟩
    rw [q.length_pointers]
    refine Fetch.bind_eq_ok_iff.mpr ⟨_, by rw [saturatingMul_eq hoffset]; exact hread, ?_⟩
    exact Fetch.bind_eq_ok_iff.mpr ⟨items, liftNode_eq_ok_iff.mpr hitems, rfl⟩

/-- The zipped items, when the map has the cached row of every token on the page. -/
theorem forall₂_transferItem {rows : List StoredTransfer} {data : List TxData}
    {tokens : List (String × StoredToken)}
    (hdata : List.Forall₂ (TxItem chain) (rows.map StoredTransfer.pointer) data)
    (htokens : ∀ row ∈ rows, lookupToken tokens row.token = tokenRow db row.token) :
    List.Forall₂ (TransferItem chain db) rows (List.zipWith
      (fun row d => buildTokenTransfer row d (lookupToken tokens row.token)) rows data) := by
  induction rows generalizing data with
  | nil => exact .nil
  | cons row rows ih =>
    obtain ⟨d, rest, hd, hrest, rfl⟩ := List.forall₂_cons_left_iff.mp hdata
    obtain ⟨htoken, htokens⟩ := List.forall_mem_cons.mp htokens
    exact .cons ⟨d, hd, by dsimp only; rw [htoken]⟩ (ih hrest htokens)

/-- The length check of `hydrate_transfers` never fails. -/
theorem hydrateTransfers_eq {rows : List StoredTransfer} {data : List TxData}
    (tokens : List (String × StoredToken))
    (hdata : hydratePointers env (rows.map StoredTransfer.pointer) = .ok data)
    (hlength : data.length = rows.length) :
    hydrateTransfers env rows tokens = .ok (List.zipWith
      (fun row d => buildTokenTransfer row d (lookupToken tokens row.token)) rows data) := by
  refine Fetch.bind_eq_ok_iff.mpr ⟨data, liftNode_eq_ok_iff.mpr hdata, ?_⟩
  simp only [hlength, ne_eq, not_true_eq_false, if_false]
  rfl

/-- **A list of transfers answers** when its offset can be bound. -/
theorem serveTransfers_answers_iff (hreference : Reference up chain.toChain next db)
    (hnext : next ≤ tip + 1) (henv : env.Replays (chain.store tip))
    (hpointers : ∀ rows, q.pointers rows = (q.transfers rows).map StoredTransfer.pointer)
    (htransfers : ∀ limit offset rows,
      q.transfers (Page.slice limit offset rows) = Page.slice limit offset (q.transfers rows)) :
    Answers (q.transfers (q.feed db)) (query.page.getD 0) (clampPerPage query.perPage)
        (TransferItem chain db) (serveTransfers env (fun _ => db) query q) ↔
      q.Fits ∧ query.page.getD 0 * clampPerPage query.perPage < 2 ^ 63 := by
  constructor
  · rintro ⟨items, hok, -⟩
    obtain ⟨read, hread, -⟩ := Fetch.bind_eq_ok_iff.mp hok
    obtain ⟨hq, -, hoffset⟩ := fits_of_withConn hread
    exact ⟨hq, saturatingMul_lt_iff.mp hoffset⟩
  · rintro ⟨hq, hoffset⟩
    have hlimit : clampPerPage query.perPage < 2 ^ 63 :=
      (clampPerPage_le _).trans_lt (by decide)
    obtain ⟨tokens, hread, htokens⟩ := @withConn_read q (fun _ => db) _ _ hq
      hreference.txTypeCounts hlimit hoffset
    have hpage := PagedQuery.page_eq hq db hlimit hoffset
    obtain ⟨data, hdata, hall⟩ := hydratePointers_of_reference hreference hnext henv
      (PagedQuery.points_of_page hpage)
    rw [hpointers] at hdata hall
    have hlength : data.length =
        (q.transfers (Page.slice (clampPerPage query.perPage)
          (query.page.getD 0 * clampPerPage query.perPage) (q.feed db))).length := by
      rw [← hall.length_eq, List.length_map]
    have hitems := forall₂_transferItem hall fun row hrow => (htokens row hrow).elim fun _ h => h
    have htotal : (q.transfers (q.feed db)).length = (q.feed db).length := by
      rw [← q.length_pointers, hpointers, List.length_map]
    rw [htransfers] at hitems
    refine ⟨_, ?_, hitems⟩
    rw [htotal, ← htransfers]
    refine Fetch.bind_eq_ok_iff.mpr ⟨_, by rw [saturatingMul_eq hoffset]; exact hread, ?_⟩
    exact Fetch.bind_eq_ok_iff.mpr ⟨_, hydrateTransfers_eq tokens hdata hlength, rfl⟩

/-- **The transfers of one transaction answer** when its position and the offset can be bound. -/
theorem txTransfers_answers_iff (hcounts : CountsExact db) {hashFromStr : String → Option B256}
    {raw : String} {hash : B256} {data : TxData} (hhash : hashFromStr raw = some hash)
    (hdata : txByHash env hash = .ok (some data)) :
    Answers (txTransferRows db data.blockNumber data.txIndex) (query.page.getD 0)
        (clampPerPage query.perPage)
        (fun row item => item = buildTokenTransfer row data (tokenRow db row.token))
        (Api.txTransfers hashFromStr env (fun _ => db) raw query) ↔
      (data.blockNumber < 2 ^ 63 ∧ data.txIndex < 2 ^ 63) ∧
        query.page.getD 0 * clampPerPage query.perPage < 2 ^ 63 := by
  have hrun : Api.txTransfers hashFromStr env (fun _ => db) raw query =
      (txTransferPage (fun _ => db) data (clampPerPage query.perPage)
        (saturatingMul (query.page.getD 0) (clampPerPage query.perPage))).map
        fun r => ⟨r.1, r.2, query.page.getD 0, clampPerPage query.perPage⟩ := by
    simp only [Api.txTransfers, parseHash, hhash, Fetch.okOr_some, bind, Except.bind,
      liftNode_eq_ok_iff.mpr hdata, pageParams]
    cases txTransferPage (fun _ => db) data (clampPerPage query.perPage)
      (saturatingMul (query.page.getD 0) (clampPerPage query.perPage)) <;> rfl
  rw [hrun]
  constructor
  · rintro ⟨items, hok, -⟩
    cases hpage : txTransferPage (fun _ => db) data (clampPerPage query.perPage)
      (saturatingMul (query.page.getD 0) (clampPerPage query.perPage)) with
    | error e =>
      rw [hpage] at hok
      cases hok
    | ok r =>
      obtain ⟨read, hread, -⟩ := Fetch.bind_eq_ok_iff.mp hpage
      obtain ⟨hq, -, hoffset⟩ := fits_of_withConn hread
      exact ⟨hq, saturatingMul_lt_iff.mp hoffset⟩
  · rintro ⟨hq, hoffset⟩
    obtain ⟨tokens, hpage, htokens⟩ := @txTransferPage_eq (fun _ => db) _ _ data hq hcounts
      ((clampPerPage_le query.perPage).trans_lt (by decide)) hoffset
    rw [saturatingMul_eq hoffset, hpage]
    refine ⟨_, rfl, ?_⟩
    rw [List.forall₂_map_right_iff, List.forall₂_same]
    intro row hrow
    obtain ⟨-, htoken⟩ := htokens row hrow
    rw [htoken]

end Serve

/-! ### The handlers -/

section Handlers

variable {addressFromStr : String → Option Address} {env : RethEnv} {views : ℕ → Db} {raw : String}
  {address : Address} {query : TxsQuery} {txType : ℕ}

theorem parsedType_of_parse {s : String} (hs : query.txType = some s)
    (h : parseTxType s = some txType) : query.parsedType = .ok (some txType) := by
  rw [TxsQuery.parsedType, hs]
  dsimp only
  rw [h]

theorem txsList_of_type (h : query.parsedType = .ok (some txType)) :
    Api.txsList env views query = servePointers env views query.paging (.txsByType txType) := by
  rw [Api.txsList, h]
  rfl

/-- The list of all transactions, paged by arithmetic, answers every page. -/
theorem txsList_answers {chain : NodeChain} {tip : ℕ} (henv : env.Serves chain tip)
    (page perPage : Option ℕ) :
    Answers (chain.latestPointers tip) (page.getD 0) (clampPerPage perPage) (TxItem chain)
      (Api.txsList env views ⟨page, perPage, none⟩) := by
  obtain ⟨feed, hfeed⟩ := chain.exists_latestFeed tip
  refine ⟨Page.slice (clampPerPage perPage) (page.getD 0 * clampPerPage perPage) feed, ?_,
    Page.forall₂_slice hfeed _ _⟩
  rw [hfeed.length_eq]
  refine Fetch.bind_eq_ok_iff.mpr ⟨none, rfl, ?_⟩
  exact Fetch.bind_eq_ok_iff.mpr
    ⟨_, liftNode_eq_ok_iff.mpr (latestTxsPage_eq henv (clampPerPage_pos _) hfeed), rfl⟩

theorem addressTxs_of_type (haddress : addressFromStr raw = some address)
    (h : query.parsedType = .ok (some txType)) :
    Api.addressTxs addressFromStr env views raw query =
      servePointers env views query.paging (.addressTxsByType (addrHex address) txType) := by
  rw [Api.addressTxs, parseAddress, haddress, h]
  rfl

theorem addressTxs_of_none (haddress : addressFromStr raw = some address)
    (h : query.parsedType = .ok none) :
    Api.addressTxs addressFromStr env views raw query =
      servePointers env views query.paging (.addressTxs (addrHex address)) := by
  rw [Api.addressTxs, parseAddress, haddress, h]
  rfl

theorem addressTransfers_eq (haddress : addressFromStr raw = some address) (query : PageQuery) :
    Api.addressTransfers addressFromStr env views raw query =
      serveTransfers env views query (.addressTransfers (addrHex address)) := by
  rw [Api.addressTransfers, parseAddress, haddress]
  rfl

theorem tokenTransfers_eq (haddress : addressFromStr raw = some address) (query : PageQuery) :
    Api.tokenTransfers addressFromStr env views raw query =
      serveTransfers env views query (.tokenTransfers (addrHex address)) := by
  rw [Api.tokenTransfers, parseAddress, haddress]
  rfl

end Handlers

/-! ### Which pages are served -/

section Pages

variable {up : Upstream} {chain : NodeChain} {chainId : UInt64} {w : World} {db : Db} {tip : ℕ}
  {env : RethEnv}

/-- **Which page numbers are served.** Over the index of any reachable state, a list that the index
serves answers a page, with its items and the exact total, exactly when the offset of the page is at
most `i64::MAX`. The list of all transactions, paged by arithmetic, answers every page. -/
theorem page_served_iff
    (hw : (exexSystem ⟨up, chain.toChain, chainId⟩ (· = File.empty)).Reachable w)
    (hdb : w.file = db.toFile) (htip : w.tip ≤ tip) (henv : env.Serves chain tip)
    (page perPage : Option ℕ) (addressFromStr : String → Option Address)
    (hashFromStr : String → Option B256) :
    let p := page.getD 0
    let size := clampPerPage perPage
    (∀ s txType, parseTxType s = some txType →
      (Answers (typePointers db txType) p size (TxItem chain)
        (Api.txsList env (fun _ => db) ⟨page, perPage, some s⟩) ↔ p * size < 2 ^ 63)) ∧
    (∀ raw address, addressFromStr raw = some address →
      (Answers (addressPointers db (addrHex address)) p size (TxItem chain)
        (Api.addressTxs addressFromStr env (fun _ => db) raw ⟨page, perPage, none⟩) ↔
          p * size < 2 ^ 63) ∧
      (∀ s txType, parseTxType s = some txType →
        (Answers (addressPointersByType db (addrHex address) txType) p size (TxItem chain)
          (Api.addressTxs addressFromStr env (fun _ => db) raw ⟨page, perPage, some s⟩) ↔
            p * size < 2 ^ 63)) ∧
      (Answers (addressTransferRows db (addrHex address)) p size (TransferItem chain db)
        (Api.addressTransfers addressFromStr env (fun _ => db) raw ⟨page, perPage⟩) ↔
          p * size < 2 ^ 63) ∧
      (Answers (tokenTransferRows db (addrHex address)) p size (TransferItem chain db)
        (Api.tokenTransfers addressFromStr env (fun _ => db) raw ⟨page, perPage⟩) ↔
          p * size < 2 ^ 63)) ∧
    (∀ raw hash data, hashFromStr raw = some hash → txByHash env hash = .ok (some data) →
      data.blockNumber < 2 ^ 63 → data.txIndex < 2 ^ 63 →
      (Answers (txTransferRows db data.blockNumber data.txIndex) p size
        (fun row item => item = buildTokenTransfer row data (tokenRow db row.token))
        (Api.txTransfers hashFromStr env (fun _ => db) raw ⟨page, perPage⟩) ↔
          p * size < 2 ^ 63)) ∧
    Answers (chain.latestPointers tip) p size (TxItem chain)
      (Api.txsList env (fun _ => db) ⟨page, perPage, none⟩) := by
  intro p size
  obtain ⟨hreference, hexecuted⟩ := reference_of_reachable hw hdb
  have hnext : db.next ≤ tip + 1 := hexecuted.trans (Nat.succ_le_succ htip)
  have hpointers : ∀ q : PagedQuery, q.Fits → (Answers (q.pointers (q.feed db)) p size
      (TxItem chain) (servePointers env (fun _ => db) ⟨page, perPage⟩ q) ↔ p * size < 2 ^ 63) :=
    fun q hq => (servePointers_answers_iff hreference hnext henv.replays).trans (and_iff_right hq)
  refine ⟨fun s txType hs => ?_, fun raw address haddress => ⟨?_, fun s txType hs => ?_, ?_, ?_⟩,
    fun raw hash data hhash hdata hn hi => ?_, ?_⟩
  · rw [txsList_of_type (parsedType_of_parse rfl hs)]
    exact hpointers (.txsByType txType) trivial
  · rw [addressTxs_of_none haddress rfl]
    exact hpointers (.addressTxs (addrHex address)) trivial
  · rw [addressTxs_of_type haddress (parsedType_of_parse rfl hs)]
    exact hpointers (.addressTxsByType (addrHex address) txType) trivial
  · rw [addressTransfers_eq haddress]
    exact (serveTransfers_answers_iff (q := .addressTransfers (addrHex address)) hreference hnext
      henv.replays (fun _ => rfl) fun _ _ _ => rfl).trans (and_iff_right trivial)
  · rw [tokenTransfers_eq haddress]
    exact (serveTransfers_answers_iff (q := .tokenTransfers (addrHex address)) hreference hnext
      henv.replays (fun _ => rfl) fun _ _ _ => rfl).trans (and_iff_right trivial)
  · exact (txTransfers_answers_iff hreference.txTypeCounts hhash hdata).trans
      (and_iff_right ⟨hn, hi⟩)
  · exact txsList_answers henv page perPage

/-- The first page past `i64::MAX` is a 500 on the empty index, where the list of all transactions
answers with no items. -/
theorem page_served_overflow :
    ∃ w, (exexSystem steadyNetwork (· = File.empty)).Reachable w ∧
      w.file = (freshDb 7).toFile ∧
      Api.txsList (steadyChain.env 0) (fun _ => freshDb 7) ⟨some (2 ^ 63), some 1, some "legacy"⟩ =
        .error (.internal (.index (.outOfRange (2 ^ 63)))) ∧
      Api.txsList (steadyChain.env 0) (fun _ => freshDb 7) ⟨some (2 ^ 63), some 1, none⟩ =
        .ok ⟨[], 1, 2 ^ 63, 1⟩ ∧
      ¬ ∀ page perPage, ∃ envelope, Api.txsList (steadyChain.env 0) (fun _ => freshDb 7)
        ⟨page, perPage, some "legacy"⟩ = .ok envelope := by
  have hrun : ((exexSystem steadyNetwork (· = File.empty)).run (freshWorld 0)
      (startActions 1)).map World.file = some (freshDb 7).toFile := by decide +kernel
  obtain ⟨w, hw, hfile⟩ := Option.map_eq_some_iff.mp hrun
  have hfail : Api.txsList (steadyChain.env 0) (fun _ => freshDb 7)
      ⟨some (2 ^ 63), some 1, some "legacy"⟩ =
        .error (.internal (.index (.outOfRange (2 ^ 63)))) := by decide +kernel
  refine ⟨w, (TransitionSystem.Reachable.init (freshWorld_initial (by decide))).trans_run hw, hfile,
    hfail, by decide +kernel, fun hall => ?_⟩
  obtain ⟨envelope, hok⟩ := hall (some (2 ^ 63)) (some 1)
  rw [hfail] at hok
  cases hok

/-- On the index of the blocks `0` and `1` the first page and the last one below are answered, the
last with no items. -/
theorem page_served_last : ∃ (w : World) (db : Db),
    (exexSystem steadyNetwork (· = File.empty)).run (freshWorld 1)
      (startActions 2 ++ bodyActions ++ bodyActions) = some w ∧ w.file = db.toFile ∧
    Answers [⟨0, 0⟩] 0 1 (TxItem steadyChain)
      (Api.txsList (steadyChain.env 1) (fun _ => db) ⟨some 0, some 1, some "legacy"⟩) ∧
    Api.txsList (steadyChain.env 1) (fun _ => db) ⟨some (2 ^ 63 - 1), some 1, some "legacy"⟩ =
      .ok ⟨[], 1, 2 ^ 63 - 1, 1⟩ := by
  have hrun : ((exexSystem steadyNetwork (· = File.empty)).run (freshWorld 1)
      (startActions 2 ++ bodyActions ++ bodyActions)).bind (fun w => w.file.toDb.map fun db =>
        (w.tip, typePointers db 0)) = some (1, [⟨0, 0⟩]) := by decide +kernel
  obtain ⟨w, db, hw, hreach, hdb, hrun⟩ := exists_index_of_run (by decide) hrun
  obtain ⟨htip, hfeed⟩ := Prod.mk.inj hrun
  have hserved := fun page => (@page_served_iff plainUpstream steadyChain 7 w db 1
    (steadyChain.env 1) hreach hdb htip.le (steadyChain.serves_env 1 (by decide)) (some page)
    (some 1) (fun _ => none) fun _ => none).1 "legacy" 0 (by decide +kernel)
  rw [hfeed] at hserved
  exact ⟨w, db, hw, hdb, (hserved 0).mpr (by decide),
    ((hserved (2 ^ 63 - 1)).mpr (by decide)).past_end (by decide)⟩

end Pages

end ExplorerIndexer
