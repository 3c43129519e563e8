import ExplorerIndexer.Answers

/-!
# The type filter

`/txs` is paged by arithmetic on the node's transaction numbers, `/txs?type=` by the index: a
reverse scan of the primary key, a stored counter for the total, and a replay of the blocks on the
page. The two list the same transactions in the same order, and so do the two lists of an address.

## Main definitions

* `Lists` — the first pages of a route, concatenated, are a feed

## Main results

* `typePointers_eq_filter`, `addressPointersByType_eq_filter` — each filtered feed of the index is
  the filtered feed
* `type_filter_exact` — the pages of a route with a type are the transactions of that type among the
  pages without
-/

namespace ExplorerIndexer

/-! ### The transactions of a chain, newest first -/

namespace NodeChain

variable {chain : NodeChain} {tip : ℕ}

theorem mem_latestPointers {pointer : TxPointer} : pointer ∈ chain.latestPointers tip ↔
    pointer.blockNumber ≤ tip ∧
      ∃ entry, chain.tx? pointer.blockNumber pointer.txIndex = some entry := by
  simp only [latestPointers, List.mem_map, List.mem_reverse, mem_entries]
  constructor
  · rintro ⟨entry, ⟨hn, htx, -⟩, rfl⟩
    exact ⟨hn, _, htx⟩
  · rintro ⟨hn, ⟨sender, tx⟩, htx⟩
    exact ⟨⟨pointer.blockNumber, pointer.txIndex,
      (chain.block pointer.blockNumber).header.timestamp, sender, tx⟩, ⟨hn, htx, rfl⟩, rfl⟩

/-- Transaction numbers follow the order of the positions. -/
theorem pairwise_entries (chain : NodeChain) (tip : ℕ) : (chain.entries tip).Pairwise fun e f =>
    e.blockNumber < f.blockNumber ∨ e.blockNumber = f.blockNumber ∧ e.index < f.index := by
  rw [entries, List.pairwise_flatMap]
  refine ⟨fun n _ => ?_, List.pairwise_lt_range.imp fun {m n} hlt e he f hf => ?_⟩
  · rw [blockEntries, List.pairwise_map]
    exact (Page.pairwise_zipIdx _).imp fun hlt => Or.inr ⟨rfl, hlt⟩
  · obtain ⟨_, -, rfl⟩ := List.mem_map.mp he
    obtain ⟨_, -, rfl⟩ := List.mem_map.mp hf
    exact Or.inl hlt

/-- **The feed is strictly newest first.** -/
theorem pairwise_latestPointers (chain : NodeChain) (tip : ℕ) :
    (chain.latestPointers tip).Pairwise fun p q => newestFirst p q ∧ p ≠ q := by
  rw [latestPointers, List.pairwise_map, List.pairwise_reverse]
  refine (chain.pairwise_entries tip).imp fun {e f} hlt => ?_
  simp only [newestFirst, TxEntry.pointer, ne_eq, TxPointer.mk.injEq]
  omega

/-- The transaction at a position has the type. -/
def HasType (chain : NodeChain) (txType : ℕ) (pointer : TxPointer) : Bool :=
  (chain.tx? pointer.blockNumber pointer.txIndex).any (·.2.ty = txType)

theorem hasType_of_tx {n i txType : ℕ} {sender : Address} {tx : TransactionSigned}
    (h : chain.tx? n i = some (sender, tx)) :
    chain.HasType txType ⟨n, i⟩ = decide (tx.ty = txType) := by
  simp [HasType, h]

theorem hasType_of_txData {pointer : TxPointer} {d : TxData} (h : TxItem chain pointer d)
    (txType : ℕ) : chain.HasType txType pointer = decide (d.tx.ty = txType) := by
  obtain ⟨⟨sender, tx⟩, htx, h⟩ := Option.bind_eq_some_iff.mp h
  obtain ⟨receipt, -, h⟩ := Option.bind_eq_some_iff.mp h
  obtain ⟨gas, -, h⟩ := Option.bind_eq_some_iff.mp h
  cases h
  exact hasType_of_tx htx

end NodeChain

/-! ### The feeds of the index -/

section Feeds

variable {up : Upstream} {chain : NodeChain} {db : Db}

/-- **The feed of a type is the feed of all transactions, filtered.** -/
theorem typePointers_eq_filter {tip : ℕ} (hreference : Reference up chain.toChain (tip + 1) db)
    (txType : ℕ) :
    typePointers db txType = (chain.latestPointers tip).filter (chain.HasType txType) := by
  have hsorted := chain.pairwise_latestPointers tip
  refine Page.insertionSort_eq_of_perm newestFirst (fun _ _ _ _ => newestFirst_antisymm) ?_
    ((hsorted.imp And.left).filter _)
  refine (List.perm_ext_iff_of_nodup ((List.perm_insertionSort newestFirst _).nodup_iff.mp
    (nodup_typePointers db txType)) ((hsorted.imp And.right).filter _)).mpr fun pointer => ?_
  simp only [List.mem_map, List.mem_filter, decide_eq_true_eq, NodeChain.mem_latestPointers]
  constructor
  · rintro ⟨row, ⟨hrow, rfl⟩, rfl⟩
    obtain ⟨n, hn, i, sender, tx, htx, rfl⟩ := (hreference.txTypes _).mp hrow
    exact ⟨⟨Nat.lt_succ_iff.mp hn, _, htx⟩,
      (NodeChain.hasType_of_tx htx).trans (decide_eq_true rfl)⟩
  · rintro ⟨⟨hn, ⟨sender, tx⟩, htx⟩, htype⟩
    refine ⟨⟨tx.ty, pointer.blockNumber, pointer.txIndex⟩, ⟨(hreference.txTypes _).mpr
      ⟨_, Nat.lt_succ_iff.mpr hn, _, sender, tx, htx, rfl⟩, ?_⟩, rfl⟩
    exact of_decide_eq_true ((NodeChain.hasType_of_tx htx).symm.trans htype)

/-- **The feed of an address and a type is the feed of the address, filtered.** -/
theorem addressPointersByType_eq_filter {next : ℕ} (hreference : Reference up chain.toChain next db)
    (address : String) (txType : ℕ) :
    addressPointersByType db address txType =
      (addressPointers db address).filter (chain.HasType txType) := by
  rw [addressPointers, Page.filter_insertionSort newestFirst _ fun _ _ _ _ => newestFirst_antisymm,
    List.filter_map, List.filter_filter, addressPointersByType]
  congr 2
  refine List.filter_congr fun row hrow => ?_
  obtain ⟨n, -, i, sender, tx, a, htx, -, rfl⟩ := (hreference.addressTxs _).mp hrow
  simp [AddressTx.pointer, NodeChain.hasType_of_tx htx, and_comm]

end Feeds

/-! ### Pages, concatenated -/

/-- The first `m` pages of a route answer: concatenated they are the feed, as far as `m` pages go,
and each carries the length of the feed. -/
def Lists (route : ℕ → Except ApiError (Envelope TxData)) (perPage m : ℕ) (feed : List TxData) :
    Prop :=
  ∃ pages, (List.range m).mapM route = .ok pages ∧
    pages.flatMap Envelope.items = feed.take (m * perPage) ∧
    ∀ page ∈ pages, page.total = feed.length

section Lists

variable {chain : NodeChain} {route : ℕ → Except ApiError (Envelope TxData)} {perPage m : ℕ}
  {pointers : List TxPointer} {feed : List TxData}

/-- A page of transactions is a page of the items of its feed. -/
theorem Answers.eq_ok {page : ℕ} {response : Except ApiError (Envelope TxData)}
    (h : Answers pointers page perPage (TxItem chain) response)
    (hfeed : List.Forall₂ (TxItem chain) pointers feed) :
    response = .ok ⟨Page.slice perPage (page * perPage) feed, feed.length, page, perPage⟩ := by
  obtain ⟨items, hok, hitems⟩ := h
  have hunique : Relator.RightUnique (TxItem chain) := fun _ _ _ hd hd' =>
    Option.some.inj (hd.symm.trans hd')
  rw [hok, List.right_unique_forall₂' hunique hitems (Page.forall₂_slice hfeed _ _),
    hfeed.length_eq]

/-- **Pages that answer list the items of their feed.** -/
theorem lists_of_answers (hfeed : List.Forall₂ (TxItem chain) pointers feed)
    (h : ∀ p < m, Answers pointers p perPage (TxItem chain) (route p)) :
    Lists route perPage m feed := by
  refine ⟨_, Fetch.mapM_eq_ok_map fun p hp => (h p (List.mem_range.mp hp)).eq_ok hfeed, ?_,
    fun page hpage => ?_⟩
  · rw [List.flatMap_map]
    exact Page.flatMap_slice perPage m feed
  · obtain ⟨p, -, rfl⟩ := List.mem_map.mp hpage
    rfl

/-- The items of the filtered pointers are the filtered items. -/
theorem forall₂_filter_hasType (hfeed : List.Forall₂ (TxItem chain) pointers feed) (txType : ℕ) :
    List.Forall₂ (TxItem chain) (pointers.filter (chain.HasType txType))
      (feed.filter (·.tx.ty = txType)) :=
  List.rel_filter (fun _ _ h => by dsimp only; rw [NodeChain.hasType_of_txData h txType]) hfeed

end Lists

/-! ### The filter -/

section Filter

variable {up : Upstream} {chain : NodeChain} {chainId : UInt64} {w : World} {db : Db} {tip : ℕ}
  {env : RethEnv}

/-- A type that does not parse is a 400. -/
theorem parsedType_of_unknown {query : TxsQuery} {s : String} (hs : query.txType = some s)
    (h : parseTxType s = none) : ∃ message, query.parsedType = .error (.badRequest message) := by
  rw [TxsQuery.parsedType, hs]
  dsimp only
  rw [h]
  exact ⟨_, rfl⟩

/-- An address route with an unknown type, or with an address that does not parse, is a 400. -/
theorem addressTxs_of_unknown {addressFromStr : String → Option Address} {env : RethEnv}
    {views : ℕ → Db} {raw : String} {query : TxsQuery} {message : String}
    (h : query.parsedType = .error (.badRequest message)) :
    ∃ message, Api.addressTxs addressFromStr env views raw query =
      .error (.badRequest message) := by
  rw [Api.addressTxs, parseAddress]
  cases addressFromStr raw with
  | none => exact ⟨_, rfl⟩
  | some address => exact ⟨message, by rw [Fetch.okOr_some, h]; rfl⟩

/-- **The type filter is exact.** When the index has caught up with the node, an unknown type is a
400; and the pages with a type list, in the same order, the transactions of that type among those
that the pages without a type list, for all transactions and for each address. The pages are taken
as far as SQLite binds their offsets; the pages that are served by arithmetic have no such bound. -/
theorem type_filter_exact
    (hw : (exexSystem ⟨up, chain.toChain, chainId⟩ (· = File.empty)).Reachable w)
    (hdb : w.file = db.toFile) (hcursor : db.cursor = some tip) (henv : env.Serves chain tip)
    {perPage : ℕ} (hpos : 1 ≤ perPage) (hle : perPage ≤ 100) (s : String)
    (addressFromStr : String → Option Address) :
    let txs (page : ℕ) (txType : Option String) :=
      Api.txsList env (fun _ => db) ⟨some page, some perPage, txType⟩
    let addressTxs (raw : String) (page : ℕ) (txType : Option String) :=
      Api.addressTxs addressFromStr env (fun _ => db) raw ⟨some page, some perPage, txType⟩
    (parseTxType s = none → ∀ page,
      (∃ message, txs page (some s) = .error (.badRequest message)) ∧
      ∀ raw, ∃ message, addressTxs raw page (some s) = .error (.badRequest message)) ∧
    ∀ txType, parseTxType s = some txType →
      (∃ feed, List.Forall₂ (TxItem chain) (chain.latestPointers tip) feed ∧
        ∀ m, Lists (txs · none) perPage m feed ∧ ((m - 1) * perPage < 2 ^ 63 →
          Lists (txs · (some s)) perPage m (feed.filter (·.tx.ty = txType)))) ∧
      ∀ raw address, addressFromStr raw = some address → ∃ feed,
        ∀ m, (m - 1) * perPage < 2 ^ 63 → Lists (addressTxs raw · none) perPage m feed ∧
          Lists (addressTxs raw · (some s)) perPage m (feed.filter (·.tx.ty = txType)) := by
  intro txs addressTxs
  have hreference : Reference up chain.toChain (tip + 1) db := by
    have hnext : db.next = tip + 1 := by rw [Db.next, hcursor]; rfl
    exact hnext ▸ (reference_of_reachable hw hdb).1
  have hsize : clampPerPage (some perPage) = perPage := clampPerPage_eq hpos hle
  have hserve : ∀ (q : PagedQuery) m, q.Fits → (m - 1) * perPage < 2 ^ 63 → ∀ p < m,
      Answers (q.pointers (q.feed db)) p perPage (TxItem chain)
        (servePointers env (fun _ => db) ⟨some p, some perPage⟩ q) := fun q m hq hm p hp => by
    have hbound := (Nat.mul_le_mul_right perPage (Nat.le_pred_of_lt hp)).trans_lt hm
    have hanswers := (@servePointers_answers_iff up chain db (tip + 1) tip env
      ⟨some p, some perPage⟩ q hreference le_rfl henv.replays).mpr
    simp only [hsize, Option.getD_some] at hanswers
    exact hanswers ⟨hq, hbound⟩
  refine ⟨fun hs page => ?_, fun txType hs => ⟨?_, fun raw address haddress => ?_⟩⟩
  · obtain ⟨message, hparsed⟩ := @parsedType_of_unknown ⟨some page, some perPage, some s⟩ s rfl hs
    refine ⟨⟨message, ?_⟩, fun raw => addressTxs_of_unknown hparsed⟩
    dsimp only [txs]
    rw [Api.txsList, hparsed]
    rfl
  · obtain ⟨feed, hfeed⟩ := chain.exists_latestFeed tip
    refine ⟨feed, hfeed, fun m => ⟨lists_of_answers hfeed fun p _ => ?_, fun hm =>
      lists_of_answers (forall₂_filter_hasType hfeed txType) fun p hp => ?_⟩⟩
    · have hanswers := @txsList_answers env (fun _ => db) chain tip henv (some p) (some perPage)
      rwa [hsize] at hanswers
    · dsimp only [txs]
      rw [← typePointers_eq_filter hreference, txsList_of_type (parsedType_of_parse rfl hs)]
      exact hserve (.txsByType txType) m trivial hm p hp
  · obtain ⟨feed, -, hfeed⟩ := hydratePointers_of_reference hreference le_rfl henv.replays
      ((PagedQuery.addressTxs (addrHex address)).points_of_feed db)
    refine ⟨feed, fun m hm => ⟨lists_of_answers hfeed fun p hp => ?_,
      lists_of_answers (forall₂_filter_hasType hfeed txType) fun p hp => ?_⟩⟩
    · dsimp only [addressTxs]
      rw [addressTxs_of_none haddress rfl]
      exact hserve (.addressTxs (addrHex address)) m trivial hm p hp
    · have hfilter := addressPointersByType_eq_filter hreference (addrHex address) txType
      dsimp only [addressTxs]
      rw [addressTxs_of_type haddress (parsedType_of_parse rfl hs)]
      exact hfilter ▸ hserve (.addressTxsByType (addrHex address) txType) m trivial hm p hp

/-- After the commits of the blocks `0` to `5`, of five types, the type of the first and the last
one has two pages of one transaction. -/
theorem type_filter_exact_two :
    ∃ (w : World) (db : Db) (feed : List TxData),
      (exexSystem steadyNetwork (· = File.empty)).run (freshWorld 5)
        (startActions 6 ++ (List.replicate 6 bodyActions).flatten) = some w ∧ w.file = db.toFile ∧
      Lists (fun p => Api.txsList (steadyChain.env 5) (fun _ => db) ⟨some p, some 1, none⟩) 1 6
        feed ∧
      Lists (fun p => Api.txsList (steadyChain.env 5) (fun _ => db)
        ⟨some p, some 1, some "legacy"⟩) 1 2 (feed.filter (·.tx.ty = 0)) ∧
      feed.map (fun d => (d.blockNumber, d.tx.ty)) =
        [(5, 0), (4, 4), (3, 3), (2, 2), (1, 1), (0, 0)] := by
  have hrun : ((exexSystem steadyNetwork (· = File.empty)).run (freshWorld 5)
      (startActions 6 ++ (List.replicate 6 bodyActions).flatten)).bind
        (fun w => w.file.toDb.map Db.cursor) = some (some 5) := by decide +kernel
  obtain ⟨w, db, hw, hreach, hdb, hcursor⟩ := exists_index_of_run (by decide) hrun
  obtain ⟨-, hfilter⟩ := @type_filter_exact plainUpstream steadyChain 7 w db 5 (steadyChain.env 5)
    hreach hdb hcursor (steadyChain.serves_env 5 (by decide)) 1 (by decide) (by decide) "legacy"
    fun _ => none
  obtain ⟨⟨feed, hfeed, hlists⟩, -⟩ := hfilter 0 (by decide +kernel)
  exact ⟨w, db, feed, hw, hdb, (hlists 6).1, (hlists 2).2 (by decide),
    Fetch.map_of_forall₂ hfeed (by decide +kernel)⟩

end Filter

end ExplorerIndexer
