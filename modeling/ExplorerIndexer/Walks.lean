import ExplorerIndexer.Answers
import ExplorerIndexer.Blocks
import ExplorerIndexer.Library.Walk
import ExplorerIndexer.TxDetail
import ExplorerIndexer.TypeFilter

/-!
# Walking a list

A client reads a list page by page, one request after the other, while blocks are executed and
committed, and the process is killed and restarted. The lists are newest first and paged by an
offset, so new items move the old ones to later pages: a client can be shown an item twice. It is
shown down to the page that reaches the total that no item is missing.

For the lists of the index this rests on two facts: at every state the index holds exactly the rows
of a prefix of the chain, and the prefix never gets shorter.

## Main definitions

* `Walk` — the views of the statements of consecutive requests
* `WalksThrough` — the pages show everything that was there, and nothing that was never there

## Main results

* `PagedQuery.feed_suffix` — the feed of a longer prefix is the feed of a shorter one, with rows in
  front
* `walks_never_miss` — the lists that the index serves
* `number_walks_never_miss` — the lists that are paged by numbers
-/

namespace ExplorerIndexer

/-! ### The feeds of two prefixes -/

section Prefix

variable {up : Upstream} {chain : Chain} {n m : ℕ} {db db' : Db}

/-- The block of a row. -/
def PagedQuery.rowBlock : (q : PagedQuery) → q.Row → ℕ
  | txsByType _, row | addressTxs _, row | addressTxsByType .., row => TxPointer.blockNumber row
  | addressTransfers _, row | tokenTransfers _, row | txTransfers .., row =>
    StoredTransfer.blockNumber row

/-- The rows of a shorter prefix are those of its blocks. -/
theorem Reference.mem_addressTxs_iff (h : Reference up chain n db) (h' : Reference up chain m db')
    (hle : n ≤ m) {row : AddressTx} :
    row ∈ db.addressTxs.rows ↔ row ∈ db'.addressTxs.rows ∧ row.blockNumber < n := by
  rw [h.addressTxs, h'.addressTxs]
  constructor
  · rintro ⟨k, hk, i, sender, tx, a, htx, ha, rfl⟩
    exact ⟨⟨k, hk.trans_le hle, i, sender, tx, a, htx, ha, rfl⟩, hk⟩
  · rintro ⟨⟨k, -, i, sender, tx, a, htx, ha, rfl⟩, hk⟩
    exact ⟨k, hk, i, sender, tx, a, htx, ha, rfl⟩

theorem Reference.mem_txTypes_iff (h : Reference up chain n db) (h' : Reference up chain m db')
    (hle : n ≤ m) {row : TxTypeRow} :
    row ∈ db.txTypes.rows ↔ row ∈ db'.txTypes.rows ∧ row.blockNumber < n := by
  rw [h.txTypes, h'.txTypes]
  constructor
  · rintro ⟨k, hk, i, sender, tx, htx, rfl⟩
    exact ⟨⟨k, hk.trans_le hle, i, sender, tx, htx, rfl⟩, hk⟩
  · rintro ⟨⟨k, -, i, sender, tx, htx, rfl⟩, hk⟩
    exact ⟨k, hk, i, sender, tx, htx, rfl⟩

theorem Reference.mem_tokenTransfers_iff (h : Reference up chain n db)
    (h' : Reference up chain m db') (hle : n ≤ m) {row : StoredTransfer} :
    row ∈ db.tokenTransfers.rows ↔ row ∈ db'.tokenTransfers.rows ∧ row.blockNumber < n := by
  rw [h.tokenTransfers, h'.tokenTransfers]
  constructor
  · rintro ⟨k, hk, i, j, receipt, log, f, t, htx, hreceipt, hlog, htopics, hlen, rfl⟩
    exact ⟨⟨k, hk.trans_le hle, i, j, receipt, log, f, t, htx, hreceipt, hlog, htopics, hlen, rfl⟩,
      hk⟩
  · rintro ⟨⟨k, -, i, j, receipt, log, f, t, htx, hreceipt, hlog, htopics, hlen, rfl⟩, hk⟩
    exact ⟨k, hk, i, j, receipt, log, f, t, htx, hreceipt, hlog, htopics, hlen, rfl⟩

/-- Selected pointers of a shorter prefix. -/
theorem mem_pointers_iff {ρ : Type} {rows rows' : List ρ} {block : ρ → ℕ}
    (hrows : ∀ row, row ∈ rows ↔ row ∈ rows' ∧ block row < n) (p : ρ → Bool) (f : ρ → TxPointer)
    (hf : ∀ row, (f row).blockNumber = block row) {pointer : TxPointer} :
    pointer ∈ ((rows.filter p).map f).insertionSort newestFirst ↔
      pointer ∈ ((rows'.filter p).map f).insertionSort newestFirst ∧ pointer.blockNumber < n := by
  simp only [List.mem_insertionSort, List.mem_map, List.mem_filter]
  constructor
  · rintro ⟨row, ⟨hrow, hp⟩, rfl⟩
    obtain ⟨hrow, hlt⟩ := (hrows row).mp hrow
    exact ⟨⟨row, ⟨hrow, hp⟩, rfl⟩, (hf row).symm ▸ hlt⟩
  · rintro ⟨⟨row, ⟨hrow, hp⟩, rfl⟩, hlt⟩
    exact ⟨row, ⟨(hrows row).mpr ⟨hrow, hf row ▸ hlt⟩, hp⟩, rfl⟩

/-- Selected transfers of a shorter prefix. -/
theorem mem_transfers_iff {rows rows' : List StoredTransfer}
    (hrows : ∀ row, row ∈ rows ↔ row ∈ rows' ∧ row.blockNumber < n) (p : StoredTransfer → Bool)
    (r : StoredTransfer → StoredTransfer → Prop) [DecidableRel r] {row : StoredTransfer} :
    row ∈ (rows.filter p).insertionSort r ↔
      row ∈ (rows'.filter p).insertionSort r ∧ row.blockNumber < n := by
  simp only [List.mem_insertionSort, List.mem_filter, hrows]
  exact and_right_comm

/-- **The feed of a shorter prefix** is what the feed of a longer one has of its blocks. -/
theorem PagedQuery.mem_feed_iff (h : Reference up chain n db) (h' : Reference up chain m db')
    (hle : n ≤ m) (q : PagedQuery) {row : q.Row} :
    row ∈ q.feed db ↔ row ∈ q.feed db' ∧ q.rowBlock row < n := by
  have htransfers : ∀ row, row ∈ db.tokenTransfers.rows ↔
      row ∈ db'.tokenTransfers.rows ∧ row.blockNumber < n :=
    fun _ => h.mem_tokenTransfers_iff h' hle
  cases q with
  | txsByType txType =>
    exact mem_pointers_iff (fun _ => h.mem_txTypes_iff h' hle) _ _ fun _ => rfl
  | addressTxs address =>
    exact mem_pointers_iff (fun _ => h.mem_addressTxs_iff h' hle) _ _ fun _ => rfl
  | addressTxsByType address txType =>
    exact mem_pointers_iff (fun _ => h.mem_addressTxs_iff h' hle) _ _ fun _ => rfl
  | addressTransfers address =>
    simp only [feed, addressTransferRows_eq]
    exact mem_transfers_iff htransfers _ _
  | tokenTransfers token => exact mem_transfers_iff htransfers _ _
  | txTransfers blockNumber txIndex => exact mem_transfers_iff htransfers _ _

theorem pointers_suffix {l l' : List TxPointer} (hl : l.Pairwise newestFirst)
    (hl' : l'.Pairwise newestFirst) (hnodup : l.Nodup) (hnodup' : l'.Nodup)
    (hmem : ∀ {p}, p ∈ l ↔ p ∈ l' ∧ p.blockNumber < n) : l <:+ l' := by
  refine Page.suffix_of_sorted (fun _ _ _ _ => newestFirst_antisymm) hl hl' hnodup hnodup'
    (fun p hp => (hmem.mp hp).1) fun p hp hnot s hs => ?_
  have hlt := (hmem.mp hs).2
  have hge : ¬ p.blockNumber < n := fun hlt => hnot (hmem.mpr ⟨hp, hlt⟩)
  exact Or.inl (by omega)

/-- Sorted transfers of a table, when those of later blocks come first. -/
theorem transfers_suffix {r : StoredTransfer → StoredTransfer → Prop} {l l' : List StoredTransfer}
    (hrows : ∀ a ∈ l', a ∈ db'.tokenTransfers.rows)
    (hkey : ∀ a ∈ l', ∀ b ∈ l', r a b → r b a → a.key = b.key)
    (hlater : ∀ a ∈ l', ∀ b ∈ l', b.blockNumber < a.blockNumber → r a b)
    (hl : l.Pairwise r) (hl' : l'.Pairwise r) (hnodup : l.Nodup) (hnodup' : l'.Nodup)
    (hmem : ∀ {a}, a ∈ l ↔ a ∈ l' ∧ a.blockNumber < n) : l <:+ l' := by
  refine Page.suffix_of_sorted (fun a ha b hb hab hba => ?_) hl hl' hnodup hnodup'
    (fun a ha => (hmem.mp ha).1) fun a ha hnot b hb => ?_
  · exact db'.tokenTransfers.eq_of_key_eq (hrows a ha) (hrows b hb) (hkey a ha b hb hab hba)
  · obtain ⟨hb, hlt⟩ := hmem.mp hb
    have hge : ¬ a.blockNumber < n := fun hlt => hnot (hmem.mpr ⟨ha, hlt⟩)
    exact hlater a ha b hb (by omega)

/-- **A longer prefix puts rows in front of a feed.** -/
theorem PagedQuery.feed_suffix (h : Reference up chain n db) (h' : Reference up chain m db')
    (hle : n ≤ m) (q : PagedQuery) : q.feed db <:+ q.feed db' := by
  have hmem : ∀ {row : q.Row}, row ∈ q.feed db ↔ row ∈ q.feed db' ∧ q.rowBlock row < n :=
    q.mem_feed_iff h h' hle
  have hnodup := q.nodup_feed db
  have hnodup' := q.nodup_feed db'
  have hfilter : ∀ (p : StoredTransfer → Bool) (r : StoredTransfer → StoredTransfer → Prop)
      [DecidableRel r], ∀ a ∈ (db'.tokenTransfers.rows.filter p).insertionSort r,
        a ∈ db'.tokenTransfers.rows ∧ p a = true :=
    fun p r _ a ha => List.mem_filter.mp ((List.mem_insertionSort r).mp ha)
  cases q with
  | txsByType | addressTxs | addressTxsByType =>
    exact pointers_suffix (List.pairwise_insertionSort _ _) (List.pairwise_insertionSort _ _)
      hnodup hnodup' hmem
  | addressTransfers address =>
    exact transfers_suffix (fun a ha => (mem_addressTransferRows.mp ha).1)
      (fun _ _ _ _ => key_eq_of_newestTransferFirst) (fun _ _ _ _ => Or.inl)
      (List.pairwise_insertionSort _ _) (List.pairwise_insertionSort _ _) hnodup hnodup' hmem
  | tokenTransfers token =>
    exact transfers_suffix (fun a ha => (hfilter _ _ a ha).1)
      (fun _ _ _ _ => key_eq_of_newestTransferFirst) (fun _ _ _ _ => Or.inl)
      (List.pairwise_insertionSort _ _) (List.pairwise_insertionSort _ _) hnodup hnodup' hmem
  | txTransfers blockNumber txIndex =>
    have hposition : ∀ a ∈ txTransferRows db' blockNumber txIndex,
        a.blockNumber = blockNumber ∧ a.txIndex = txIndex :=
      fun a ha => of_decide_eq_true (hfilter _ _ a ha).2
    -- all of these transfers are of one block
    refine transfers_suffix (fun a ha => (hfilter _ _ a ha).1) (fun a ha b hb hab hba => ?_)
      (fun a ha b hb hlt => ?_) (List.pairwise_insertionSort _ _) (List.pairwise_insertionSort _ _)
      hnodup hnodup' hmem
    · obtain ⟨hn, hi⟩ := hposition a ha
      obtain ⟨hn', hi'⟩ := hposition b hb
      rw [StoredTransfer.key, StoredTransfer.key, hn, hi, hn', hi', Nat.le_antisymm hab hba]
    · rw [(hposition a ha).1, (hposition b hb).1] at hlt
      exact absurd hlt (lt_irrefl _)

end Prefix

/-! ### Walks -/

/-- The views of the statements of consecutive requests: statement `k` of request `p` sees
`views p k`. Any steps of the system come between two statements of a request, and between its
count and the next request. -/
structure Walk (net : Network) (worlds : ℕ → ℕ → World) (views : ℕ → ℕ → Db) : Prop where
  reachable : (exexSystem net (· = File.empty)).Reachable (worlds 0 0)
  statement : ∀ p k, ∃ actions,
    (exexSystem net (· = File.empty)).run (worlds p k) actions = some (worlds p (k + 1))
  request : ∀ p, ∃ actions,
    (exexSystem net (· = File.empty)).run (worlds p 1) actions = some (worlds (p + 1) 0)
  file : ∀ p k, (worlds p k).file = (views p k).toFile

/-- The pages up to this one make up the total. -/
def Envelope.ReachesTotal {α : Type} (answer : Envelope α) : Prop :=
  answer.total ≤ (answer.page + 1) * answer.perPage

/-- The last page: it is not full, or the pages up to it make up the total. -/
def Envelope.IsLast {α : Type} (answer : Envelope α) : Prop :=
  answer.items.length < answer.perPage ∨ answer.ReachesTotal

/-- Whoever reads the pages `0..=n`, until one that is the last, is shown an item for every row that
was there before, and only items for rows that are there after. -/
def WalksThrough {ρ α : Type} (n : ℕ) (answer : ℕ → Except ApiError (Envelope α))
    (before after : List ρ) (item : ρ → α → Prop) : Prop :=
  ∀ pages : ℕ → Envelope α, (∀ p ≤ n, answer p = .ok (pages p)) → (pages n).IsLast →
    (∀ row ∈ before, ∃ p ≤ n, ∃ i ∈ (pages p).items, item row i) ∧
    ∀ p ≤ n, ∀ i ∈ (pages p).items, ∃ row ∈ after, item row i

/-- An answer shows page `p` of a feed, and counts no fewer rows than the feed has. -/
structure ShowsPage {ρ α : Type} (feed : List ρ) (p k : ℕ) (item : ρ → α → Prop)
    (answer : Envelope α) : Prop where
  page : answer.page = p
  perPage : answer.perPage = k
  total : feed.length ≤ answer.total
  items : List.Forall₂ item (Page.slice k (p * k) feed) answer.items

theorem ShowsPage.ends {ρ α : Type} {feed : List ρ} {p k : ℕ} {item : ρ → α → Prop}
    {answer : Envelope α} (h : ShowsPage feed p k item answer) (hlast : answer.IsLast) :
    Page.Ends k p feed := by
  have hlength := h.items.length_eq
  have htotal := h.total
  rcases hlast with hshort | hreached
  · rw [h.perPage, ← hlength] at hshort
    exact .inl hshort
  · rw [Envelope.ReachesTotal, h.page, h.perPage] at hreached
    exact .inr (htotal.trans hreached)

/-- **A walk through a feed that grows in front.** -/
theorem walksThrough_of_grows {ρ α : Type} {feeds : ℕ → List ρ} (hgrows : Page.Grows feeds)
    {answer : ℕ → Except ApiError (Envelope α)} {k : ℕ} {item : ρ → α → Prop}
    (hshows : ∀ p a, answer p = .ok a → ShowsPage (feeds p) p k item a) (n : ℕ) :
    WalksThrough n answer (feeds 0) (feeds n) item := by
  intro pages hpages hlast
  have hpage : ∀ p ≤ n, ShowsPage (feeds p) p k item (pages p) :=
    fun p hp => hshows p _ (hpages p hp)
  constructor
  · intro row hrow
    obtain ⟨p, hp, hmem⟩ := hgrows.exists_page ((hpage n le_rfl).ends hlast) hrow
    obtain ⟨i, hi, hitem⟩ := Page.exists_entry_of_mem (hpage p hp).items hmem
    exact ⟨p, hp, i, hi, hitem⟩
  · intro p hp i hi
    obtain ⟨row, hrow, hitem⟩ := Page.exists_row_of_mem (hpage p hp).items hi
    exact ⟨row, (hgrows.suffix hp).subset (Page.mem_of_mem_slice hrow), hitem⟩

/-! ### The lists that the index serves -/

/-- The item of a stored transfer: with its own transaction, and some metadata of its token. -/
def TransferShown (chain : NodeChain) (row : StoredTransfer) (item : ApiTokenTransfer) : Prop :=
  ∃ data token, chain.txData? row.pointer = some data ∧ item = buildTokenTransfer row data token

/-- The zipped items, whatever the map of tokens has. -/
theorem forall₂_transferShown {chain : NodeChain} {rows : List StoredTransfer} {data : List TxData}
    {token : StoredTransfer → Option StoredToken}
    (hdata : List.Forall₂ (TxItem chain) (rows.map StoredTransfer.pointer) data) :
    List.Forall₂ (TransferShown chain) rows
      (List.zipWith (fun row d => buildTokenTransfer row d (token row)) rows data) := by
  induction rows generalizing data with
  | nil => exact .nil
  | cons row rows ih =>
    obtain ⟨d, rest, hd, hrest, rfl⟩ := List.forall₂_cons_left_iff.mp hdata
    exact .cons ⟨d, token row, hd, rfl⟩ (ih hrest)

section Index

variable {up : Upstream} {chain : NodeChain} {chainId : UInt64} {next tip : ℕ} {views : ℕ → Db}
  {env : RethEnv} {q : PagedQuery} {p : ℕ} {perPage : Option ℕ}

/-- A page of a list of transactions, whatever is committed between its statements. -/
theorem servePointers_shows (hreference : Reference up chain.toChain next (views 0))
    (hcounts : CountsExact (views 1)) (hnext : next ≤ tip + 1)
    (henv : env.Replays (chain.store tip)) (hgrows : q.feed (views 0) <:+ q.feed (views 1))
    {answer : Envelope TxData}
    (hok : servePointers env views ⟨some p, perPage⟩ q = .ok answer) :
    ShowsPage (q.pointers (q.feed (views 0))) p (clampPerPage perPage) (TxItem chain) answer := by
  obtain ⟨read, hread, hok⟩ := Fetch.bind_eq_ok_iff.mp hok
  obtain ⟨hq, hlimit, hoffset⟩ := fits_of_withConn hread
  have hoffset := saturatingMul_lt_iff.mp hoffset
  obtain ⟨tokens, hread', -⟩ := withConn_read hq hcounts hlimit hoffset
  rw [saturatingMul_eq hoffset, hread'] at hread
  cases hread
  obtain ⟨items, hitems, hok⟩ := Fetch.bind_eq_ok_iff.mp hok
  cases hok
  have hpage := PagedQuery.page_eq hq (views 0) hlimit hoffset
  obtain ⟨data, hdata, hall⟩ := hydratePointers_of_reference hreference hnext henv
    (PagedQuery.points_of_page hpage)
  cases hdata.symm.trans (liftNode_eq_ok_iff.mp hitems)
  rw [q.pointers_slice] at hall
  exact ⟨rfl, rfl, (q.length_pointers _).trans_le hgrows.length_le, hall⟩

/-- A page of a list of transfers, whatever is committed between its statements. -/
theorem serveTransfers_shows (hreference : Reference up chain.toChain next (views 0))
    (hcounts : CountsExact (views 1)) (hnext : next ≤ tip + 1)
    (henv : env.Replays (chain.store tip)) (hgrows : q.feed (views 0) <:+ q.feed (views 1))
    (hpointers : ∀ rows, q.pointers rows = (q.transfers rows).map StoredTransfer.pointer)
    (htransfers : ∀ limit offset rows,
      q.transfers (Page.slice limit offset rows) = Page.slice limit offset (q.transfers rows))
    {answer : Envelope ApiTokenTransfer}
    (hok : serveTransfers env views ⟨some p, perPage⟩ q = .ok answer) :
    ShowsPage (q.transfers (q.feed (views 0))) p (clampPerPage perPage) (TransferShown chain)
      answer := by
  obtain ⟨read, hread, hok⟩ := Fetch.bind_eq_ok_iff.mp hok
  obtain ⟨hq, hlimit, hoffset⟩ := fits_of_withConn hread
  have hoffset := saturatingMul_lt_iff.mp hoffset
  obtain ⟨tokens, hread', -⟩ := withConn_read hq hcounts hlimit hoffset
  rw [saturatingMul_eq hoffset, hread'] at hread
  cases hread
  obtain ⟨items, hitems, hok⟩ := Fetch.bind_eq_ok_iff.mp hok
  cases hok
  have hpage := PagedQuery.page_eq hq (views 0) hlimit hoffset
  obtain ⟨data, hdata, hall⟩ := hydratePointers_of_reference hreference hnext henv
    (PagedQuery.points_of_page hpage)
  rw [hpointers, htransfers] at hdata hall
  have hlength := hall.length_eq
  rw [List.length_map] at hlength
  have hitems' := hydrateTransfers_eq tokens hdata hlength.symm
  rw [← htransfers] at hitems'
  cases hitems'.symm.trans hitems
  have htotal : (q.transfers (q.feed (views 0))).length = (q.feed (views 0)).length := by
    rw [← q.length_pointers, hpointers, List.length_map]
  refine ⟨rfl, rfl, htotal.trans_le hgrows.length_le, ?_⟩
  dsimp only
  rw [htransfers]
  exact forall₂_transferShown hall

end Index

section Walk

variable {up : Upstream} {chain : NodeChain} {chainId : UInt64} {worlds : ℕ → ℕ → World}
  {views : ℕ → ℕ → Db}

theorem Walk.reachable_page {net : Network} (h : Walk net worlds views) (p : ℕ) :
    (exexSystem net (· = File.empty)).Reachable (worlds p 0) := by
  induction p with
  | zero => exact h.reachable
  | succ p ih =>
    obtain ⟨actions, hcount⟩ := h.statement p 0
    obtain ⟨later, hnext⟩ := h.request p
    exact (ih.trans_run hcount).trans_run hnext

theorem Walk.reachable_count {net : Network} (h : Walk net worlds views) (p : ℕ) :
    (exexSystem net (· = File.empty)).Reachable (worlds p 1) := by
  obtain ⟨actions, hcount⟩ := h.statement p 0
  exact (h.reachable_page p).trans_run hcount

/-- The cursor does not move back in a walk. -/
theorem Walk.next_le (h : Walk ⟨up, chain.toChain, chainId⟩ worlds views) (p : ℕ) :
    (views p 0).next ≤ (views p 1).next ∧ (views p 1).next ≤ (views (p + 1) 0).next := by
  obtain ⟨actions, hrun⟩ := h.statement p 0
  obtain ⟨later, hrun'⟩ := h.request p
  have hle := next_le_of_run (h.reachable_page p) hrun
  have hle' := next_le_of_run (h.reachable_count p) hrun'
  rw [h.file, h.file, Db.next_toFile, Db.next_toFile] at hle hle'
  exact ⟨hle, hle'⟩

/-- The page, the count and the next page of a walk see longer and longer prefixes. -/
theorem Walk.feed_suffix (h : Walk ⟨up, chain.toChain, chainId⟩ worlds views) (q : PagedQuery)
    (p : ℕ) : q.feed (views p 0) <:+ q.feed (views p 1) ∧
      q.feed (views p 1) <:+ q.feed (views (p + 1) 0) := by
  obtain ⟨hpage, -⟩ := reference_of_reachable (h.reachable_page p) (h.file p 0)
  obtain ⟨hcount, -⟩ := reference_of_reachable (h.reachable_count p) (h.file p 1)
  obtain ⟨hnext, -⟩ := reference_of_reachable (h.reachable_page (p + 1)) (h.file (p + 1) 0)
  obtain ⟨hle, hle'⟩ := h.next_le p
  exact ⟨q.feed_suffix hpage hcount hle, q.feed_suffix hcount hnext hle'⟩

theorem Walk.grows (h : Walk ⟨up, chain.toChain, chainId⟩ worlds views) (q : PagedQuery) :
    Page.Grows fun p => q.feed (views p 0) := fun p =>
  (h.feed_suffix q p).1.trans (h.feed_suffix q p).2

variable {tips : ℕ → ℕ} {env : ℕ → RethEnv}

/-- A walk through a list of transactions. -/
theorem Walk.pointers (h : Walk ⟨up, chain.toChain, chainId⟩ worlds views)
    (htip : ∀ p, (worlds p 0).tip ≤ tips p) (henv : ∀ p, (env p).Replays (chain.store (tips p)))
    (perPage : Option ℕ) (n : ℕ) (q : PagedQuery)
    (hgrows : Page.Grows fun p => q.pointers (q.feed (views p 0))) :
    WalksThrough n (fun p => servePointers (env p) (views p) ⟨some p, perPage⟩ q)
      (q.pointers (q.feed (views 0 0))) (q.pointers (q.feed (views n 0))) (TxItem chain) := by
  refine walksThrough_of_grows (k := clampPerPage perPage) hgrows (fun p answer hok => ?_) n
  obtain ⟨hpage, hexecuted⟩ := reference_of_reachable (h.reachable_page p) (h.file p 0)
  obtain ⟨hcount, -⟩ := reference_of_reachable (h.reachable_count p) (h.file p 1)
  exact servePointers_shows hpage hcount.txTypeCounts
    (hexecuted.trans (Nat.succ_le_succ (htip p))) (henv p) (h.feed_suffix q p).1 hok

/-- A walk through a list of transfers. -/
theorem Walk.transfers (h : Walk ⟨up, chain.toChain, chainId⟩ worlds views)
    (htip : ∀ p, (worlds p 0).tip ≤ tips p) (henv : ∀ p, (env p).Replays (chain.store (tips p)))
    (perPage : Option ℕ) (n : ℕ) (q : PagedQuery)
    (hgrows : Page.Grows fun p => q.transfers (q.feed (views p 0)))
    (hpointers : ∀ rows, q.pointers rows = (q.transfers rows).map StoredTransfer.pointer)
    (htransfers : ∀ limit offset rows,
      q.transfers (Page.slice limit offset rows) = Page.slice limit offset (q.transfers rows)) :
    WalksThrough n (fun p => serveTransfers (env p) (views p) ⟨some p, perPage⟩ q)
      (q.transfers (q.feed (views 0 0))) (q.transfers (q.feed (views n 0)))
      (TransferShown chain) := by
  refine walksThrough_of_grows (k := clampPerPage perPage) hgrows (fun p answer hok => ?_) n
  obtain ⟨hpage, hexecuted⟩ := reference_of_reachable (h.reachable_page p) (h.file p 0)
  obtain ⟨hcount, -⟩ := reference_of_reachable (h.reachable_count p) (h.file p 1)
  exact serveTransfers_shows hpage hcount.txTypeCounts
    (hexecuted.trans (Nat.succ_le_succ (htip p))) (henv p) (h.feed_suffix q p).1 hpointers
    htransfers hok

/-- **No list of the index misses an item.** A client reads a list that the index serves page by
page, while the node executes blocks, the loop commits them between any two statements, and the
process dies and starts again. Down to a page that is the last, it has been shown an item for every
row that the index had at its first request, and only items for rows that the index has at its last
one. -/
theorem walks_never_miss (hwalk : Walk ⟨up, chain.toChain, chainId⟩ worlds views)
    (htip : ∀ p, (worlds p 0).tip ≤ tips p) (henv : ∀ p, (env p).Replays (chain.store (tips p)))
    (addressFromStr : String → Option Address) (perPage : Option ℕ) (n : ℕ) :
    (∀ s txType, parseTxType s = some txType →
      WalksThrough n (fun p => Api.txsList (env p) (views p) ⟨some p, perPage, some s⟩)
        (typePointers (views 0 0) txType) (typePointers (views n 0) txType) (TxItem chain)) ∧
    ∀ raw address, addressFromStr raw = some address →
      WalksThrough n
        (fun p => Api.addressTxs addressFromStr (env p) (views p) raw ⟨some p, perPage, none⟩)
        (addressPointers (views 0 0) (addrHex address))
        (addressPointers (views n 0) (addrHex address)) (TxItem chain) ∧
      (∀ s txType, parseTxType s = some txType →
        WalksThrough n
          (fun p => Api.addressTxs addressFromStr (env p) (views p) raw ⟨some p, perPage, some s⟩)
          (addressPointersByType (views 0 0) (addrHex address) txType)
          (addressPointersByType (views n 0) (addrHex address) txType) (TxItem chain)) ∧
      WalksThrough n
        (fun p => Api.addressTransfers addressFromStr (env p) (views p) raw ⟨some p, perPage⟩)
        (addressTransferRows (views 0 0) (addrHex address))
        (addressTransferRows (views n 0) (addrHex address)) (TransferShown chain) ∧
      WalksThrough n
        (fun p => Api.tokenTransfers addressFromStr (env p) (views p) raw ⟨some p, perPage⟩)
        (tokenTransferRows (views 0 0) (addrHex address))
        (tokenTransferRows (views n 0) (addrHex address)) (TransferShown chain) := by
  refine ⟨fun s txType hs => ?_, fun raw address haddress => ⟨?_, fun s txType hs => ?_, ?_, ?_⟩⟩
  · have hroute : ∀ p, Api.txsList (env p) (views p) ⟨some p, perPage, some s⟩ =
        servePointers (env p) (views p) ⟨some p, perPage⟩ (.txsByType txType) :=
      fun p => txsList_of_type (parsedType_of_parse rfl hs)
    rw [funext hroute]
    exact hwalk.pointers htip henv perPage n (.txsByType txType) (hwalk.grows (.txsByType txType))
  · have hroute : ∀ p, Api.addressTxs addressFromStr (env p) (views p) raw ⟨some p, perPage, none⟩ =
        servePointers (env p) (views p) ⟨some p, perPage⟩ (.addressTxs (addrHex address)) :=
      fun p => addressTxs_of_none haddress rfl
    rw [funext hroute]
    exact hwalk.pointers htip henv perPage n (.addressTxs (addrHex address))
      (hwalk.grows (.addressTxs (addrHex address)))
  · have hroute : ∀ p,
        Api.addressTxs addressFromStr (env p) (views p) raw ⟨some p, perPage, some s⟩ =
          servePointers (env p) (views p) ⟨some p, perPage⟩
            (.addressTxsByType (addrHex address) txType) :=
      fun p => addressTxs_of_type haddress (parsedType_of_parse rfl hs)
    rw [funext hroute]
    exact hwalk.pointers htip henv perPage n (.addressTxsByType (addrHex address) txType)
      (hwalk.grows (.addressTxsByType (addrHex address) txType))
  · simp only [addressTransfers_eq haddress]
    exact hwalk.transfers htip henv perPage n (.addressTransfers (addrHex address))
      (hwalk.grows (.addressTransfers (addrHex address))) (fun _ => rfl) fun _ _ _ => rfl
  · simp only [tokenTransfers_eq haddress]
    exact hwalk.transfers htip henv perPage n (.tokenTransfers (addrHex address))
      (hwalk.grows (.tokenTransfers (addrHex address))) (fun _ => rfl) fun _ _ _ => rfl

end Walk

/-- Block `2` is executed and announced while the loop waits, and committed. -/
def thirdBlockActions : List WorldAction :=
  List.replicate 2 (.task .advance) ++
    [.node .execute, .node (.send 2 2), .task .advance] ++ bodyActions

/-- One page of the transactions of the sender of all of them, one to a page. -/
def senderPage (db : Db) (p : ℕ) : Except ApiError (Envelope TxData) :=
  Api.addressTxs (fun _ => some 1) (steadyChain.env 2) (fun _ => db) "0x1" ⟨some p, some 1, none⟩

/-- The index before and after block `2`, and the blocks and the total on the pages. -/
theorem exists_senderPages : ∃ w w' db db' first second third,
    (exexSystem steadyNetwork (· = File.empty)).Reachable w ∧
      (exexSystem steadyNetwork (· = File.empty)).run w thirdBlockActions = some w' ∧
      w.file = db.toFile ∧ w'.file = db'.toFile ∧ w.tip ≤ 2 ∧ w'.tip ≤ 2 ∧
      senderPage db 0 = .ok first ∧ senderPage db' 1 = .ok second ∧ senderPage db' 2 = .ok third ∧
      [first, second, third].map (fun a => a.items.map TxData.blockNumber) = [[1], [1], [0]] ∧
      third.ReachesTotal := by
  have hrun : ((exexSystem steadyNetwork (· = File.empty)).run (freshWorld 1)
      (startActions 2 ++ bodyActions ++ bodyActions)).bind (fun w =>
        ((exexSystem steadyNetwork (· = File.empty)).run w thirdBlockActions).bind fun w' =>
          w.file.toDb.bind fun db => w'.file.toDb.bind fun db' =>
            (senderPage db 0).toOption.bind fun first =>
              (senderPage db' 1).toOption.bind fun second =>
                (senderPage db' 2).toOption.map fun third =>
                  ([w.tip, w'.tip, third.total, third.page, third.perPage],
                    [first, second, third].map fun a => a.items.map TxData.blockNumber)) =
        some ([1, 2, 3, 2, 1], [[1], [1], [0]]) := by decide +kernel
  obtain ⟨w, hw, hrun⟩ := Option.bind_eq_some_iff.mp hrun
  obtain ⟨w', hw', hrun⟩ := Option.bind_eq_some_iff.mp hrun
  obtain ⟨db, hdb, hrun⟩ := Option.bind_eq_some_iff.mp hrun
  obtain ⟨db', hdb', hrun⟩ := Option.bind_eq_some_iff.mp hrun
  obtain ⟨first, hfirst, hrun⟩ := Option.bind_eq_some_iff.mp hrun
  obtain ⟨second, hsecond, hrun⟩ := Option.bind_eq_some_iff.mp hrun
  obtain ⟨third, hthird, hrun⟩ := Option.map_eq_some_iff.mp hrun
  obtain ⟨hnumbers, hshown⟩ := Prod.mk.inj hrun
  simp only [List.cons.injEq, and_true] at hnumbers
  obtain ⟨htip, htip', htotal, hpage, hperPage⟩ := hnumbers
  have hok : ∀ {answer : Except ApiError (Envelope TxData)} {a : Envelope TxData},
      answer.toOption = some a → answer = .ok a := fun {answer a} h => by
    cases answer with
    | error e => cases h
    | ok b => exact congrArg Except.ok (Option.some.inj h)
  refine ⟨w, w', db, db', first, second, third,
    (TransitionSystem.Reachable.init (freshWorld_initial (by decide))).trans_run hw, hw',
    File.toDb_eq_some_iff.mp hdb, File.toDb_eq_some_iff.mp hdb', by omega, by omega, hok hfirst,
    hok hsecond, hok hthird, hshown, ?_⟩
  rw [Envelope.ReachesTotal, htotal, hpage, hperPage]

/-- A transaction of block `1` is shown twice, and none is missed: block `2` is committed after the
first of three pages. -/
theorem walks_never_miss_repeat : ∃ (views : ℕ → ℕ → Db) (pages : ℕ → Envelope TxData),
    (∀ p ≤ 2, Api.addressTxs (fun _ => some 1) (steadyChain.env 2) (views p) "0x1"
      ⟨some p, some 1, none⟩ = .ok (pages p)) ∧
    [pages 0, pages 1, pages 2].map (fun a => a.items.map TxData.blockNumber) =
      [[1], [1], [0]] ∧
    ∀ row ∈ addressPointers (views 0 0) (addrHex 1),
      ∃ p ≤ 2, ∃ i ∈ (pages p).items, TxItem steadyChain row i := by
  obtain ⟨w, w', db, db', first, second, third, hw, hrun, hdb, hdb', htip, htip', hfirst, hsecond,
    hthird, hshown, hlast⟩ := exists_senderPages
  have hwalk : Walk steadyNetwork (fun p _ => if p = 0 then w else w')
      (fun p _ => if p = 0 then db else db') := by
    refine ⟨hw, fun p _ => ⟨[], rfl⟩, fun p => ?_, fun p _ => ?_⟩
    · cases p with
      | zero => exact ⟨thirdBlockActions, hrun⟩
      | succ p => exact ⟨[], rfl⟩
    · cases p with
      | zero => exact hdb
      | succ p => exact hdb'
  obtain ⟨-, haddress⟩ := walks_never_miss hwalk
    (fun p => show (if p = 0 then w else w').tip ≤ 2 by split <;> assumption)
    (fun _ => steadyChain.replays_env 2) (fun _ => some 1) (some 1) 2
  have hpages : ∀ p ≤ 2, senderPage (if p = 0 then db else db') p =
      .ok ([first, second, third].getD p third) := fun p hp => by
    match p, hp with
    | 0, _ => exact hfirst
    | 1, _ => exact hsecond
    | 2, _ => exact hthird
  exact ⟨_, fun p => [first, second, third].getD p third, hpages, hshown,
    ((haddress "0x1" 1 rfl).1 _ hpages (.inr hlast)).1⟩

/-! ### The lists that are paged by numbers -/

section Numbers

theorem range_isPrefix {m n : ℕ} (h : m ≤ n) : List.range m <+: List.range n := by
  rw [List.prefix_iff_eq_take, List.length_range, List.take_range, Nat.min_eq_left h]

/-- Newer blocks come in front. -/
theorem reverse_range_suffix {m n : ℕ} (h : m ≤ n) :
    (List.range m).reverse <:+ (List.range n).reverse :=
  List.reverse_suffix.mpr (range_isPrefix h)

theorem NodeChain.latestPointers_suffix (chain : NodeChain) {m n : ℕ} (h : m ≤ n) :
    chain.latestPointers m <:+ chain.latestPointers n := by
  obtain ⟨newer, hnewer⟩ := range_isPrefix (Nat.succ_le_succ h)
  have hentries : chain.entries m <+: chain.entries n := by
    rw [NodeChain.entries, NodeChain.entries, ← hnewer, List.flatMap_append]
    exact List.prefix_append _ _
  exact (List.reverse_suffix.mpr hentries).map _

variable {bs58Of : B256 → String} {hexBytes : Bytes → String} {up : Upstream} {chain : NodeChain}
  {blocks : ℕ → SealedBlock} {headers : List ConsensusHeader} {held : ℕ → ℕ → Bool}
  {tips : ℕ → ℕ} {env : ℕ → RethEnv} {node : ℕ → BlockReader} {consensus : ℕ → ConsensusReader}

/-- **No list of numbers misses an item.** While the node executes blocks and orders outputs between
the requests, the lists of all transactions and of the blocks are walked through. The list of
outputs skips those whose pack is missing, so there a page that is not full need not be the last:
down to a page that reaches the total, it shows every output of its first request whose pack is
there all the time. -/
theorem number_walks_never_miss (bs58Of : B256 → String) (hexBytes : Bytes → String)
    (up : Upstream) (htips : Monotone tips) (henv : ∀ p, (env p).Serves chain (tips p))
    (hnode : ∀ p, (node p).Serves chain.toChain blocks (tips p))
    (hlatest : Monotone fun p => (consensus p).latestConsensusNumber)
    (hconsensus : ∀ p, (consensus p).Serves headers (held p)) (views : ℕ → ℕ → Db)
    (perPage : Option ℕ) (n : ℕ) :
    WalksThrough n (fun p => Api.txsList (env p) (views p) ⟨some p, perPage, none⟩)
      (chain.latestPointers (tips 0)) (chain.latestPointers (tips n)) (TxItem chain) ∧
    WalksThrough n (fun p => Api.blocksList bs58Of hexBytes up (node p) ⟨some p, perPage⟩)
      (List.range (tips 0 + 1)).reverse (List.range (tips n + 1)).reverse
      (fun m item => item = buildApiBlock bs58Of hexBytes up (blocks m)) ∧
    ∀ pages : ℕ → Envelope ApiConsensusHeader,
      (∀ p ≤ n, Api.consensusBlocksList bs58Of (consensus p) (fun _ => views p 0)
        ⟨some p, perPage⟩ = .ok (pages p)) → (pages n).ReachesTotal →
      ∀ j header, headers[j]? = some header → j < (consensus 0).latestConsensusNumber →
        (∀ p ≤ n, held p header.leaderEpoch = true) →
        ∃ p ≤ n, consensusRow bs58Of (views p 0) header ∈ (pages p).items := by
  refine ⟨?_, ?_, fun pages hpages hlast j header hget hj hheld => ?_⟩
  · refine walksThrough_of_grows (k := clampPerPage perPage)
      (fun p => chain.latestPointers_suffix (htips (Nat.le_succ p))) (fun p answer hok => ?_) n
    have hanswers : Answers (chain.latestPointers (tips p)) p (clampPerPage perPage) (TxItem chain)
        (Api.txsList (env p) (views p) ⟨some p, perPage, none⟩) :=
      txsList_answers (henv p) (some p) perPage
    obtain ⟨items, hitems, hall⟩ := hanswers
    cases hok.symm.trans hitems
    exact ⟨rfl, rfl, Nat.le_refl _, hall⟩
  · refine walksThrough_of_grows (k := clampPerPage perPage)
      (fun p => reverse_range_suffix (Nat.succ_le_succ (htips (Nat.le_succ p))))
      (fun p answer hok => ?_) n
    have hanswer : Api.blocksList bs58Of hexBytes up (node p) ⟨some p, perPage⟩ = _ :=
      blocksList_eq (hnode p) _
    cases hok.symm.trans hanswer
    refine ⟨rfl, rfl, ?_, ?_⟩
    · rw [List.length_reverse, List.length_range]
    · rw [List.map_map, List.forall₂_map_right_iff]
      exact List.forall₂_same.mpr fun _ _ => rfl
  · have hpage : ∀ p ≤ n, pages p = _ := fun p hp =>
      Except.ok.inj ((hpages p hp).symm.trans
        (consensusBlocksList_eq bs58Of (views p 0) (hconsensus p) ⟨some p, perPage⟩))
    have hgrows : Page.Grows fun p => storedNumbers (consensus p).latestConsensusNumber :=
      fun p => (reverse_range_suffix (hlatest (Nat.le_succ p))).map _
    have hend : Page.Ends (clampPerPage perPage) n
        (storedNumbers (consensus n).latestConsensusNumber) := by
      rw [hpage n le_rfl] at hlast
      refine .inr ?_
      rw [storedNumbers, List.length_map, List.length_reverse, List.length_range]
      exact hlast
    have hstored : j + 1 ∈ storedNumbers (consensus 0).latestConsensusNumber := by
      rw [mem_storedNumbers, consensusNumberStored]
      simp only [Bool.and_eq_true, decide_eq_true_eq]
      omega
    obtain ⟨p, hp, hmem⟩ := hgrows.exists_page hend hstored
    refine ⟨p, hp, ?_⟩
    rw [hpage p hp]
    refine List.mem_map_of_mem (List.mem_filterMap.mpr ⟨j + 1, hmem, ?_⟩)
    rw [heldHeader, Nat.add_sub_cancel, hget, Option.filter_some, if_pos (hheld p hp)]

end Numbers

/-- Block `1` is shown twice, and none is missed: block `2` is executed after the first of three
pages. -/
theorem number_walks_never_miss_repeat : ∃ pages : ℕ → Envelope ApiBlock,
    (∀ p ≤ 2, Api.blocksList (fun _ => "") (fun _ => "") plainUpstream
      (pairedNode (if p = 0 then 1 else 2)) ⟨some p, some 1⟩ = .ok (pages p)) ∧
    [pages 0, pages 1, pages 2].map (fun a => a.items.map ApiBlock.number) = [[1], [1], [0]] ∧
    ∀ m ∈ [1, 0], ∃ p ≤ 2, ∃ i ∈ (pages p).items,
      i = buildApiBlock (fun _ => "") (fun _ => "") plainUpstream (pairedBlock m) := by
  have htips : Monotone fun p : ℕ => if p = 0 then 1 else 2 := fun p p' hle => by
    dsimp only
    split <;> split <;> omega
  have hserves : ∀ p : ℕ, (pairedChain.env (if p = 0 then 1 else 2)).Serves pairedChain
      (if p = 0 then 1 else 2) := fun p => pairedChain.serves_env _ (by split <;> decide)
  have hnode : ∀ p : ℕ, (pairedNode (if p = 0 then 1 else 2)).Serves pairedChain.toChain pairedBlock
      (if p = 0 then 1 else 2) := fun p => serves_pairedNode (by split <;> decide)
  obtain ⟨-, hblocks, -⟩ := number_walks_never_miss (fun _ => "") (fun _ => "") plainUpstream htips
    hserves hnode (fun _ _ _ => Nat.le_refl _) (fun _ => serves_pairedReader)
    (fun _ _ => freshDb 7) (some 1) 2
  have hpages := fun p => @blocksList_eq (fun _ => "") (fun _ => "") plainUpstream _ _ _ _ (hnode p)
    ⟨some p, some 1⟩
  exact ⟨_, fun p _ => hpages p, by decide +kernel,
    (hblocks _ (fun p _ => hpages p) (.inr (by show 3 ≤ (2 + 1) * 1; decide))).1⟩

end ExplorerIndexer
