import ExplorerIndexer.TxLinks

/-!
# Replicas

Several nodes of one chain run an indexer each. Their files began differently, one empty and one
with tables of an older version; they were killed at other moments, saw other notifications, and
replayed other blocks. None of this can be told from what they answer: a list that the index serves
depends only on the cursor, but for the metadata of tokens, which each indexer fetches at its own
time.

## Main definitions

* `Replica` — an indexer that has opened its file, after any history

## Main results

* `servePointers_eq_ok_iff`, `serveTransfers_bare_iff` — an answer as a function of the feed
* `replicas_agree` — replicas with the same cursor answer alike
-/

namespace ExplorerIndexer

/-- An indexer of a chain that has opened its file, after any history that began with a file whose
tables an open drops or creates. -/
structure Replica (up : Upstream) (chain : NodeChain) (w : World) (db : Db) : Prop where
  history : ∃ chainId start, (∀ f, start f → Rebuildable f) ∧
    (exexSystem ⟨up, chain.toChain, chainId⟩ start).Reachable w
  opened : ∃ p, w.process = some p ∧ p.Opened
  file : w.file = db.toFile

/-- A list of transfers without what the metadata of tokens adds. -/
def Envelope.bare (answer : Envelope ApiTokenTransfer) : Envelope ApiTokenTransfer :=
  { answer with items := answer.items.map ApiTokenTransfer.bare }

/-- The page of a feed with its length, when each row has its item. -/
def Envelope.ofFeed {ρ α : Type} (item : ρ → Option α) (feed : List ρ) (query : PageQuery) :
    Envelope α :=
  let page := query.page.getD 0
  let perPage := clampPerPage query.perPage
  ⟨(Page.slice perPage (page * perPage) feed).filterMap item, feed.length, page, perPage⟩

section Replica

variable {up : Upstream} {chain : NodeChain} {w w' : World} {db db' : Db}

/-- The file of a replica holds the rows of the blocks up to its cursor. -/
theorem Replica.reference (h : Replica up chain w db) :
    Reference up chain.toChain db.next db ∧ db.next ≤ w.tip + 1 := by
  obtain ⟨chainId, start, hstart, hw⟩ := h.history
  obtain ⟨p, hp, hopened⟩ := h.opened
  have hsound := sound_of_reachable (fun f hf => Or.inl (hstart f hf)) hw
  obtain ⟨db', hwhole⟩ := (started_of_reachable hstart hw).whole
    ((hsound.process p hp).intact hopened)
  cases Db.toFile_injective (h.file.symm.trans hwhole.file)
  exact ⟨hwhole.reference, hwhole.executed⟩

/-- **A feed depends only on the cursor.** -/
theorem feed_eq_of_reference {next : ℕ} (h : Reference up chain.toChain next db)
    (h' : Reference up chain.toChain next db') (q : PagedQuery) : q.feed db = q.feed db' :=
  (q.feed_suffix h h' le_rfl).eq_of_length
    (Nat.le_antisymm (q.feed_suffix h h' le_rfl).length_le (q.feed_suffix h' h le_rfl).length_le)

/-- The ranges of outputs depend only on the cursor. -/
theorem consensusRangeByDigest_congr {next : ℕ} (h : Reference up chain.toChain next db)
    (h' : Reference up chain.toChain next db') (digest : B256) :
    consensusRangeByDigest db digest = consensusRangeByDigest db' digest := by
  have hrows : ∀ row, row ∈ db.consensusBlocks.rows ↔ row ∈ db'.consensusBlocks.rows :=
    fun row => (h.consensusBlocks row).trans (h'.consensusBlocks row).symm
  rw [consensusRangeByDigest, consensusRangeByDigest, Table.find?_congr hrows]

end Replica

/-! ### Answers as functions of feeds -/

section Answer

variable {up : Upstream} {chain : NodeChain} {db : Db} {next tip : ℕ} {env : RethEnv}
  {query : PageQuery} {q : PagedQuery}

/-- Items that a relation gives by a function are the values of the function. -/
theorem eq_filterMap_of_forall₂ {α β : Type} {f : α → Option β} {l : List α} {l' : List β}
    (h : List.Forall₂ (fun a b => f a = some b) l l') : l' = l.filterMap f := by
  induction h with
  | nil => rfl
  | cons hab _ ih => rw [List.filterMap_cons_some hab, ← ih]

/-- **What a list of transactions answers**, as a function of its feed. -/
theorem servePointers_eq_ok_iff (hreference : Reference up chain.toChain next db)
    (hnext : next ≤ tip + 1) (henv : env.Replays (chain.store tip)) {answer : Envelope TxData} :
    servePointers env (fun _ => db) query q = .ok answer ↔
      (q.Fits ∧ query.page.getD 0 * clampPerPage query.perPage < 2 ^ 63) ∧
        answer = .ofFeed chain.txData? (q.pointers (q.feed db)) query := by
  have hanswers := @servePointers_answers_iff up chain db next tip env query q hreference hnext henv
  constructor
  · intro hok
    obtain ⟨read, hread, -⟩ := Fetch.bind_eq_ok_iff.mp hok
    obtain ⟨hq, -, hoffset⟩ := fits_of_withConn hread
    have hbound := saturatingMul_lt_iff.mp hoffset
    obtain ⟨items, hitems, hall⟩ := hanswers.mpr ⟨hq, hbound⟩
    rw [eq_filterMap_of_forall₂ hall] at hitems
    exact ⟨⟨hq, hbound⟩, Except.ok.inj (hok.symm.trans hitems)⟩
  · rintro ⟨hbound, rfl⟩
    obtain ⟨items, hitems, hall⟩ := hanswers.mpr hbound
    rwa [eq_filterMap_of_forall₂ hall] at hitems

/-- The item of a stored transfer, without the metadata of its token. -/
def bareTransfer (chain : NodeChain) (row : StoredTransfer) : Option ApiTokenTransfer :=
  (chain.txData? row.pointer).map fun data => (buildTokenTransfer row data none).bare

/-- **What a list of transfers answers**, as a function of its feed. -/
theorem serveTransfers_bare_iff (hreference : Reference up chain.toChain next db)
    (hnext : next ≤ tip + 1) (henv : env.Replays (chain.store tip))
    (hpointers : ∀ rows, q.pointers rows = (q.transfers rows).map StoredTransfer.pointer)
    (htransfers : ∀ limit offset rows,
      q.transfers (Page.slice limit offset rows) = Page.slice limit offset (q.transfers rows))
    {bare : Envelope ApiTokenTransfer} :
    (∃ answer, serveTransfers env (fun _ => db) query q = .ok answer ∧ answer.bare = bare) ↔
      (q.Fits ∧ query.page.getD 0 * clampPerPage query.perPage < 2 ^ 63) ∧
        bare = .ofFeed (bareTransfer chain) (q.transfers (q.feed db)) query := by
  have hanswers := @serveTransfers_answers_iff up chain db next tip env query q hreference hnext
    henv hpointers htransfers
  have hbare : ∀ {rows items}, List.Forall₂ (TransferItem chain db) rows items →
      items.map ApiTokenTransfer.bare = rows.filterMap (bareTransfer chain) := fun hall => by
    refine eq_filterMap_of_forall₂ (List.forall₂_map_right_iff.mpr (hall.imp fun row item h => ?_))
    obtain ⟨data, hdata, rfl⟩ := h
    rw [bareTransfer, hdata]
    rfl
  constructor
  · rintro ⟨answer, hok, rfl⟩
    obtain ⟨read, hread, -⟩ := Fetch.bind_eq_ok_iff.mp hok
    obtain ⟨hq, -, hoffset⟩ := fits_of_withConn hread
    have hbound := saturatingMul_lt_iff.mp hoffset
    obtain ⟨items, hitems, hall⟩ := hanswers.mpr ⟨hq, hbound⟩
    cases hok.symm.trans hitems
    refine ⟨⟨hq, hbound⟩, ?_⟩
    rw [Envelope.bare, hbare hall]
    rfl
  · rintro ⟨hbound, rfl⟩
    obtain ⟨items, hitems, hall⟩ := hanswers.mpr hbound
    refine ⟨_, hitems, ?_⟩
    rw [Envelope.bare, hbare hall]
    rfl

end Answer

/-! ### Agreement -/

section Agree

variable {up : Upstream} {chain : NodeChain} {w w' : World} {db db' : Db} {tip tip' : ℕ}
  {env env' : RethEnv}

/-- **Replicas with the same cursor answer alike.** Take two indexers of one chain, each after any
history of its own, on nodes that have executed different prefixes. At the same cursor every list of
transactions that the index serves is the same on both, every page of it with every page size, and
is refused by both or by none; every list of transfers is the same but for the metadata of tokens;
and so are the counts of addresses and the block ranges of consensus outputs. -/
theorem replicas_agree (h : Replica up chain w db) (h' : Replica up chain w' db')
    (hcursor : w.file.cursor = w'.file.cursor) (htip : w.tip ≤ tip) (htip' : w'.tip ≤ tip')
    (henv : env.Replays (chain.store tip)) (henv' : env'.Replays (chain.store tip'))
    (addressFromStr : String → Option Address) :
    (∀ page perPage s answer,
      Api.txsList env (fun _ => db) ⟨page, perPage, some s⟩ = .ok answer ↔
        Api.txsList env' (fun _ => db') ⟨page, perPage, some s⟩ = .ok answer) ∧
    (∀ raw query answer, Api.addressTxs addressFromStr env (fun _ => db) raw query = .ok answer ↔
      Api.addressTxs addressFromStr env' (fun _ => db') raw query = .ok answer) ∧
    (∀ raw query bare,
      (∃ answer, Api.addressTransfers addressFromStr env (fun _ => db) raw query = .ok answer ∧
          answer.bare = bare) ↔
        ∃ answer, Api.addressTransfers addressFromStr env' (fun _ => db') raw query = .ok answer ∧
          answer.bare = bare) ∧
    (∀ raw query bare,
      (∃ answer, Api.tokenTransfers addressFromStr env (fun _ => db) raw query = .ok answer ∧
          answer.bare = bare) ↔
        ∃ answer, Api.tokenTransfers addressFromStr env' (fun _ => db') raw query = .ok answer ∧
          answer.bare = bare) ∧
    (∀ address, countAddressTxs db address = countAddressTxs db' address) ∧
    ∀ digests, consensusRangesByDigests db digests = consensusRangesByDigests db' digests := by
  obtain ⟨hreference, hexecuted⟩ := h.reference
  obtain ⟨hreference', hexecuted'⟩ := h'.reference
  have hsame : db.next = db'.next := by
    rw [h.file, h'.file, Db.cursor_toFile, Db.cursor_toFile] at hcursor
    rw [Db.next, Db.next, hcursor]
  have hnext := hexecuted.trans (Nat.succ_le_succ htip)
  have hnext' := hexecuted'.trans (Nat.succ_le_succ htip')
  rw [← hsame] at hreference' hnext'
  have hfeed : ∀ q : PagedQuery, q.feed db = q.feed db' :=
    feed_eq_of_reference hreference hreference'
  -- the two kinds of lists
  have hpointers : ∀ query q answer, servePointers env (fun _ => db) query q = .ok answer ↔
      servePointers env' (fun _ => db') query q = .ok answer := fun query q answer => by
    rw [servePointers_eq_ok_iff hreference hnext henv, servePointers_eq_ok_iff hreference' hnext'
      henv', hfeed]
  have htransfers : ∀ query (q : PagedQuery) bare,
      (∀ rows, q.pointers rows = (q.transfers rows).map StoredTransfer.pointer) →
      (∀ limit offset rows,
        q.transfers (Page.slice limit offset rows) = Page.slice limit offset (q.transfers rows)) →
      ((∃ answer, serveTransfers env (fun _ => db) query q = .ok answer ∧ answer.bare = bare) ↔
        ∃ answer, serveTransfers env' (fun _ => db') query q = .ok answer ∧
          answer.bare = bare) := fun query q bare hp ht => by
    rw [serveTransfers_bare_iff hreference hnext henv hp ht,
      serveTransfers_bare_iff hreference' hnext' henv' hp ht, hfeed]
  refine ⟨fun page perPage s answer => ?_, fun raw query answer => ?_, fun raw query bare => ?_,
    fun raw query bare => ?_, fun address => ?_, fun digests => ?_⟩
  · cases hs : parseTxType s with
    | none =>
      obtain ⟨message, hparsed⟩ := @parsedType_of_unknown ⟨page, perPage, some s⟩ s rfl hs
      rw [Api.txsList, Api.txsList, hparsed]
      exact Iff.rfl
    | some txType =>
      have hparsed : TxsQuery.parsedType ⟨page, perPage, some s⟩ = .ok (some txType) :=
        parsedType_of_parse rfl hs
      rw [txsList_of_type hparsed, txsList_of_type hparsed]
      exact hpointers _ _ _
  · rw [Api.addressTxs, Api.addressTxs]
    cases haddress : parseAddress addressFromStr raw with
    | error e => exact Iff.rfl
    | ok address =>
      cases htype : query.parsedType with
      | error e => exact Iff.rfl
      | ok txType =>
        cases txType with
        | none | some => exact hpointers _ _ _
  · rw [Api.addressTransfers, Api.addressTransfers]
    cases haddress : parseAddress addressFromStr raw with
    | error e => exact Iff.rfl
    | ok address => exact htransfers _ _ _ (fun _ => rfl) fun _ _ _ => rfl
  · rw [Api.tokenTransfers, Api.tokenTransfers]
    cases haddress : parseAddress addressFromStr raw with
    | error e => exact Iff.rfl
    | ok address => exact htransfers _ _ _ (fun _ => rfl) fun _ _ _ => rfl
  · have hlength := congrArg List.length (hfeed (.addressTxs address))
    exact (length_addressPointers db address).symm.trans
      (hlength.trans (length_addressPointers db' address))
  · simp only [consensusRangesByDigests, consensusRangeByDigest_congr hreference hreference']

end Agree

/-- A node at a block, and a file with a table of the first version. -/
def leftoverWorld (tip : ℕ) : World := { freshWorld tip with file := leftoverFile }

/-- From process start to the replay of four blocks. -/
def replayActions : List WorldAction :=
  startActions 4 ++ bodyActions ++ bodyActions ++ bodyActions ++ bodyActions

theorem rebuildable_leftover : ∀ f, f = leftoverFile → Rebuildable f := by
  rintro f rfl
  exact Or.inl (Or.inr (Or.inl rfl))

/-- An indexer that was killed twice and lost a notification, and one that began with an old file,
list the same transactions of a type. -/
theorem replicas_agree_crash : ∃ db db' answer,
    (∃ w, (exexSystem steadyNetwork (· = File.empty)).run (freshWorld 0) crashActions = some w ∧
      w.file = db.toFile) ∧
    (∃ w, (exexSystem steadyNetwork (· = leftoverFile)).run (leftoverWorld 3) replayActions =
      some w ∧ w.file = db'.toFile) ∧
    answer.items.map TxData.blockNumber = [1] ∧
    Api.txsList (steadyChain.env 3) (fun _ => db) ⟨none, none, some "eip2930"⟩ = .ok answer ∧
    Api.txsList (steadyChain.env 3) (fun _ => db') ⟨none, none, some "eip2930"⟩ = .ok answer := by
  have hrun : ((exexSystem steadyNetwork (· = File.empty)).run (freshWorld 0) crashActions).bind
      (fun w => w.process.bind fun p => w.file.toDb.map fun db => (w.tip, w.file.cursor,
        p.pc.running, (Api.txsList (steadyChain.env 3) (fun _ => db)
          ⟨none, none, some "eip2930"⟩).map fun answer => answer.items.map TxData.blockNumber)) =
      some (3, some 3, true, .ok [1]) := by decide +kernel
  have hrun' : ((exexSystem steadyNetwork (· = leftoverFile)).run (leftoverWorld 3)
      replayActions).bind (fun w => w.process.bind fun p => w.file.toDb.map fun db =>
        (w.tip, w.file.cursor, p.pc.running)) = some (3, some 3, true) := by decide +kernel
  obtain ⟨w, hw, hrun⟩ := Option.bind_eq_some_iff.mp hrun
  obtain ⟨p, hp, hrun⟩ := Option.bind_eq_some_iff.mp hrun
  obtain ⟨db, hdb, hrun⟩ := Option.map_eq_some_iff.mp hrun
  obtain ⟨w', hw', hrun'⟩ := Option.bind_eq_some_iff.mp hrun'
  obtain ⟨p', hp', hrun'⟩ := Option.bind_eq_some_iff.mp hrun'
  obtain ⟨db', hdb', hrun'⟩ := Option.map_eq_some_iff.mp hrun'
  simp only [Prod.mk.injEq] at hrun hrun'
  obtain ⟨htip, hcursor, hrunning, hlist⟩ := hrun
  obtain ⟨htip', hcursor', hrunning'⟩ := hrun'
  obtain ⟨answer, hanswer, hnumbers⟩ := Fetch.map_eq_ok_iff.mp hlist
  have hdb := File.toDb_eq_some_iff.mp hdb
  have hdb' := File.toDb_eq_some_iff.mp hdb'
  have hfirst : Replica plainUpstream steadyChain w db :=
    ⟨⟨7, _, rebuildable_empty,
      (TransitionSystem.Reachable.init (freshWorld_initial (by decide))).trans_run hw⟩,
      ⟨p, hp, Or.inl hrunning⟩, hdb⟩
  have hinitial : (leftoverWorld 3).Initial (· = leftoverFile) :=
    ⟨by decide, Nat.zero_le _, rfl, rfl, rfl, rfl, rfl⟩
  have hsecond : Replica plainUpstream steadyChain w' db' :=
    ⟨⟨7, _, rebuildable_leftover, (TransitionSystem.Reachable.init hinitial).trans_run hw'⟩,
      ⟨p', hp', Or.inl hrunning'⟩, hdb'⟩
  have hagree := (replicas_agree hfirst hsecond (hcursor.trans hcursor'.symm) htip.le htip'.le
    (steadyChain.replays_env 3) (steadyChain.replays_env 3) fun _ => none).1
  exact ⟨db, db', answer, ⟨w, hw, hdb⟩, ⟨w', hw', hdb'⟩, hnumbers, hanswer,
    (hagree none none "eip2930" answer).mp hanswer⟩

end ExplorerIndexer
