import ExplorerIndexer.Api
import ExplorerIndexer.Hydration
import ExplorerIndexer.TokenCache

/-!
# The transfer fields of a transaction

`/txs/{hash}` carries the transfers of the transaction when the status says that its block is
indexed. The status is an atomic that the loop updates after each commit; the rows are read by
several statements later on. Between any two of these steps the loop may commit blocks, and the
process may be restarted.

## Main definitions

* `Later` — the views of statements that run after a moment of the system

## Main results

* `txTransferRows_eq` — what the index holds of a transaction below the cursor
* `next_le_of_run` — the cursor never moves back
* `transfer_fields_whole` — the transfer fields are whole or absent
-/

namespace ExplorerIndexer

/-! ### The transfers of an indexed transaction -/

theorem pairwise_txTransfers (number : ℕ) (receipts : List Receipt) (i : ℕ) :
    ((txTransfers number receipts i).map StoredTransfer.ofRow).Pairwise
      fun r s => r.logIndex < s.logIndex := by
  rw [txTransfers]
  rw [List.pairwise_map]
  cases receipts[i]? with
  | none => exact .nil
  | some receipt =>
    rw [List.pairwise_filterMap]
    refine (Page.pairwise_zipIdx receipt.logs).imp fun {e f} hlt r hr s hs => ?_
    rwa [StoredTransfer.ofRow, StoredTransfer.ofRow, (token_decodeTransferLog hr).2.2.1,
      (token_decodeTransferLog hs).2.2.1]

/-- **What the index holds of a transaction below the cursor**: the transfers of its receipt, in log
order. -/
theorem txTransferRows_eq {up : Upstream} {chain : Chain} {next : ℕ} {db : Db}
    (hreference : Reference up chain next db) {n i : ℕ} (hn : n < next)
    (htx : (chain.tx? n i).isSome) :
    txTransferRows db n i = (txTransfers n (chain.receipts n) i).map .ofRow := by
  have hpairwise := pairwise_txTransfers n (chain.receipts n) i
  refine Page.insertionSort_eq_of_perm emissionOrder (fun r hr s hs hrs hsr => ?_) ?_
    (hpairwise.imp Nat.le_of_lt)
  · simp only [List.mem_filter, decide_eq_true_eq] at hr hs
    refine db.tokenTransfers.eq_of_key_eq hr.1 hs.1 ?_
    rw [StoredTransfer.key, StoredTransfer.key, hr.2.1, hr.2.2, hs.2.1, hs.2.2,
      Nat.le_antisymm hrs hsr]
  · refine (List.perm_ext_iff_of_nodup (db.tokenTransfers.nodup_rows.filter _)
      (hpairwise.imp fun hlt heq => ?_)).mpr fun row => ?_
    · rw [heq] at hlt
      exact lt_irrefl _ hlt
    · simp only [List.mem_filter, decide_eq_true_eq, mem_txTransfers, hreference.tokenTransfers]
      constructor
      · rintro ⟨⟨n', -, i', j, receipt, log, f, t, -, hreceipt, h⟩, hposition⟩
        obtain ⟨hlog, htopics, hlen, rfl⟩ := h
        obtain ⟨rfl, rfl⟩ := hposition
        exact ⟨j, receipt, log, f, t, hreceipt, hlog, htopics, hlen, rfl⟩
      · rintro ⟨j, receipt, log, f, t, hreceipt, hlog, htopics, hlen, rfl⟩
        exact ⟨⟨n, hn, i, j, receipt, log, f, t, htx, hreceipt, hlog, htopics, hlen, rfl⟩,
          rfl, rfl⟩

/-! ### The cursor never moves back -/

section Run

variable {net : Network} {start : File → Prop} {w w' : World}

/-- A step adds at most one block to the committed ones. -/
theorem committed_prefix_step (h : World.Step net w w') : w.committed <+: w'.committed := by
  cases h with
  | task hp h =>
    cases h with
    | body hpc hdb h =>
      dsimp only
      split
      · exact List.prefix_append _ _
      · exact List.prefix_rfl
    | _ => exact List.prefix_rfl
  | _ => exact List.prefix_rfl

theorem committed_prefix_run {actions : List WorldAction}
    (hrun : (exexSystem net start).run w actions = some w') : w.committed <+: w'.committed :=
  (exexSystem net start).run_relation (P := fun _ => True) (R := fun w w' =>
      w.committed <+: w'.committed) (fun _ => List.prefix_rfl) (fun _ _ _ => List.IsPrefix.trans)
    (fun _ _ _ _ _ => trivial) (fun _ _ _ _ h => committed_prefix_step (World.step_spec h)) hrun
    trivial

/-- Every committed block is below the next one, and there are no others. -/
theorem committed_of_reachable (hw : (exexSystem net (· = File.empty)).Reachable w) :
    w.committed = List.range w.file.next := by
  rcases started_of_reachable rebuildable_empty hw with ⟨-, hvacant, hcommitted, -⟩ | ⟨db, h⟩
  · have hcursor := (hvacant fun f hf => hf ▸ vacant_empty).cursor
    rw [hcommitted, File.next, hcursor]
    rfl
  · rw [h.committed, h.file, Db.next_toFile]

/-- **The cursor never moves back.** -/
theorem next_le_of_run (hw : (exexSystem net (· = File.empty)).Reachable w)
    {actions : List WorldAction}
    (hrun : (exexSystem net (· = File.empty)).run w actions = some w') :
    w.file.next ≤ w'.file.next := by
  have hlength := (committed_prefix_run hrun).length_le
  rwa [committed_of_reachable hw, committed_of_reachable (hw.trans_run hrun), List.length_range,
    List.length_range] at hlength

/-- The status counts committed blocks only. -/
theorem lastIndexed_lt_next (hw : (exexSystem net (· = File.empty)).Reachable w) {p : Process}
    (hp : w.process = some p) {c : ℕ} (hc : p.status.lastIndexed = some c) : c < w.file.next := by
  have hsound := sound_of_reachable (fun f hf => Or.inl (rebuildable_empty f hf)) hw
  have hindexed := (hsound.process p hp).indexed
  rw [IndexerStatus.lastIndexed_eq_some] at hc
  omega

/-- The status never counts more than the cursor. -/
theorem lastIndexed_le_cursor (hw : (exexSystem net (· = File.empty)).Reachable w) {p : Process}
    (hp : w.process = some p) {c : ℕ} (hc : p.status.lastIndexed = some c) :
    ∃ cursor, w.file.cursor = some cursor ∧ c ≤ cursor := by
  have hlt := lastIndexed_lt_next hw hp hc
  rw [File.next] at hlt
  cases hcursor : w.file.cursor with
  | none => simp [hcursor] at hlt
  | some cursor =>
    rw [hcursor] at hlt
    exact ⟨cursor, rfl, Nat.le_of_lt_succ hlt⟩

/-- The views of the statements of a request, after the moment at which its process is in `w`: any
steps of the system come before each of them. -/
def Later (net : Network) (w : World) (views : ℕ → Db) : Prop :=
  ∃ worlds : ℕ → World, worlds 0 = w ∧ ∀ k,
    (∃ actions, (exexSystem net (· = File.empty)).run (worlds k) actions = some (worlds (k + 1))) ∧
      (worlds (k + 1)).file = (views k).toFile

/-- The views are of reachable states, with cursors that are no lower. -/
theorem Later.view {views : ℕ → Db} (h : Later net w views)
    (hw : (exexSystem net (· = File.empty)).Reachable w) (k : ℕ) :
    ∃ v, (exexSystem net (· = File.empty)).Reachable v ∧ v.file = (views k).toFile ∧
      w.file.next ≤ (views k).next := by
  obtain ⟨worlds, rfl, hstep⟩ := h
  suffices hreach : ∀ k, (exexSystem net (· = File.empty)).Reachable (worlds k) ∧
      (worlds 0).file.next ≤ (worlds k).file.next by
    obtain ⟨hreachable, hle⟩ := hreach (k + 1)
    refine ⟨_, hreachable, (hstep k).2, ?_⟩
    rwa [(hstep k).2, Db.next_toFile] at hle
  intro k
  induction k with
  | zero => exact ⟨hw, le_rfl⟩
  | succ k ih =>
    obtain ⟨actions, hrun⟩ := (hstep k).1
    exact ⟨ih.1.trans_run hrun, ih.2.trans (next_le_of_run ih.1 hrun)⟩

end Run

/-! ### The detail route -/

/-- The node reads a mined transaction with its position. -/
def RethEnv.ReadsMined (env : RethEnv) (chain : Chain) : Prop :=
  ∀ hash sender tx position, env.transactionByHashWithMeta hash =
      .ok (some (sender, tx, position)) →
    chain.tx? position.blockNumber position.index = some (sender, tx)

theorem tx_of_txByHash {env : RethEnv} {chain : Chain} (henv : env.ReadsMined chain) {hash : B256}
    {data : TxData} (h : txByHash env hash = .ok (some data)) :
    chain.tx? data.blockNumber data.txIndex = some (data.sender, data.tx) := by
  obtain ⟨read, hread, h⟩ := Fetch.bind_eq_ok_iff.mp h
  cases read with
  | none => cases h
  | some entry =>
    obtain ⟨sender, tx, position⟩ := entry
    obtain ⟨receipt, -, h⟩ := Fetch.bind_eq_ok_iff.mp h
    cases receipt with
    | none => cases h
    | some receipt =>
      cases h
      exact henv _ _ _ _ hread

/-- What a response of the detail route comes from. -/
theorem txByHash_eq_ok {hashFromStr : String → Option B256} {env : RethEnv} {views : ℕ → Db}
    {status : IndexerStatus} {raw : String} {response : Api.TxDetail}
    (h : Api.txByHash hashFromStr env views status raw = .ok response) :
    (∃ hash, txByHash env hash = .ok (some response.data)) ∧
      if response.data.blockNumber ≤ status.lastIndexed.getD 0 then
        ∃ items count, txTransferPage views response.data MAX_PER_PAGE 0 = .ok (items, count) ∧
          response.tokenTransfers = some items ∧ response.tokenTransferCount = some count
      else response.tokenTransfers = none ∧ response.tokenTransferCount = none := by
  obtain ⟨hash, -, h⟩ := Fetch.bind_eq_ok_iff.mp h
  obtain ⟨read, hread, h⟩ := Fetch.bind_eq_ok_iff.mp h
  cases read with
  | none => cases h
  | some data =>
    dsimp only at h
    split at h
    · next hle =>
      obtain ⟨⟨items, count⟩, hpage, h⟩ := Fetch.bind_eq_ok_iff.mp h
      cases h
      exact ⟨⟨hash, liftNode_eq_ok_iff.mp hread⟩, by
        rw [if_pos hle]; exact ⟨items, count, hpage, rfl, rfl⟩⟩
    · next hlt =>
      cases h
      exact ⟨⟨hash, liftNode_eq_ok_iff.mp hread⟩, by rw [if_neg hlt]; exact ⟨rfl, rfl⟩⟩

section Detail

variable {up : Upstream} {chain : NodeChain} {chainId : UInt64} {w : World} {p : Process}
  {views : ℕ → Db} {env : RethEnv}

/-- What the statements read of a transaction whose block the status counts. -/
theorem txTransferPage_of_later
    (hw : (exexSystem ⟨up, chain.toChain, chainId⟩ (· = File.empty)).Reachable w)
    (hviews : Later ⟨up, chain.toChain, chainId⟩ w views) {data : TxData}
    (htx : (chain.tx? data.blockNumber data.txIndex).isSome)
    (hindexed : data.blockNumber < w.file.next) {items : List ApiTokenTransfer} {count : ℕ}
    (hpage : txTransferPage views data MAX_PER_PAGE 0 = .ok (items, count)) :
    let transfers := txTransfers data.blockNumber (chain.receipts data.blockNumber) data.txIndex
    count = transfers.length ∧ List.Forall₂
      (fun row item => ∃ token, item = buildTokenTransfer (.ofRow row) data token)
      (transfers.take (min 100 count)) items := by
  intro transfers
  have hrows : ∀ k, txTransferRows (views k) data.blockNumber data.txIndex =
      transfers.map .ofRow := fun k => by
    obtain ⟨v, hv, hfile, hle⟩ := hviews.view hw k
    exact txTransferRows_eq (reference_of_reachable hv hfile).1 (hindexed.trans_le hle) htx
  have hcounts : CountsExact (views 1) := by
    obtain ⟨v, hv, hfile, -⟩ := hviews.view hw 1
    exact (reference_of_reachable hv hfile).1.txTypeCounts
  obtain ⟨read, hread, -⟩ := Fetch.bind_eq_ok_iff.mp hpage
  obtain ⟨hfits, hlimit, hoffset⟩ := fits_of_withConn hread
  obtain ⟨tokens, hok, -⟩ := txTransferPage_eq hfits hcounts hlimit hoffset
  rw [hok, hrows, hrows] at hpage
  cases hpage
  rw [List.length_map]
  refine ⟨rfl, ?_⟩
  rw [Page.slice, List.drop_zero, ← List.map_take, List.map_map, ← List.take_eq_take_min,
    List.forall₂_map_right_iff]
  exact List.forall₂_same.mpr fun row _ => ⟨_, rfl⟩

/-- **The transfer fields are whole or absent.** In every reachable state with a process the status
counts no more than the cursor. For a request that loads the status there, and whose statements come
after any steps of the system: if the response carries the fields, the count is the number of
transfers of the transaction's receipt and the items are the first hundred of them, in log order. If
the status does not count the block, both are absent. -/
theorem transfer_fields_whole
    (hw : (exexSystem ⟨up, chain.toChain, chainId⟩ (· = File.empty)).Reachable w)
    (hp : w.process = some p) :
    (∀ c, p.status.lastIndexed = some c →
      ∃ cursor, w.file.cursor = some cursor ∧ c ≤ cursor) ∧
    ∀ (views : ℕ → Db) (env : RethEnv) (hashFromStr : String → Option B256) (raw : String)
      (response : Api.TxDetail), Later ⟨up, chain.toChain, chainId⟩ w views →
      env.ReadsMined chain.toChain →
      Api.txByHash hashFromStr env views p.status raw = .ok response →
      1 ≤ response.data.blockNumber →
      let n := response.data.blockNumber
      let transfers := txTransfers n (chain.receipts n) response.data.txIndex
      ((∃ c, p.status.lastIndexed = some c ∧ n ≤ c) → ∃ items count,
        response.tokenTransfers = some items ∧ response.tokenTransferCount = some count ∧
        count = transfers.length ∧ List.Forall₂
          (fun row item => ∃ token, item = buildTokenTransfer (.ofRow row) response.data token)
          (transfers.take (min 100 count)) items) ∧
      ((¬ ∃ c, p.status.lastIndexed = some c ∧ n ≤ c) →
        response.tokenTransfers = none ∧ response.tokenTransferCount = none) := by
  refine ⟨fun c hc => lastIndexed_le_cursor hw hp hc, ?_⟩
  intro views env hashFromStr raw response hviews henv hresponse hpos n transfers
  obtain ⟨⟨hash, hdata⟩, hfields⟩ := txByHash_eq_ok hresponse
  have hcounted : n ≤ p.status.lastIndexed.getD 0 ↔
      ∃ c, p.status.lastIndexed = some c ∧ n ≤ c := by
    cases p.status.lastIndexed with
    | none =>
      -- genesis apart, a status that counts nothing does not count the block
      refine iff_of_false ?_ (by simp)
      rw [Option.getD_none]
      omega
    | some c => simp
  constructor
  · intro hc
    rw [if_pos (hcounted.mpr hc)] at hfields
    obtain ⟨items, count, hpage, hitems, hcount⟩ := hfields
    obtain ⟨c, hstatus, hle⟩ := hc
    refine ⟨items, count, hitems, hcount, ?_⟩
    exact txTransferPage_of_later hw hviews (by rw [tx_of_txByHash henv hdata]; rfl)
      (hle.trans_lt (lastIndexed_lt_next hw hp hstatus)) hpage
  · intro hc
    rwa [if_neg fun hle => hc (hcounted.mp hle)] at hfields

end Detail

/-! ### A transaction with a transfer -/

theorem NodeChain.readsMined_env (chain : NodeChain) (tip : ℕ) :
    (chain.env tip).ReadsMined chain.toChain := by
  intro hash sender tx position h
  obtain ⟨entry, hentry, heq⟩ := Option.map_eq_some_iff.mp (Except.ok.inj h)
  cases heq
  exact (mem_entries.mp (List.mem_of_find?_eq_some hentry)).2.1

/-- From process start to the commit of the blocks `0` and `1`. The token is fetched once. -/
def transferActions : List WorldAction :=
  startActions 2 ++ [.task .advance, .task (.body .readStates),
    .task (.body (.fetch (some ⟨some "Seven", none, none⟩) 0)), .task (.body (.commit none)),
    .task (.body .record), .task (.body .observe)] ++ bodyActions

/-- The response for the transaction of block `1` carries its transfer. -/
theorem transfer_fields_whole_first : ∃ (response : Api.TxDetail) (items : List ApiTokenTransfer),
    response.data.blockNumber = 1 ∧ response.tokenTransfers = some items ∧ items.length = 1 ∧
      response.tokenTransferCount = some 1 := by
  have hrun : ((exexSystem ⟨plainUpstream, transferChain.toChain, 7⟩ (· = File.empty)).run
      (freshWorld 1) transferActions).bind (fun w => w.file.toDb.bind fun db =>
        w.process.map fun p => (p.status.lastIndexed, (Api.txByHash (fun _ => some 1)
          (transferChain.env 1) (fun _ => db) p.status "").map fun response =>
            (response.data.blockNumber, response.data.txIndex))) =
        some (some 1, .ok (1, 0)) := by decide +kernel
  obtain ⟨w, hw, hrun⟩ := Option.bind_eq_some_iff.mp hrun
  obtain ⟨db, hdb, hrun⟩ := Option.bind_eq_some_iff.mp hrun
  obtain ⟨p, hp, hrun⟩ := Option.map_eq_some_iff.mp hrun
  obtain ⟨hstatus, hresponse⟩ := Prod.mk.inj hrun
  cases hok : Api.txByHash (fun _ => some 1) (transferChain.env 1) (fun _ => db) p.status "" with
  | error e =>
    rw [hok] at hresponse
    cases hresponse
  | ok response =>
    rw [hok] at hresponse
    obtain ⟨hn, hi⟩ := Prod.mk.inj (Except.ok.inj hresponse)
    have hviews : Later ⟨plainUpstream, transferChain.toChain, 7⟩ w (fun _ => db) :=
      ⟨fun _ => w, rfl, fun _ => ⟨⟨[], rfl⟩, File.toDb_eq_some_iff.mp hdb⟩⟩
    have hwhole := (transfer_fields_whole
      ((TransitionSystem.Reachable.init (freshWorld_initial (by decide))).trans_run hw) hp).2
    obtain ⟨items, count, hitems, hcount, htotal, hall⟩ := (hwhole _ _ _ _ response hviews
      (transferChain.readsMined_env 1) hok (by omega)).1 ⟨1, hstatus, hn.le⟩
    rw [hn, hi] at htotal hall
    have htransfers : (txTransfers 1 (transferChain.receipts 1) 0).length = 1 := by
      decide +kernel
    have hlength := hall.length_eq
    rw [List.length_take, htransfers, htotal, htransfers] at hlength
    exact ⟨response, items, hn, hitems, hlength.symm, by rw [hcount, htotal, htransfers]⟩

end ExplorerIndexer
