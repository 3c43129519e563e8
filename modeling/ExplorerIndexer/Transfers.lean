import ExplorerIndexer.Addresses
import ExplorerIndexer.TokenRows
import ExplorerIndexer.TransferFeeds
import ExplorerIndexer.TxDetail

/-!
# The transfer routes and the chain

The transfers of a chain prefix are the conforming logs of its receipts. The index keeps one row for
each, and three tables of the index are behind the routes: the rows, the union of two keys for an
address, and the tokens that were seen. Here the routes are compared with the scan of the receipts
itself, block after block, newest first.

## Main definitions

* `NodeChain.transfersBelow` — the scan of the receipts for transfers, newest first

## Main results

* `filter_transfersBelow` — a sorted selection of the index is a selection of the scan
* `transfer_view_exact` — the pages are the scan, and the totals of the tokens add up to its length
-/

namespace ExplorerIndexer

namespace NodeChain

variable (chain : NodeChain) (next : ℕ)

/-- The transfers of the blocks below `next`, newest first, as the index stores them. -/
def transfersBelow : List StoredTransfer :=
  (((List.range next).flatMap chain.blockEntries).flatMap fun entry =>
    (txTransfers entry.blockNumber (chain.receipts entry.blockNumber) entry.index).map
      .ofRow).reverse

variable {chain next}

/-- The scan finds the transfers of the prefix. -/
theorem mem_transfersBelow {row : StoredTransfer} :
    row ∈ chain.transfersBelow next ↔ TransferRef chain.toChain next row := by
  simp only [transfersBelow, List.mem_reverse, List.mem_flatMap, List.mem_range, blockEntries,
    List.mem_map, List.mem_zipIdx_iff_getElem?]
  constructor
  · rintro ⟨entry, ⟨n, hn, ⟨⟨sender, tx⟩, i⟩, htx, rfl⟩, hrow⟩
    obtain ⟨j, receipt, log, f, t, hreceipt, hlog, htopics, hlen, rfl⟩ :=
      mem_txTransfers.mp (List.mem_map.mpr hrow)
    exact ⟨n, hn, i, j, receipt, log, f, t, Option.isSome_of_mem htx, hreceipt, hlog, htopics, hlen,
      rfl⟩
  · rintro ⟨n, hn, i, j, receipt, log, f, t, htx, hreceipt, hlog, htopics, hlen, rfl⟩
    obtain ⟨entry, htx⟩ := Option.isSome_iff_exists.mp htx
    exact ⟨_, ⟨n, hn, (entry, i), htx, rfl⟩, List.mem_map.mp (mem_txTransfers.mpr
      ⟨j, receipt, log, f, t, hreceipt, hlog, htopics, hlen, rfl⟩)⟩

/-- The transfers of one transaction, in log order, and where they are from. -/
theorem mem_map_txTransfers {number i : ℕ} {receipts : List Receipt} {row : StoredTransfer}
    (h : row ∈ (txTransfers number receipts i).map .ofRow) :
    row.blockNumber = number ∧ row.txIndex = i := by
  obtain ⟨j, receipt, log, f, t, -, -, -, -, rfl⟩ := mem_txTransfers.mp h
  exact ⟨rfl, rfl⟩

/-- The scan is strictly newest first. -/
theorem pairwise_transfersBelow (chain : NodeChain) (next : ℕ) :
    (chain.transfersBelow next).Pairwise newerTransfer := by
  rw [transfersBelow, List.pairwise_reverse, List.pairwise_flatMap]
  refine ⟨fun entry _ => ?_, (chain.pairwise_blockEntries next).imp fun hlt r hr s hs => ?_⟩
  · refine (pairwise_txTransfers _ _ _).imp_of_mem fun hr hs hlt => Or.inr ?_
    rw [(mem_map_txTransfers hr).1, (mem_map_txTransfers hr).2, (mem_map_txTransfers hs).1,
      (mem_map_txTransfers hs).2]
    exact ⟨rfl, Or.inr ⟨rfl, hlt⟩⟩
  · rw [newerTransfer, (mem_map_txTransfers hr).1, (mem_map_txTransfers hr).2,
      (mem_map_txTransfers hs).1, (mem_map_txTransfers hs).2]
    omega

end NodeChain

section Scan

variable {up : Upstream} {chain : NodeChain} {next : ℕ} {db : Db}

/-- The rows of the index are the scan, in some order. -/
theorem perm_transfersBelow (h : Reference up chain.toChain next db) :
    db.tokenTransfers.rows.Perm (chain.transfersBelow next) := by
  have hne : (chain.transfersBelow next).Nodup := by
    refine (chain.pairwise_transfersBelow next).imp fun hlt heq => ?_
    rw [heq, newerTransfer] at hlt
    omega
  refine (List.perm_ext_iff_of_nodup db.tokenTransfers.nodup_rows hne).mpr fun row => ?_
  rw [NodeChain.mem_transfersBelow, h.tokenTransfers]

/-- **A sorted selection of the index is a selection of the scan.** -/
theorem filter_transfersBelow (h : Reference up chain.toChain next db)
    (p : StoredTransfer → Bool) :
    (db.tokenTransfers.rows.filter p).insertionSort newestTransferFirst =
      (chain.transfersBelow next).filter p := by
  refine Page.insertionSort_eq_of_perm newestTransferFirst (fun r hr s hs hrs hsr => ?_)
    ((perm_transfersBelow h).filter p) ?_
  · exact db.tokenTransfers.eq_of_key_eq (List.mem_filter.mp hr).1 (List.mem_filter.mp hs).1
      (key_eq_of_newestTransferFirst hrs hsr)
  · refine ((chain.pairwise_transfersBelow next).filter p).imp fun {r s} hlt => ?_
    simp only [newerTransfer, newestTransferFirst] at *
    omega

end Scan

/-! ### The tokens that were seen -/

section Tokens

variable {net : Network} {w : World} {db : Db}

/-- **The tokens with a row are the transferred ones**, in every reachable state. -/
theorem tokensExact_of_reachable (hw : (exexSystem net (· = File.empty)).Reachable w)
    (hdb : w.file = db.toFile) : TokensExact db := by
  rcases started_of_reachable rebuildable_empty hw with ⟨-, hvacant, -⟩ | ⟨db', hwhole⟩
  · have hvacant := hvacant fun f hf => hf ▸ vacant_empty
    rw [hdb] at hvacant
    have htokens : db.tokens = .empty := Stored.current.inj (hvacant.tokens _ rfl)
    have htransfers : db.tokenTransfers = .empty :=
      Stored.current.inj (hvacant.tokenTransfers _ rfl)
    intro address
    rw [htokens, htransfers]
    exact iff_of_false (by rintro ⟨row, hrow, -⟩; cases hrow) (by rintro ⟨row, hrow, -⟩; cases hrow)
  · cases Db.toFile_injective (hdb.symm.trans hwhole.file)
    obtain ⟨commits, hloop, -⟩ := hwhole.loop
    exact tokensExact_of_loop hloop

/-- The totals of the tokens add up to the number of transfers. -/
theorem TokensExact.sum_countTokenTransfers (h : TokensExact db) :
    (db.tokens.rows.map fun token => countTokenTransfers db token.address).sum =
      db.tokenTransfers.rows.length := by
  have hvalues : ∀ row ∈ db.tokenTransfers.rows,
      row.token ∈ db.tokens.rows.map StoredToken.address := fun row hrow =>
    List.mem_map.mpr ((h row.token).mpr ⟨row, hrow, rfl⟩)
  have hsum := sum_map_countP_eq_length StoredTransfer.token db.tokens.nodup hvalues
  rwa [List.map_map] at hsum

end Tokens

/-! ### The routes -/

section Routes

variable {up : Upstream} {chain : NodeChain} {chainId : UInt64} {w : World} {db : Db} {tip : ℕ}
  {env : RethEnv} {addressFromStr : String → Option Address} {raw : String} {a : Address}

section Answers

variable {next : ℕ} (hreference : Reference up chain.toChain next db) (hnext : next ≤ tip + 1)
  (henv : env.Replays (chain.store tip)) (haddress : addressFromStr raw = some a)
  {perPage : Option ℕ} {p : ℕ} (hp : p * clampPerPage perPage < 2 ^ 63)

include hreference hnext henv haddress hp

/-- The transfers of an address answer from the scan. -/
theorem addressTransfers_answers :
    Answers ((chain.transfersBelow next).filter fun row =>
        row.fromAddr = addrHex a ∨ row.toAddr = addrHex a) p (clampPerPage perPage)
      (TransferItem chain db)
      (Api.addressTransfers addressFromStr env (fun _ => db) raw ⟨some p, perPage⟩) := by
  rw [addressTransfers_eq haddress, ← filter_transfersBelow hreference, ← addressTransferRows_eq]
  exact (serveTransfers_answers_iff (q := .addressTransfers (addrHex a)) hreference hnext henv
    (fun _ => rfl) fun _ _ _ => rfl).mpr ⟨trivial, hp⟩

/-- The transfers of a token answer from the scan. -/
theorem tokenTransfers_answers :
    Answers ((chain.transfersBelow next).filter (·.token = addrHex a)) p (clampPerPage perPage)
      (TransferItem chain db)
      (Api.tokenTransfers addressFromStr env (fun _ => db) raw ⟨some p, perPage⟩) := by
  rw [tokenTransfers_eq haddress, ← filter_transfersBelow hreference]
  exact (serveTransfers_answers_iff (q := .tokenTransfers (addrHex a)) hreference hnext henv
    (fun _ => rfl) fun _ _ _ => rfl).mpr ⟨trivial, hp⟩

end Answers

/-- **The transfer routes agree with the receipts.** In every reachable state, scan the receipts of
the blocks below the cursor for conforming logs, newest first. Each page of the transfers of an
address, of any size, has its part of those from or to the address, one to itself once, and their
number as the total. So has each page of the transfers of a token. The tokens with a row are those
of the scan, and their totals add up to its length: no transfer is behind no token, and none behind
two. -/
theorem transfer_view_exact
    (hw : (exexSystem ⟨up, chain.toChain, chainId⟩ (· = File.empty)).Reachable w)
    (hdb : w.file = db.toFile) (htip : w.tip ≤ tip) (henv : env.Replays (chain.store tip))
    (haddress : addressFromStr raw = some a) (perPage : Option ℕ) :
    let scan := chain.transfersBelow db.next
    let size := clampPerPage perPage
    (∀ p, p * size < 2 ^ 63 →
      Answers (scan.filter fun row => row.fromAddr = addrHex a ∨ row.toAddr = addrHex a) p size
        (TransferItem chain db)
        (Api.addressTransfers addressFromStr env (fun _ => db) raw ⟨some p, perPage⟩)) ∧
    (∀ p, p * size < 2 ^ 63 →
      Answers (scan.filter (·.token = addrHex a)) p size (TransferItem chain db)
        (Api.tokenTransfers addressFromStr env (fun _ => db) raw ⟨some p, perPage⟩)) ∧
    (∀ address, (∃ token ∈ db.tokens.rows, token.address = address) ↔
      ∃ row ∈ scan, row.token = address) ∧
    (db.tokens.rows.map fun token => (scan.filter (·.token = token.address)).length).sum =
      scan.length := by
  intro scan size
  obtain ⟨hreference, hexecuted⟩ := reference_of_reachable hw hdb
  have hnext : db.next ≤ tip + 1 := hexecuted.trans (Nat.succ_le_succ htip)
  have hperm : db.tokenTransfers.rows.Perm scan := perm_transfersBelow hreference
  have htokens := tokensExact_of_reachable hw hdb
  refine ⟨fun p hp => addressTransfers_answers hreference hnext henv haddress hp,
    fun p hp => tokenTransfers_answers hreference hnext henv haddress hp, fun address => ?_, ?_⟩
  · simp only [htokens address, hperm.mem_iff]
  · have hcount : ∀ token, countTokenTransfers db token =
        (scan.filter (·.token = token)).length := fun token => by
      rw [countTokenTransfers, hperm.countP_eq, List.countP_eq_length_filter]
    simp only [← hcount, ← hperm.length_eq]
    exact htokens.sum_countTokenTransfers

end Routes

/-- Two blocks are indexed, with one transfer of the token `7` each. -/
theorem transfer_view_exact_token : ∃ db answer,
    Api.tokenTransfers (fun _ => some 7) (transferChain.env 1) (fun _ => db) "0x7"
      ⟨some 0, none⟩ = .ok answer ∧
    answer.total = 2 ∧ answer.items.length = 2 ∧
    ∃ token ∈ db.tokens.rows, token.address = addrHex 7 := by
  have hrun : ((exexSystem ⟨plainUpstream, transferChain.toChain, 7⟩ (· = File.empty)).run
      (freshWorld 1) transferActions).bind (fun w =>
        w.file.toDb.map fun db => (w.tip, db.next)) = some (1, 2) := by decide +kernel
  obtain ⟨w, db, -, hreach, hdb, hrun⟩ := exists_index_of_run (by decide) hrun
  obtain ⟨htip, hnext⟩ := Prod.mk.inj hrun
  have htransfers : ((transferChain.transfersBelow 2).filter (·.token = addrHex 7)).map
      StoredTransfer.blockNumber = [1, 0] := by decide +kernel
  have hlength := congrArg List.length htransfers
  rw [List.length_map] at hlength
  have hview := @transfer_view_exact plainUpstream transferChain 7 w db 1 (transferChain.env 1)
    (fun _ => some 7) "0x7" 7 hreach hdb htip.le (transferChain.replays_env 1) rfl none
  rw [hnext] at hview
  obtain ⟨-, htoken, hseen, -⟩ := hview
  obtain ⟨items, hok, hitems⟩ := htoken 0 (by decide)
  refine ⟨db, _, hok, hlength, ?_, (hseen (addrHex 7)).mpr ?_⟩
  · rw [← hitems.length_eq, Page.length_slice, hlength]
    decide
  · obtain ⟨row, hrow⟩ := List.exists_mem_of_length_pos (hlength.trans_gt Nat.zero_lt_two)
    obtain ⟨hmem, htoken⟩ := List.mem_filter.mp hrow
    exact ⟨row, hmem, of_decide_eq_true htoken⟩

end ExplorerIndexer
