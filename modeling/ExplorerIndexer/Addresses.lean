import ExplorerIndexer.TypeFilter
import Mathlib.Algebra.BigOperators.Group.Finset.Basic

/-!
# What the address routes say of an address

`/address/{addr}` counts the indexed transactions of an address, and `/address/{addr}/txs` lists
them, all or those of one type. The counts come from three different statements, and the items from
a replay. What they are about is said here from the chain alone: the transactions of the blocks
below the cursor in which the address takes part, each once, newest first.

The lossy balance in whole units is left out.

## Main definitions

* `NodeChain.pointersOf` — the transactions of an address, by a scan of the chain
* `accountSummary`, `Api.addressSummary` — the functions of the source

## Main results

* `addressPointers_eq_pointersOf` — the index of an address is the scan
* `address_view_exact` — the summary, the lists and their totals agree with the scan
-/

namespace ExplorerIndexer

/-! ### The functions of the source -/

/-- An account of the node's state. -/
structure Account where
  nonce : ℕ
  balance : ℕ
  deriving DecidableEq, Repr

/-- The reads of the node that the summary takes. -/
structure AccountReads where
  retrieveAccount : Address → Except Report (Option Account)
  accountCode : Address → Except Report (Option Bytes)

/-- The body of `/address/{addr}`. -/
structure ApiAddress where
  address : String
  balanceWei : String
  nonce : ℕ
  isContract : Bool
  code : Option String
  indexedTxCount : ℕ
  deriving DecidableEq, Repr

/-- The account and its code, at one state of the node. -/
def accountSummary (env : AccountReads) (address : Address) :
    Except Report (Option Account × Option Bytes) := do
  let account ← env.retrieveAccount address
  let code ← env.accountCode address
  return (account, code)

/-- `GET /address/{addr}`. An address without an account has no balance and no nonce. -/
def Api.addressSummary (addressFromStr : String → Option Address) (hexBytes : Bytes → String)
    (env : AccountReads) (views : ℕ → Db) (raw : String) : Except ApiError ApiAddress := do
  let address ← parseAddress addressFromStr raw
  let (account, code) ← liftNode (accountSummary env address)
  let key := addrHex address
  let indexedTxCount ← withConn (select fun db => .ok (countAddressTxs db key)) views
  let codeHex := (code.filter fun code => !code.isEmpty).map hexBytes
  return {
    address := key
    balanceWei := (account.elim 0 Account.balance).repr
    nonce := account.elim 0 Account.nonce
    isContract := codeHex.isSome
    code := codeHex
    indexedTxCount }

/-! ### The scan -/

instance (up : Upstream) (sender : Address) (tx : TransactionSigned) (a : Address) :
    Decidable (Participates up sender tx a) :=
  inferInstanceAs (Decidable (_ ∨ _ ∨ _ ∧ _))

namespace NodeChain

variable (up : Upstream) (chain : NodeChain) (next : ℕ) (address : Address)

/-- The transactions of the blocks below `next` in which an address takes part, newest first. -/
def pointersOf : List TxPointer :=
  (((List.range next).flatMap chain.blockEntries).filter fun entry =>
    Participates up entry.sender entry.transaction address).reverse.map TxEntry.pointer

variable {up chain next address}

theorem mem_pointersOf {pointer : TxPointer} : pointer ∈ chain.pointersOf up next address ↔
    pointer.blockNumber < next ∧ ∃ sender tx,
      chain.tx? pointer.blockNumber pointer.txIndex = some (sender, tx) ∧
        Participates up sender tx address := by
  simp only [pointersOf, blockEntries, List.mem_map, List.mem_reverse, List.mem_filter,
    List.mem_flatMap, List.mem_range, List.mem_zipIdx_iff_getElem?, decide_eq_true_eq]
  constructor
  · rintro ⟨entry, ⟨⟨n, hn, ⟨⟨sender, tx⟩, i⟩, htx, rfl⟩, htakes⟩, rfl⟩
    exact ⟨hn, sender, tx, htx, htakes⟩
  · rintro ⟨hn, sender, tx, htx, htakes⟩
    exact ⟨_, ⟨⟨pointer.blockNumber, hn, ((sender, tx), pointer.txIndex), htx, rfl⟩, htakes⟩, rfl⟩

/-- The transactions below `next` stand in the order of their positions. -/
theorem pairwise_blockEntries (chain : NodeChain) (next : ℕ) :
    ((List.range next).flatMap chain.blockEntries).Pairwise fun e f =>
      e.blockNumber < f.blockNumber ∨ e.blockNumber = f.blockNumber ∧ e.index < f.index := by
  cases next with
  | zero => exact .nil
  | succ tip => exact chain.pairwise_entries tip

/-- The scan is strictly newest first. -/
theorem pairwise_pointersOf (up : Upstream) (chain : NodeChain) (next : ℕ) (address : Address) :
    (chain.pointersOf up next address).Pairwise fun p q => newestFirst p q ∧ p ≠ q := by
  rw [pointersOf, List.pairwise_map, List.pairwise_reverse]
  refine ((chain.pairwise_blockEntries next).filter _).imp fun {e f} hlt => ?_
  simp only [newestFirst, TxEntry.pointer, ne_eq, TxPointer.mk.injEq]
  omega

end NodeChain

section Scan

variable {up : Upstream} {chain : NodeChain} {next : ℕ} {db : Db}

/-- **The index of an address is the scan of the chain for it.** -/
theorem addressPointers_eq_pointersOf (h : Reference up chain.toChain next db) (a : Address) :
    addressPointers db (addrHex a) = chain.pointersOf up next a := by
  have hsorted := chain.pairwise_pointersOf up next a
  refine Page.insertionSort_eq_of_perm newestFirst (fun _ _ _ _ => newestFirst_antisymm) ?_
    (hsorted.imp And.left)
  refine (List.perm_ext_iff_of_nodup ((List.perm_insertionSort newestFirst _).nodup_iff.mp
    (nodup_addressPointers db (addrHex a))) (hsorted.imp And.right)).mpr fun pointer => ?_
  simp only [List.mem_map, List.mem_filter, decide_eq_true_eq, NodeChain.mem_pointersOf]
  constructor
  · rintro ⟨row, ⟨hrow, haddress⟩, rfl⟩
    obtain ⟨n, hn, i, sender, tx, a', htx, htakes, rfl⟩ := (h.addressTxs row).mp hrow
    obtain rfl : a' = a := addrHex_injective haddress
    exact ⟨hn, sender, tx, htx, htakes⟩
  · rintro ⟨hn, sender, tx, htx, htakes⟩
    exact ⟨_, ⟨(h.addressTxs _).mpr ⟨_, hn, _, sender, tx, a, htx, htakes, rfl⟩, rfl⟩, rfl⟩

/-- The type of the transaction at a position. -/
def NodeChain.txType? (chain : NodeChain) (pointer : TxPointer) : Option ℕ :=
  (chain.tx? pointer.blockNumber pointer.txIndex).map (·.2.ty)

theorem NodeChain.hasType_iff {pointer : TxPointer} {t : ℕ} :
    chain.HasType t pointer = true ↔ chain.txType? pointer = some t := by
  simp [NodeChain.HasType, NodeChain.txType?, Option.any_eq_true]

/-- The counts of the entries with each value add up, when the values are all there. -/
theorem sum_map_countP_eq_length {α β : Type*} [DecidableEq β] (f : α → β) {values : List β}
    {l : List α} (hnodup : values.Nodup) (h : ∀ a ∈ l, f a ∈ values) :
    (values.map fun b => l.countP fun a => f a = b).sum = l.length := by
  have hcover : ∀ b ∈ ((l.map f : List β) : Multiset β), b ∈ values.toFinset := by
    intro b hb
    obtain ⟨a, ha, rfl⟩ := List.mem_map.mp hb
    exact List.mem_toFinset.mpr (h a ha)
  rw [← List.sum_toFinset _ hnodup, ← List.length_map f, ← Multiset.coe_card,
    ← Multiset.sum_count_eq_card hcover]
  refine Finset.sum_congr rfl fun b _ => ?_
  rw [Multiset.coe_count, List.count, List.countP_map]
  rfl

/-- Counts of the transactions of each type add up, when the types are all there. -/
theorem sum_length_filter_hasType (pointers : List TxPointer) {types : List ℕ}
    (hnodup : types.Nodup)
    (htypes : ∀ pointer ∈ pointers, ∃ t ∈ types, chain.HasType t pointer = true) :
    (types.map fun t => (pointers.filter (chain.HasType t)).length).sum = pointers.length := by
  have hcount : ∀ t, (pointers.filter (chain.HasType t)).length =
      pointers.countP fun pointer => chain.txType? pointer = some t := fun t => by
    rw [← List.countP_eq_length_filter]
    refine List.countP_congr fun pointer _ => ?_
    rw [NodeChain.hasType_iff, decide_eq_true_eq]
  have hvalues : ∀ pointer ∈ pointers, chain.txType? pointer ∈ types.map some := by
    intro pointer hpointer
    obtain ⟨t, ht, htype⟩ := htypes pointer hpointer
    exact NodeChain.hasType_iff.mp htype ▸ List.mem_map_of_mem ht
  have hsum := sum_map_countP_eq_length chain.txType?
    (hnodup.map (Option.some_injective ℕ)) hvalues
  simp only [hcount]
  rwa [List.map_map] at hsum

end Scan

/-! ### The routes -/

section Routes

variable {up : Upstream} {chain : NodeChain} {chainId : UInt64} {w : World} {db : Db} {tip : ℕ}
  {env : RethEnv} {addressFromStr : String → Option Address} {raw : String} {a : Address}
  {reads : AccountReads} {account : Option Account} {code : Option Bytes}

/-- The summary of an address that the node can be asked about. -/
theorem addressSummary_eq (haddress : addressFromStr raw = some a) (hexBytes : Bytes → String)
    (hreads : accountSummary reads a = .ok (account, code)) (db : Db) :
    Api.addressSummary addressFromStr hexBytes reads (fun _ => db) raw =
      .ok ⟨addrHex a, (account.elim 0 Account.balance).repr, account.elim 0 Account.nonce,
        ((code.filter fun code => !code.isEmpty).map hexBytes).isSome,
        (code.filter fun code => !code.isEmpty).map hexBytes, countAddressTxs db (addrHex a)⟩ := by
  simp only [Api.addressSummary, parseAddress, haddress, Fetch.okOr_some, hreads, bind, Except.bind,
    liftNode, Except.mapError]
  rfl

/-- The list of an address answers from the scan. -/
theorem addressTxs_answers {next : ℕ} (hreference : Reference up chain.toChain next db)
    (hnext : next ≤ tip + 1) (henv : env.Replays (chain.store tip))
    (haddress : addressFromStr raw = some a) {perPage : Option ℕ} {p : ℕ}
    (hp : p * clampPerPage perPage < 2 ^ 63) :
    Answers (chain.pointersOf up next a) p (clampPerPage perPage) (TxItem chain)
      (Api.addressTxs addressFromStr env (fun _ => db) raw ⟨some p, perPage, none⟩) := by
  rw [addressTxs_of_none haddress rfl, ← addressPointers_eq_pointersOf hreference]
  exact (servePointers_answers_iff (q := .addressTxs (addrHex a)) hreference hnext henv).mpr
    ⟨trivial, hp⟩

/-- **The routes of an address agree with the chain.** In every reachable state, let the
transactions of the address be those of the blocks below the cursor that it sends or receives, or
that create it, newest first. The summary counts them; it calls the address a contract exactly when
there is code.
Each page of the list, of any size, has its part of them and their number as the total. So has each
page of the list of one type, with the transactions of that type; and the totals of the types add up
to the count of the summary. -/
theorem address_view_exact
    (hw : (exexSystem ⟨up, chain.toChain, chainId⟩ (· = File.empty)).Reachable w)
    (hdb : w.file = db.toFile) (htip : w.tip ≤ tip) (henv : env.Replays (chain.store tip))
    (haddress : addressFromStr raw = some a) (hexBytes : Bytes → String)
    (hreads : accountSummary reads a = .ok (account, code)) (perPage : Option ℕ) :
    let feed := chain.pointersOf up db.next a
    let size := clampPerPage perPage
    (∃ summary, Api.addressSummary addressFromStr hexBytes reads (fun _ => db) raw = .ok summary ∧
      summary.indexedTxCount = feed.length ∧
      (summary.isContract = true ↔ ∃ bytes, code = some bytes ∧ bytes ≠ [])) ∧
    (∀ p, p * size < 2 ^ 63 → Answers feed p size (TxItem chain)
      (Api.addressTxs addressFromStr env (fun _ => db) raw ⟨some p, perPage, none⟩)) ∧
    (∀ s t, parseTxType s = some t → ∀ p, p * size < 2 ^ 63 →
      Answers (feed.filter (chain.HasType t)) p size (TxItem chain)
        (Api.addressTxs addressFromStr env (fun _ => db) raw ⟨some p, perPage, some s⟩)) ∧
    ∀ types : List ℕ, types.Nodup →
      (∀ pointer ∈ feed, ∃ t ∈ types, chain.HasType t pointer = true) →
      (types.map fun t => (feed.filter (chain.HasType t)).length).sum = feed.length := by
  intro feed size
  obtain ⟨hreference, hexecuted⟩ := reference_of_reachable hw hdb
  have hnext : db.next ≤ tip + 1 := hexecuted.trans (Nat.succ_le_succ htip)
  have hfeed : addressPointers db (addrHex a) = feed := addressPointers_eq_pointersOf hreference a
  refine ⟨⟨_, addressSummary_eq haddress hexBytes hreads db, ?_, ?_⟩,
    fun p hp => addressTxs_answers hreference hnext henv haddress hp,
    fun s t hs p hp => ?_, fun types => sum_length_filter_hasType feed⟩
  · rw [← hfeed, length_addressPointers]
  · cases code with
    | none => simp
    | some bytes => cases bytes <;> simp [Option.filter]
  · rw [addressTxs_of_type haddress (parsedType_of_parse rfl hs), ← hfeed,
      ← addressPointersByType_eq_filter hreference]
    exact (servePointers_answers_iff (q := .addressTxsByType (addrHex a) t) hreference hnext
      henv).mpr ⟨trivial, hp⟩

end Routes

/-- A node on which nobody has an account. -/
def noAccounts : AccountReads := ⟨fun _ => .ok none, fun _ => .ok none⟩

/-- Two blocks are indexed: the sender of all transactions has two, of two types. -/
theorem address_view_exact_sender : ∃ db summary,
    Api.addressSummary (fun _ => some 1) (fun _ => "0x") noAccounts (fun _ => db) "0x1" =
      .ok summary ∧ summary.indexedTxCount = 2 ∧
    Answers [⟨1, 0⟩, ⟨0, 0⟩] 0 25 (TxItem steadyChain) (Api.addressTxs (fun _ => some 1)
      (steadyChain.env 1) (fun _ => db) "0x1" ⟨some 0, none, none⟩) := by
  have hrun : ((exexSystem steadyNetwork (· = File.empty)).run (freshWorld 1)
      (startActions 2 ++ bodyActions ++ bodyActions)).bind (fun w =>
        w.file.toDb.map fun db => (w.tip, db.next)) = some (1, 2) := by decide +kernel
  obtain ⟨w, db, -, hreach, hdb, hrun⟩ := exists_index_of_run (by decide) hrun
  obtain ⟨htip, hnext⟩ := Prod.mk.inj hrun
  have hfeed : steadyChain.pointersOf plainUpstream db.next 1 = [⟨1, 0⟩, ⟨0, 0⟩] := by
    rw [hnext]
    decide
  have hview := @address_view_exact plainUpstream steadyChain 7 w db 1 (steadyChain.env 1)
    (fun _ => some 1) "0x1" 1 noAccounts none none hreach hdb htip.le (steadyChain.replays_env 1)
    rfl (fun _ => "0x") rfl none
  rw [hfeed] at hview
  obtain ⟨⟨summary, hsummary, hcount, -⟩, hlist, -⟩ := hview
  exact ⟨db, summary, hsummary, hcount, hlist 0 (by decide)⟩

end ExplorerIndexer
