import ExplorerIndexer.Library.Abi
import ExplorerIndexer.TypeCounts

/-!
# The index of a chain prefix

What the tables should hold at a cursor, stated from the chain alone: no extraction, no writer, no
order of delivery. The writer's tables are shown to be exactly that, after any gapless delivery with
any repetitions and any calls cut short.

## Main definitions

* `AddressRef`, `TypeRef`, `TransferRef`, `ConsensusRef` — the rows of a chain prefix
* `Reference` — a database holds exactly the rows of a prefix
* `Delivered` — the databases that gapless deliveries lead to

## Main results

* `Reference.applied` — indexing the next block extends the prefix by one
* `index_eq_reference` — the index is a function of the chain prefix
-/

namespace ExplorerIndexer

/-! ### The rows of a chain prefix -/

/-- Transaction `i` of block `n`, with its sender. -/
def Chain.tx? (chain : Chain) (n i : ℕ) : Option (Address × TransactionSigned) :=
  (chain.block n).transactionsWithSender[i]?

/-- The receipt of transaction `i` of block `n`. -/
def Chain.receipt? (chain : Chain) (n i : ℕ) : Option Receipt := (chain.receipts n)[i]?

/-- The sender, the recipient, or without a recipient the created contract. -/
def Participates (up : Upstream) (sender : Address) (tx : TransactionSigned) (a : Address) : Prop :=
  a = sender ∨ tx.toAddr = some a ∨ (tx.toAddr = none ∧ a = up.create sender tx.nonce)

/-- A header names the consensus output `d`, of an epoch and a round. Genesis names none. -/
structure NamesOutput (up : Upstream) (header : ExecHeader) (d : B256) (epoch round : ℕ) :
    Prop where
  not_genesis : header.number ≠ 0
  root : header.parentBeaconBlockRoot = some d
  difficulty : header.difficulty.toNat < 2 ^ 64
  nonce : up.deconstructNonce (fromBeBytes header.nonce.toList) = (epoch, round)

section Rows

variable (up : Upstream) (chain : Chain) (next : ℕ)

/-- The `address_txs` rows of the blocks below `next`. -/
def AddressRef (row : AddressTx) : Prop :=
  ∃ n < next, ∃ i sender tx a, chain.tx? n i = some (sender, tx) ∧ Participates up sender tx a ∧
    row = ⟨addrHex a, n, i, tx.ty⟩

/-- The `tx_types` rows of the blocks below `next`. -/
def TypeRef (row : TxTypeRow) : Prop :=
  ∃ n < next, ∃ i sender tx, chain.tx? n i = some (sender, tx) ∧ row = ⟨tx.ty, n, i⟩

/-- The `token_transfers` rows of the blocks below `next`: a log of a transaction's receipt with
three topics, the first the event's, and 32 bytes of data. -/
def TransferRef (row : StoredTransfer) : Prop :=
  ∃ n < next, ∃ i j receipt log fromTopic toTopic,
    (chain.tx? n i).isSome ∧ chain.receipt? n i = some receipt ∧ receipt.logs[j]? = some log ∧
    log.topics = [TRANSFER_TOPIC, fromTopic, toTopic] ∧ log.data.length = 32 ∧
    row = ⟨n, i, j, addrHex log.address, addrHex (fromTopic.setWidth 160),
      addrHex (toTopic.setWidth 160), (fromBeBytes log.data).repr⟩

/-- The `consensus_blocks` rows of the blocks below `next`: the epoch and round of the lowest block
that names the output, and the lowest and highest such block. -/
def ConsensusRef (row : ConsensusBlock) : Prop :=
  ∃ d epoch round lo hi, lo < next ∧ hi < next ∧
    NamesOutput up (chain.block lo).header d epoch round ∧
    (∃ e r, NamesOutput up (chain.block hi).header d e r) ∧
    (∀ n < next, ∀ e r, NamesOutput up (chain.block n).header d e r → lo ≤ n ∧ n ≤ hi) ∧
    row = ⟨digestHex d, epoch, round, lo, hi⟩

/-- **The tables hold exactly the rows of the blocks below `next`**, and the totals are exact. -/
structure Reference (db : Db) : Prop where
  addressTxs : ∀ row, row ∈ db.addressTxs.rows ↔ AddressRef up chain next row
  txTypes : ∀ row, row ∈ db.txTypes.rows ↔ TypeRef chain next row
  txTypeCounts : CountsExact db
  tokenTransfers : ∀ row, row ∈ db.tokenTransfers.rows ↔ TransferRef chain next row
  consensusBlocks : ∀ row, row ∈ db.consensusBlocks.rows ↔ ConsensusRef up chain next row

end Rows

/-! ### What one block contributes -/

section Block

variable {up : Upstream} {block : RecoveredBlock} {receipts : List Receipt}

theorem mem_txAddressRows {number : ℕ} {sender : Address} {tx : TransactionSigned} {i : ℕ}
    {row : AddressRow} : row ∈ txAddressRows up number sender tx i ↔
      ∃ a, Participates up sender tx a ∧ row = ⟨a, number, i, tx.ty⟩ := by
  unfold txAddressRows Participates
  cases htx : tx.toAddr <;> simp

theorem mem_addressRows {row : AddressTx} :
    row ∈ (extractBlock up block receipts).addressRows.map .ofRow ↔
      ∃ i sender tx a, block.transactionsWithSender[i]? = some (sender, tx) ∧
        Participates up sender tx a ∧ row = ⟨addrHex a, block.number, i, tx.ty⟩ := by
  rw [addressRows_extractBlock]
  simp only [List.mem_map, List.mem_flatMap, List.mem_zipIdx_iff_getElem?, mem_txAddressRows]
  constructor
  · rintro ⟨_, ⟨⟨⟨sender, tx⟩, i⟩, htx, a, ha, rfl⟩, rfl⟩
    exact ⟨i, sender, tx, a, htx, ha, rfl⟩
  · rintro ⟨i, sender, tx, a, htx, ha, rfl⟩
    exact ⟨_, ⟨((sender, tx), i), htx, a, ha, rfl⟩, rfl⟩

theorem mem_txTypes {row : TxTypeRow} : row ∈ (extractBlock up block receipts).txTypes ↔
    ∃ i sender tx, block.transactionsWithSender[i]? = some (sender, tx) ∧
      row = ⟨tx.ty, block.number, i⟩ := by
  rw [txTypes_extractBlock]
  simp only [List.mem_map, List.mem_zipIdx_iff_getElem?]
  constructor
  · rintro ⟨⟨⟨sender, tx⟩, i⟩, htx, rfl⟩
    exact ⟨i, sender, tx, htx, rfl⟩
  · rintro ⟨i, sender, tx, htx, rfl⟩
    exact ⟨((sender, tx), i), htx, rfl⟩

theorem fromBeBytes_lt (bs : Bytes) : fromBeBytes bs < 256 ^ bs.length := Abi.ofBytes_lt bs

/-- The transfers a log decodes to, as stored. -/
theorem decodeTransferLog_eq_some {log : Log} {n i j : ℕ} {row : TransferRow} :
    decodeTransferLog log n i j = some row ↔
      ∃ fromTopic toTopic, log.topics = [TRANSFER_TOPIC, fromTopic, toTopic] ∧
        log.data.length = 32 ∧
        row = ⟨n, i, j, log.address, fromTopic.setWidth 160, toTopic.setWidth 160,
          BitVec.ofNat 256 (fromBeBytes log.data)⟩ := by
  rw [decodeTransferLog]
  split
  · next topic fromTopic toTopic htopics =>
    by_cases htopic : topic = TRANSFER_TOPIC
    · by_cases hlen : log.data.length = 32
      · simp [htopic, hlen, htopics, eq_comm]
      · simp [htopic, hlen]
    · simp [htopic, htopics]
  · next hne =>
    refine ⟨(fun h => by cases h), ?_⟩
    rintro ⟨fromTopic, toTopic, htopics, -⟩
    exact absurd htopics (hne _ _ _)

/-- The transfers of one transaction, as stored. -/
theorem mem_txTransfers {number i : ℕ} {row : StoredTransfer} :
    row ∈ (txTransfers number receipts i).map .ofRow ↔
      ∃ j receipt log fromTopic toTopic, receipts[i]? = some receipt ∧
        receipt.logs[j]? = some log ∧ log.topics = [TRANSFER_TOPIC, fromTopic, toTopic] ∧
        log.data.length = 32 ∧
        row = ⟨number, i, j, addrHex log.address, addrHex (fromTopic.setWidth 160),
          addrHex (toTopic.setWidth 160), (fromBeBytes log.data).repr⟩ := by
  have hvalue : ∀ log : Log, log.data.length = 32 →
      (BitVec.ofNat 256 (fromBeBytes log.data)).toNat = fromBeBytes log.data := fun log hlen => by
    have := fromBeBytes_lt log.data
    rw [hlen] at this
    exact Nat.mod_eq_of_lt (by simpa using this)
  rw [txTransfers]
  constructor
  · intro h
    obtain ⟨r, hr, rfl⟩ := List.mem_map.mp h
    cases hreceipt : receipts[i]? with
    | none => simp [hreceipt] at hr
    | some receipt =>
      simp only [hreceipt, List.mem_filterMap, List.mem_zipIdx_iff_getElem?] at hr
      obtain ⟨⟨log, j⟩, hlog, hdecode⟩ := hr
      obtain ⟨fromTopic, toTopic, htopics, hlen, rfl⟩ := decodeTransferLog_eq_some.mp hdecode
      refine ⟨j, receipt, log, fromTopic, toTopic, rfl, hlog, htopics, hlen, ?_⟩
      simp only [StoredTransfer.ofRow, hvalue log hlen]
  · rintro ⟨j, receipt, log, fromTopic, toTopic, hreceipt, hlog, htopics, hlen, rfl⟩
    refine List.mem_map.mpr ⟨⟨number, i, j, log.address, fromTopic.setWidth 160,
      toTopic.setWidth 160, BitVec.ofNat 256 (fromBeBytes log.data)⟩, ?_, ?_⟩
    · simp only [hreceipt, List.mem_filterMap, List.mem_zipIdx_iff_getElem?]
      exact ⟨(log, j), hlog, decodeTransferLog_eq_some.mpr ⟨_, _, htopics, hlen, rfl⟩⟩
    · simp only [StoredTransfer.ofRow, hvalue log hlen]

theorem mem_transfers {row : StoredTransfer} :
    row ∈ (extractBlock up block receipts).transfers.map .ofRow ↔
      ∃ i j receipt log fromTopic toTopic,
        (block.transactionsWithSender[i]?).isSome ∧ receipts[i]? = some receipt ∧
        receipt.logs[j]? = some log ∧ log.topics = [TRANSFER_TOPIC, fromTopic, toTopic] ∧
        log.data.length = 32 ∧
        row = ⟨block.number, i, j, addrHex log.address, addrHex (fromTopic.setWidth 160),
          addrHex (toTopic.setWidth 160), (fromBeBytes log.data).repr⟩ := by
  rw [transfers_extractBlock, List.map_flatMap]
  simp only [List.mem_flatMap, List.mem_zipIdx_iff_getElem?, mem_txTransfers]
  constructor
  · rintro ⟨⟨e, i⟩, he, j, receipt, log, fromTopic, toTopic, h⟩
    exact ⟨i, j, receipt, log, fromTopic, toTopic, by rw [he]; rfl, h⟩
  · rintro ⟨i, j, receipt, log, fromTopic, toTopic, hi, h⟩
    obtain ⟨e, he⟩ := Option.isSome_iff_exists.mp hi
    exact ⟨(e, i), he, j, receipt, log, fromTopic, toTopic, h⟩

theorem decodeConsensusFields_eq_some {header : ExecHeader} {d : B256} {epoch round : ℕ} :
    (∃ fields, decodeConsensusFields up header = some fields ∧ fields.digest = d ∧
      fields.epoch = epoch ∧ fields.round = round) ↔ NamesOutput up header d epoch round := by
  rw [decodeConsensusFields]
  constructor
  · rintro ⟨fields, hfields, rfl, rfl, rfl⟩
    split at hfields
    · cases hfields
    · next hnumber =>
      obtain ⟨digest, hroot, hfields⟩ := Option.bind_eq_some_iff.mp hfields
      obtain ⟨difficulty, hdifficulty, hfields⟩ := Option.bind_eq_some_iff.mp hfields
      cases hfields
      unfold toU64? at hdifficulty
      split at hdifficulty
      · next hlt => exact ⟨hnumber, hroot, hlt, rfl⟩
      · cases hdifficulty
  · rintro ⟨hnumber, hroot, hdifficulty, hnonce⟩
    rw [if_neg hnumber, hroot, toU64?, if_pos hdifficulty]
    exact ⟨_, rfl, rfl, congrArg Prod.fst hnonce, congrArg Prod.snd hnonce⟩

theorem consensus_eq_some {row : ConsensusRow} :
    (extractBlock up block receipts).consensus = some row ↔
      NamesOutput up block.header row.digest row.epoch row.round ∧
        row.blockNumber = block.number := by
  rw [consensus_extractBlock, Option.map_eq_some_iff, ← decodeConsensusFields_eq_some]
  constructor
  · rintro ⟨fields, hfields, rfl⟩
    exact ⟨⟨fields, hfields, rfl, rfl, rfl⟩, rfl⟩
  · rintro ⟨⟨fields, hfields, hd, he, hr⟩, hn⟩
    refine ⟨fields, hfields, ?_⟩
    rw [hd, he, hr, ← hn]

end Block

/-! ### One more block -/

section Step

variable {up : Upstream} {chain : Chain} {n : ℕ}

theorem addressRef_succ {row : AddressTx} : AddressRef up chain (n + 1) row ↔
    AddressRef up chain n row ∨
      row ∈ (extractBlock up (chain.block n) (chain.receipts n)).addressRows.map .ofRow := by
  rw [mem_addressRows, chain.number_block]
  exact Nat.exists_lt_succ_right

theorem typeRef_succ (up : Upstream) {row : TxTypeRow} : TypeRef chain (n + 1) row ↔
    TypeRef chain n row ∨ row ∈ (extractBlock up (chain.block n) (chain.receipts n)).txTypes := by
  rw [mem_txTypes, chain.number_block]
  exact Nat.exists_lt_succ_right

theorem transferRef_succ (up : Upstream) {row : StoredTransfer} : TransferRef chain (n + 1) row ↔
    TransferRef chain n row ∨
      row ∈ (extractBlock up (chain.block n) (chain.receipts n)).transfers.map .ofRow := by
  rw [mem_transfers, chain.number_block]
  exact Nat.exists_lt_succ_right

/-- An address row is determined by its key: the type is the transaction's. -/
theorem AddressRef.eq_of_key_eq {row row' : AddressTx} (h : AddressRef up chain n row)
    (h' : AddressRef up chain n row') (hkey : row.key = row'.key) : row = row' := by
  obtain ⟨m, -, i, sender, tx, a, htx, -, rfl⟩ := h
  obtain ⟨m', -, i', sender', tx', a', htx', -, rfl⟩ := h'
  simp only [AddressTx.key, Prod.mk.injEq] at hkey
  obtain ⟨ha, rfl, rfl⟩ := hkey
  rw [htx] at htx'
  cases htx'
  rw [ha]

/-- A transfer row is determined by its key: the log is. -/
theorem TransferRef.eq_of_key_eq {row row' : StoredTransfer} (h : TransferRef chain n row)
    (h' : TransferRef chain n row') (hkey : row.key = row'.key) : row = row' := by
  obtain ⟨m, -, i, j, receipt, log, f, t, -, hreceipt, hlog, htopics, -, rfl⟩ := h
  obtain ⟨m', -, i', j', receipt', log', f', t', -, hreceipt', hlog', htopics', -, rfl⟩ := h'
  simp only [StoredTransfer.key, Prod.mk.injEq] at hkey
  obtain ⟨rfl, rfl, rfl⟩ := hkey
  rw [hreceipt] at hreceipt'
  cases hreceipt'
  rw [hlog] at hlog'
  cases hlog'
  rw [htopics] at htopics'
  cases htopics'
  rfl

/-- A header names at most one output. -/
theorem NamesOutput.unique {header : ExecHeader} {d d' : B256} {e r e' r' : ℕ}
    (h : NamesOutput up header d e r) (h' : NamesOutput up header d' e' r') :
    d = d' ∧ e = e' ∧ r = r' := by
  refine ⟨Option.some.inj (h.root.symm.trans h'.root), ?_⟩
  simpa using h.nonce.symm.trans h'.nonce

/-- A consensus row is determined by its digest. -/
theorem ConsensusRef.eq_of_key_eq {row row' : ConsensusBlock} (h : ConsensusRef up chain n row)
    (h' : ConsensusRef up chain n row') (hkey : row.digest = row'.digest) : row = row' := by
  obtain ⟨d, e, r, lo, hi, hlo, hhi, hnlo, ⟨e₁, r₁, hnhi⟩, hall, rfl⟩ := h
  obtain ⟨d', e', r', lo', hi', hlo', hhi', hnlo', ⟨e₁', r₁', hnhi'⟩, hall', rfl⟩ := h'
  obtain rfl : d = d' := digestHex_injective hkey
  have h₁ := hall lo' hlo' e' r' hnlo'
  have h₂ := hall' lo hlo e r hnlo
  have h₃ := hall hi' hhi' e₁' r₁' hnhi'
  have h₄ := hall' hi hhi e₁ r₁ hnhi
  obtain rfl : lo = lo' := by omega
  obtain rfl : hi = hi' := by omega
  obtain ⟨-, rfl, rfl⟩ := hnlo.unique hnlo'
  rfl

/-- A block that names an output not named before starts its range. -/
theorem ConsensusRef.start {d : B256} {e r : ℕ}
    (hn : NamesOutput up (chain.block n).header d e r)
    (hfresh : ∀ m < n, ∀ e r, ¬ NamesOutput up (chain.block m).header d e r) :
    ConsensusRef up chain (n + 1) ⟨digestHex d, e, r, n, n⟩ := by
  refine ⟨d, e, r, n, n, n.lt_succ_self, n.lt_succ_self, hn, ⟨e, r, hn⟩, fun m hm e' r' h => ?_,
    rfl⟩
  have : ¬ m < n := fun hlt => hfresh m hlt e' r' h
  omega

/-- A block that names an output again widens its range. -/
theorem ConsensusRef.widen {row : ConsensusBlock} {d : B256} {e r : ℕ}
    (h : ConsensusRef up chain n row) (hd : row.digest = digestHex d)
    (hn : NamesOutput up (chain.block n).header d e r) :
    ConsensusRef up chain (n + 1)
      { row with firstBlock := min row.firstBlock n, lastBlock := max row.lastBlock n } := by
  obtain ⟨d', e', r', lo, hi, hlo, hhi, hnlo, hnhi, hall, rfl⟩ := h
  obtain rfl : d' = d := digestHex_injective hd
  refine ⟨d', e', r', lo, n, by omega, by omega, hnlo, ⟨e, r, hn⟩, fun m hm e₁ r₁ hm' => ?_, ?_⟩
  · rcases Nat.lt_succ_iff_lt_or_eq.mp hm with hlt | rfl
    · have := hall m hlt e₁ r₁ hm'
      omega
    · omega
  · simp only [Nat.min_eq_left hlo.le, Nat.max_eq_right hhi.le]

/-- A block that does not name an output leaves its range. -/
theorem consensusRef_succ_of_not_names {row : ConsensusBlock}
    (hne : ∀ d e r, row.digest = digestHex d → ¬ NamesOutput up (chain.block n).header d e r) :
    ConsensusRef up chain (n + 1) row ↔ ConsensusRef up chain n row := by
  constructor
  · rintro ⟨d, e, r, lo, hi, hlo, hhi, hnlo, ⟨e₁, r₁, hnhi⟩, hall, rfl⟩
    have hlo' : lo ≠ n := fun h => hne d e r rfl (h ▸ hnlo)
    have hhi' : hi ≠ n := fun h => hne d e₁ r₁ rfl (h ▸ hnhi)
    exact ⟨d, e, r, lo, hi, by omega, by omega, hnlo, ⟨e₁, r₁, hnhi⟩,
      fun m hm => hall m (by omega), rfl⟩
  · rintro ⟨d, e, r, lo, hi, hlo, hhi, hnlo, hnhi, hall, rfl⟩
    refine ⟨d, e, r, lo, hi, by omega, by omega, hnlo, hnhi, fun m hm e₁ r₁ hm' => ?_, rfl⟩
    have hmn : m ≠ n := fun h => hne d e₁ r₁ rfl (h ▸ hm')
    exact hall m (by omega) e₁ r₁ hm'

/-- Every output named below `n` has its row. -/
theorem exists_consensusRef {d : B256} {m e r : ℕ} (hm : m < n)
    (hnames : NamesOutput up (chain.block m).header d e r) :
    ∃ row, ConsensusRef up chain n row ∧ row.digest = digestHex d := by
  induction n generalizing m e r with
  | zero => omega
  | succ n ih =>
    by_cases hn : ∃ e r, NamesOutput up (chain.block n).header d e r
    · obtain ⟨e', r', hn⟩ := hn
      by_cases hold : ∃ m < n, ∃ e r, NamesOutput up (chain.block m).header d e r
      · obtain ⟨m', hm', e₁, r₁, hm₁⟩ := hold
        obtain ⟨row, hrow, hd⟩ := ih hm' hm₁
        exact ⟨_, hrow.widen hd hn, hd⟩
      · refine ⟨_, ConsensusRef.start hn fun m hm e r h => hold ⟨m, hm, e, r, h⟩, rfl⟩
    · have hmn : m ≠ n := fun h => hn ⟨e, r, h ▸ hnames⟩
      obtain ⟨row, hrow, hd⟩ := ih (show m < n by omega) hnames
      refine ⟨row, (consensusRef_succ_of_not_names fun d' e' r' hd' h => hn ⟨e', r', ?_⟩).mpr hrow,
        hd⟩
      rwa [digestHex_injective (hd.symm.trans hd')]

/-- The consensus upsert of block `n`. -/
theorem consensusRef_upsert {blocks : Table ConsensusBlock.digest} {d : B256} {e r : ℕ}
    (hblocks : ∀ row, row ∈ blocks.rows ↔ ConsensusRef up chain n row)
    (hn : NamesOutput up (chain.block n).header d e r) (row : ConsensusBlock) :
    row ∈ (blocks.upsert widenRange ⟨digestHex d, e, r, n, n⟩).rows ↔
      ConsensusRef up chain (n + 1) row := by
  rw [Table.mem_iff_find?, Table.find?_upsert]
  by_cases hd : row.digest = digestHex d
  · rw [if_pos hd, hd, Option.some.injEq]
    -- The row the upsert leaves is one of the prefix, and there is only one with its digest.
    suffices h : ConsensusRef up chain (n + 1) (((blocks.find? (digestHex d)).map
        fun old => widenRange.update old ⟨digestHex d, e, r, n, n⟩).getD
          ⟨digestHex d, e, r, n, n⟩) by
      refine ⟨fun hrow => hrow ▸ h, fun hrow => h.eq_of_key_eq hrow ?_⟩
      rw [hd]
      cases hold : blocks.find? (digestHex d) with
      | none => rfl
      | some old => exact (Table.key_of_find? hold : old.digest = digestHex d)
    cases hold : blocks.find? (digestHex d) with
    | none =>
      refine ConsensusRef.start hn fun m hm e' r' hm' => ?_
      obtain ⟨row', hrow', hd'⟩ := exists_consensusRef hm hm'
      exact Table.find?_eq_none_iff.mp hold row' ((hblocks row').mpr hrow') hd'
    | some old =>
      exact ((hblocks old).mp (Table.mem_of_find? hold)).widen (Table.key_of_find? hold) hn
  · rw [if_neg hd, ← Table.mem_iff_find?, hblocks]
    refine (consensusRef_succ_of_not_names fun d' e' r' hd' h => hd ?_).symm
    rw [hd', (hn.unique h).1]

/-- **Indexing the next block extends the prefix by one.** -/
theorem Reference.applied {db : Db} (h : Reference up chain n db) (tokenRows : List TokenRow) :
    Reference up chain (n + 1)
      (db.applied (extractBlock up (chain.block n) (chain.receipts n)) tokenRows) where
  addressTxs row := by
    have hmem : ∀ r : AddressTx, r ∈ db.addressTxs.rows ∨
        r ∈ (extractBlock up (chain.block n) (chain.receipts n)).addressRows.map .ofRow →
        AddressRef up chain (n + 1) r := fun r hr =>
      addressRef_succ.mpr (hr.imp_left (h.addressTxs r).mp)
    rw [addressRef_succ, ← h.addressTxs]
    exact Table.mem_insertAll_iff fun r s hr hs => (hmem r hr).eq_of_key_eq (hmem s hs)
  txTypes row := by
    rw [typeRef_succ up, ← h.txTypes]
    exact Table.mem_insertAll_iff fun r s _ _ => TxTypeRow.key_injective
  txTypeCounts := h.txTypeCounts.applied _ tokenRows
  tokenTransfers row := by
    have hmem : ∀ r : StoredTransfer, r ∈ db.tokenTransfers.rows ∨
        r ∈ (extractBlock up (chain.block n) (chain.receipts n)).transfers.map .ofRow →
        TransferRef chain (n + 1) r := fun r hr =>
      (transferRef_succ up).mpr (hr.imp_left (h.tokenTransfers r).mp)
    rw [transferRef_succ up, ← h.tokenTransfers]
    exact Table.mem_insertAll_iff fun r s hr hs => (hmem r hr).eq_of_key_eq (hmem s hs)
  consensusBlocks row := by
    cases hc : (extractBlock up (chain.block n) (chain.receipts n)).consensus with
    | none =>
      simp only [Db.applied, hc, Option.toList_none, List.foldl_nil, h.consensusBlocks]
      refine (consensusRef_succ_of_not_names fun d e r _ hd => ?_).symm
      have hsome : (extractBlock up (chain.block n) (chain.receipts n)).consensus =
          some ⟨d, e, r, (chain.block n).number⟩ := consensus_eq_some.mpr ⟨hd, rfl⟩
      rw [hc] at hsome
      cases hsome
    | some c =>
      obtain ⟨hd, hnumber⟩ := consensus_eq_some.mp hc
      rw [chain.number_block] at hnumber
      simp only [Db.applied, hc, Option.toList_some, List.foldl_cons, List.foldl_nil]
      rw [ConsensusBlock.ofRow, hnumber]
      exact consensusRef_upsert h.consensusBlocks hd row

end Step

/-! ### Deliveries -/

theorem next_applied (db : Db) (extracted : ExtractedBlock) (tokenRows : List TokenRow)
    (h : extracted.number < 2 ^ 64) :
    (db.applied extracted tokenRows).next = extracted.number + 1 := by
  rw [Db.next, cursor_applied db extracted tokenRows h]
  rfl

/-- A block above the cursor is not below the next one. -/
theorem next_le_of_above {db : Db} {n : ℕ} (h : ∀ c, db.cursor = some c → c < n) :
    db.next ≤ n := by
  rw [Db.next]
  cases hc : db.cursor with
  | none => exact Nat.zero_le n
  | some c => exact h c hc

section Deliver

variable (up : Upstream) (chain : Chain)

/-- Deliver block `n`: extract its rows and index them, with the token rows the loop fetched. -/
def deliver (n : ℕ) (tokenRows : List TokenRow) : Script Db Error Bool :=
  indexBlock (extractBlock up (chain.block n) (chain.receipts n)) tokenRows

/-- The databases that gapless deliveries lead to: block `0` first on an empty index, then any
block up to `cursor + 1`, any number of times, each call cut short at any statement or not. -/
inductive Delivered : Db → Prop where
  | fresh (chainId : UInt64) : Delivered (freshDb chainId)
  | deliver {db : Db} (h : Delivered db) (n : ℕ) (tokenRows : List TokenRow) (budget : Option ℕ)
      (hn : n ≤ db.next) (hbound : n < 2 ^ 63) :
      Delivered (deliver up chain n tokenRows ⟨db, budget⟩).2.store

/-- The integers of block `n` and its token rows fit the columns. -/
structure FitsColumns (n : ℕ) (tokenRows : List TokenRow) : Prop where
  number : n < 2 ^ 63
  transactions : (chain.block n).transactionsWithSender.length < 2 ^ 63
  logs : ∀ receipt ∈ chain.receipts n, receipt.logs.length < 2 ^ 63
  tokenRows : ∀ row ∈ tokenRows, row.fetchedAt < 2 ^ 63

variable {up chain}

theorem FitsColumns.storable (up : Upstream) {n : ℕ} {tokenRows : List TokenRow}
    (h : FitsColumns chain n tokenRows) :
    Storable (extractBlock up (chain.block n) (chain.receipts n)) tokenRows where
  addressRows r hr := by
    rw [addressRows_extractBlock] at hr
    obtain ⟨e, he, hr⟩ := List.mem_flatMap.mp hr
    obtain ⟨a, -, rfl⟩ := mem_txAddressRows.mp hr
    have hi := (List.getElem?_eq_some_iff.mp (List.mem_zipIdx_iff_getElem?.mp he)).1
    exact ⟨by rw [chain.number_block]; exact h.number, hi.trans h.transactions⟩
  txTypes r hr := by
    obtain ⟨i, sender, tx, htx, rfl⟩ := mem_txTypes.mp hr
    have hi := (List.getElem?_eq_some_iff.mp htx).1
    exact ⟨by rw [chain.number_block]; exact h.number, hi.trans h.transactions⟩
  length_txTypes := by
    rw [txTypes_extractBlock, List.length_map, List.length_zipIdx]
    exact h.transactions
  consensus r hr := by
    rw [(consensus_eq_some.mp hr).2, chain.number_block]
    exact h.number
  transfers r hr := by
    obtain ⟨i, j, receipt, log, f, t, hi, hreceipt, hlog, -, -, heq⟩ :=
      mem_transfers.mp (List.mem_map_of_mem (f := StoredTransfer.ofRow) hr)
    simp only [StoredTransfer.ofRow, StoredTransfer.mk.injEq] at heq
    obtain ⟨hn, hri, hrj, -⟩ := heq
    obtain ⟨e, he⟩ := Option.isSome_iff_exists.mp hi
    have hi := (List.getElem?_eq_some_iff.mp he).1
    have hj := (List.getElem?_eq_some_iff.mp hlog).1
    have hlogs := h.logs receipt (List.mem_of_getElem? hreceipt)
    rw [hn, hri, hrj, chain.number_block]
    exact ⟨h.number, hi.trans h.transactions, hj.trans hlogs⟩
  tokenRows := h.tokenRows

theorem reference_freshDb (chainId : UInt64) : Reference up chain 0 (freshDb chainId) where
  addressTxs row := ⟨nofun, by rintro ⟨n, hn, -⟩; omega⟩
  txTypes row := ⟨nofun, by rintro ⟨n, hn, -⟩; omega⟩
  txTypeCounts := countsExact_emptyDb _
  tokenTransfers row := ⟨nofun, by rintro ⟨n, hn, -⟩; omega⟩
  consensusBlocks row := ⟨nofun, by rintro ⟨d, e, r, lo, hi, hlo, -⟩; omega⟩

/-- A delivery of a block up to `cursor + 1` keeps the reference, and moves the cursor by at most
one block. -/
theorem Reference.deliver {db : Db} (h : Reference up chain db.next db) {n : ℕ} (hn : n ≤ db.next)
    (hbound : n < 2 ^ 64) (tokenRows : List TokenRow) (budget : Option ℕ) :
    Reference up chain (deliver up chain n tokenRows ⟨db, budget⟩).2.store.next
      (deliver up chain n tokenRows ⟨db, budget⟩).2.store := by
  rw [ExplorerIndexer.deliver]
  rcases store_indexBlock (extractBlock up (chain.block n) (chain.receipts n)) tokenRows
    ⟨db, budget⟩ with ⟨heq, habove⟩ | heq
  · rw [heq]
    rw [number_extractBlock, chain.number_block] at habove
    have hnext : n = db.next := Nat.le_antisymm hn (next_le_of_above habove)
    rw [next_applied _ _ _ (by rwa [number_extractBlock, chain.number_block]),
      number_extractBlock, chain.number_block]
    exact (hnext ▸ h).applied tokenRows
  · rw [heq]
    exact h

theorem Delivered.readCursor {db : Db} (h : Delivered up chain db) :
    ∃ cursor, db.readCursor = .ok cursor := by
  induction h with
  | fresh chainId =>
    refine ⟨none, ?_⟩
    rw [Db.readCursor, freshDb, emptyDb, readMeta_replace, if_neg (by simp)]
    decide
  | deliver h n tokenRows budget hn hbound ih =>
    rw [ExplorerIndexer.deliver]
    rcases store_indexBlock (extractBlock up (chain.block n) (chain.receipts n)) tokenRows
      ⟨_, budget⟩ with ⟨heq, -⟩ | heq
    · rw [heq]
      exact ⟨_, readCursor_applied _ _ _ (by rw [number_extractBlock, chain.number_block]; omega)⟩
    · rw [heq]
      exact ih

/-- **The index is a function of the chain prefix.** After any gapless delivery the tables at cursor
`c` hold exactly the rows of the blocks `0..=c`; and the delivery never gets stuck: an uncut call
returns, with the cursor at the delivered block if it was below. -/
theorem index_eq_reference {db : Db} (h : Delivered up chain db) :
    Reference up chain db.next db ∧
      ∀ n tokenRows, n ≤ db.next → FitsColumns chain n tokenRows →
        ∃ b db', deliver up chain n tokenRows ⟨db, none⟩ = (.ok b, ⟨db', none⟩) ∧
          db'.next = max db.next (n + 1) := by
  refine ⟨?_, fun n tokenRows hn hfits => ?_⟩
  · induction h with
    | fresh chainId =>
      rw [Db.next, cursor_freshDb]
      exact reference_freshDb chainId
    | deliver h n tokenRows budget hn hbound ih => exact ih.deliver hn (by omega) tokenRows budget
  · obtain ⟨cursor, hcursor⟩ := h.readCursor
    obtain ⟨b, db', hrun, hout⟩ := indexBlock_returns hcursor (hfits.storable up)
    refine ⟨b, db', hrun, ?_⟩
    have hnumber := hfits.number
    cases b with
    | true =>
      obtain ⟨rfl, habove⟩ := hout
      rw [number_extractBlock, chain.number_block] at habove
      have := next_le_of_above habove
      rw [next_applied _ _ _ (by rw [number_extractBlock, chain.number_block]; omega),
        number_extractBlock, chain.number_block]
      omega
    | false =>
      obtain ⟨rfl, c, hc, hle⟩ := hout
      rw [number_extractBlock, chain.number_block] at hle
      have : db'.next = c + 1 := by rw [Db.next, hc]; rfl
      omega

theorem fitsColumns_transferChain {n : ℕ} (h : n < 2 ^ 63) :
    FitsColumns transferChain.toChain n [] where
  number := h
  transactions := by
    show 1 < 2 ^ 63
    decide
  logs receipt hmem := by
    rw [List.mem_singleton.mp hmem]
    decide
  tokenRows _ hmem := absurd hmem List.not_mem_nil

/-- The index after the blocks `0` and `1`, and block `0` again. -/
def redeliveredDb : Db :=
  [0, 1, 0].foldl
    (fun db n => (deliver plainUpstream transferChain.toChain n [] ⟨db, none⟩).2.store) (freshDb 7)

/-- It holds one transfer of each block, and block `2` can be delivered. -/
theorem index_eq_reference_redelivered :
    redeliveredDb.tokenTransfers.rows.map (fun row => (row.blockNumber, row.logIndex)) =
        [(0, 0), (1, 0)] ∧
      Reference plainUpstream transferChain.toChain 2 redeliveredDb ∧
      ∃ b db', deliver plainUpstream transferChain.toChain 2 [] ⟨redeliveredDb, none⟩ =
        (.ok b, ⟨db', none⟩) ∧ db'.next = 3 := by
  have h₀ : Delivered plainUpstream transferChain.toChain (freshDb 7) := .fresh 7
  have h₁ := h₀.deliver 0 [] none (by decide +kernel) (by decide)
  have h₂ := h₁.deliver 1 [] none (by decide +kernel) (by decide)
  have h₃ := h₂.deliver 0 [] none (by decide +kernel) (by decide)
  have h₃ : Delivered plainUpstream transferChain.toChain redeliveredDb := by
    rw [redeliveredDb, List.foldl_cons, List.foldl_cons, List.foldl_cons, List.foldl_nil]
    exact h₃
  have hnext : redeliveredDb.next = 2 := by decide +kernel
  obtain ⟨hreference, hdeliver⟩ := index_eq_reference h₃
  rw [hnext] at hreference hdeliver
  exact ⟨by decide +kernel, hreference,
    hdeliver 2 [] le_rfl (fitsColumns_transferChain (by decide))⟩

end Deliver

end ExplorerIndexer
