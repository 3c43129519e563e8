import ExplorerIndexer.Api
import ExplorerIndexer.TokenRows

/-!
# Transfer amounts

An amount is 32 bytes of log data, a 256-bit integer, a decimal text in a column, and on the wire
that text beside a number of 128 bits. The text is read back with a fallback for whatever does not
parse; no stored text needs it except those of amounts that do not fit.

## Main definitions

* `AmountExact` — an item shows an amount

## Main results

* `amountExact_of_repr` — what is sent of a stored row is its amount
* `amounts_survive` — from the log to the wire, through the table
-/

namespace ExplorerIndexer

/-- An item shows the amount `v`: the exact value is its decimal numeral, and the number is `v`,
capped at `u128::MAX`. -/
structure AmountExact (item : ApiTokenTransfer) (v : ℕ) : Prop where
  exact : item.valueExact = v.repr
  /-- The numeral reads back. -/
  parses : Numeral.parseNat (2 ^ 256) item.valueExact = some v
  capped : item.value = min v (2 ^ 128 - 1)
  fits : v < 2 ^ 128 → item.value = v

/-- **What is sent of a stored row is its amount.** The fallback is taken exactly above
`u128::MAX`. -/
theorem amountExact_of_repr {stored : StoredTransfer} {v : ℕ} (h : stored.value = v.repr)
    (hlt : v < 2 ^ 256) (hydrated : TxData) (token : Option StoredToken) :
    AmountExact (buildTokenTransfer stored hydrated token) v := by
  have hexact : (buildTokenTransfer stored hydrated token).valueExact = v.repr := h
  have hvalue : (buildTokenTransfer stored hydrated token).value = min v (2 ^ 128 - 1) := by
    change (Numeral.parseNat (2 ^ 128) stored.value).getD (2 ^ 128 - 1) = _
    rw [h, Numeral.parseNat_repr_eq]
    split
    · rw [Option.getD_some]
      omega
    · rw [Option.getD_none]
      omega
  refine ⟨hexact, ?_, hvalue, fun hfits => ?_⟩
  · rw [hexact, Numeral.parseNat_repr hlt]
  · rw [hvalue]
    omega

theorem amountExact_ofRow (row : TransferRow) (hydrated : TxData) (token : Option StoredToken) :
    AmountExact (buildTokenTransfer (.ofRow row) hydrated token) row.value.toNat :=
  amountExact_of_repr rfl row.value.isLt hydrated token

/-- A datum of 32 bytes is a 256-bit integer. -/
theorem fromBeBytes_lt_of_length {bytes : Bytes} (h : bytes.length = 32) :
    fromBeBytes bytes < 2 ^ 256 := by
  have hlt := fromBeBytes_lt bytes
  rw [h] at hlt
  exact hlt.trans_le (by decide)

/-- The decoded value of a log is its datum, as a big-endian number. -/
theorem value_decodeTransferLog {log : Log} {n i j : ℕ} {row : TransferRow}
    (h : decodeTransferLog log n i j = some row) : row.value.toNat = fromBeBytes log.data := by
  obtain ⟨fromTopic, toTopic, -, hlen, rfl⟩ := decodeTransferLog_eq_some.mp h
  exact Nat.mod_eq_of_lt (fromBeBytes_lt_of_length hlen)

/-- A log with a 32-byte datum decodes to a row that is sent with the datum as its amount. -/
theorem amountExact_decodeTransferLog {log : Log} {fromTopic toTopic : B256}
    (htopics : log.topics = [TRANSFER_TOPIC, fromTopic, toTopic]) (hlen : log.data.length = 32)
    (n i j : ℕ) : ∃ row, decodeTransferLog log n i j = some row ∧ ∀ hydrated token,
      AmountExact (buildTokenTransfer (.ofRow row) hydrated token) (fromBeBytes log.data) := by
  have hrow := decodeTransferLog_eq_some (n := n) (i := i) (j := j).mpr
    ⟨fromTopic, toTopic, htopics, hlen, rfl⟩
  refine ⟨_, hrow, amountExact_of_repr ?_ (fromBeBytes_lt_of_length hlen)⟩
  exact congrArg Nat.repr (value_decodeTransferLog hrow)

/-- Once a block is committed, the table has the amount of each of its transfers. -/
theorem amountExact_applied {up : Upstream} {s : LoopState} (hs : (loopSystem up).Reachable s)
    {block : RecoveredBlock} {receipts : List Receipt}
    (habove : ∀ c, s.db.cursor = some c → c < block.number) (tokenRows : List TokenRow) {i j : ℕ}
    {receipt : Receipt} {log : Log} {fromTopic toTopic : B256}
    (htx : (block.transactionsWithSender[i]?).isSome) (hreceipt : receipts[i]? = some receipt)
    (hlog : receipt.logs[j]? = some log)
    (htopics : log.topics = [TRANSFER_TOPIC, fromTopic, toTopic]) (hlen : log.data.length = 32) :
    ∃ stored, (s.db.applied (extractBlock up block receipts) tokenRows).tokenTransfers.find?
        (block.number, i, j) = some stored ∧
      ∀ hydrated token,
        AmountExact (buildTokenTransfer stored hydrated token) (fromBeBytes log.data) := by
  have hrow : (⟨block.number, i, j, addrHex log.address, addrHex (fromTopic.setWidth 160),
      addrHex (toTopic.setWidth 160), (fromBeBytes log.data).repr⟩ : StoredTransfer) ∈
        (extractBlock up block receipts).transfers.map .ofRow :=
    mem_transfers.mpr ⟨i, j, receipt, log, fromTopic, toTopic, htx, hreceipt, hlog, htopics, hlen,
      rfl⟩
  have hstored := (mem_tokenTransfers_applied (rowsBelow_of_reachable hs) habove tokenRows).mpr
    (Or.inr hrow)
  exact ⟨_, Table.mem_iff_find?.mp hstored,
    amountExact_of_repr rfl (fromBeBytes_lt_of_length hlen)⟩

/-- Different amounts have different exact values: both read back. -/
theorem valueExact_ne {row row' : TransferRow} (hne : row.value ≠ row'.value)
    (hydrated hydrated' : TxData) (token token' : Option StoredToken) :
    (buildTokenTransfer (.ofRow row) hydrated token).valueExact ≠
      (buildTokenTransfer (.ofRow row') hydrated' token').valueExact := by
  intro heq
  have hparse := (amountExact_ofRow row hydrated token).parses
  rw [heq, (amountExact_ofRow row' hydrated' token').parses] at hparse
  exact hne (BitVec.eq_of_toNat_eq (Option.some.inj hparse).symm)

/-- **Transfer amounts survive the pipeline.** Every log with a 32-byte datum decodes to a row that
is sent with the datum as its amount; so is what the table holds at its position once its block is
committed; and two rows with different amounts never have the same exact value. -/
theorem amounts_survive (up : Upstream) :
    (∀ (log : Log) (fromTopic toTopic : B256), log.topics = [TRANSFER_TOPIC, fromTopic, toTopic] →
      log.data.length = 32 → ∀ blockNumber txIndex logIndex,
        ∃ row, decodeTransferLog log blockNumber txIndex logIndex = some row ∧
          ∀ hydrated token, AmountExact (buildTokenTransfer (.ofRow row) hydrated token)
            (fromBeBytes log.data)) ∧
    (∀ s, (loopSystem up).Reachable s → ∀ (block : RecoveredBlock) receipts tokenRows,
      (∀ c, s.db.cursor = some c → c < block.number) →
      ∀ txIndex logIndex receipt log fromTopic toTopic,
        (block.transactionsWithSender[txIndex]?).isSome → receipts[txIndex]? = some receipt →
        receipt.logs[logIndex]? = some log → log.topics = [TRANSFER_TOPIC, fromTopic, toTopic] →
        log.data.length = 32 →
        ∃ stored, (s.db.applied (extractBlock up block receipts) tokenRows).tokenTransfers.find?
            (block.number, txIndex, logIndex) = some stored ∧
          ∀ hydrated token, AmountExact (buildTokenTransfer stored hydrated token)
            (fromBeBytes log.data)) ∧
    ∀ row row' hydrated hydrated' token token', row.value ≠ row'.value →
      (buildTokenTransfer (.ofRow row) hydrated token).valueExact ≠
        (buildTokenTransfer (.ofRow row') hydrated' token').valueExact :=
  ⟨fun _ _ _ htopics hlen => amountExact_decodeTransferLog htopics hlen,
    fun _ hs _ _ tokenRows habove _ _ _ _ _ _ htx hreceipt hlog htopics hlen =>
      amountExact_applied hs habove tokenRows htx hreceipt hlog htopics hlen,
    fun _ _ hydrated hydrated' token token' hne =>
      valueExact_ne hne hydrated hydrated' token token'⟩

/-- The largest amount saturates the number and keeps its text; a stored amount of zero is zero. -/
theorem amounts_survive_largest :
    (∃ row, decodeTransferLog ⟨7, [TRANSFER_TOPIC, 1, 2], List.replicate 32 255⟩ 0 0 0 = some row ∧
      ∀ hydrated token,
        (buildTokenTransfer (.ofRow row) hydrated token).valueExact = (2 ^ 256 - 1).repr ∧
        (buildTokenTransfer (.ofRow row) hydrated token).value = 2 ^ 128 - 1) ∧
    ∃ stored, ((freshDb 7).applied (extractBlock plainUpstream (steadyChain.block 3) tokenReceipts)
        []).tokenTransfers.find? (3, 0, 0) = some stored ∧
      ∀ hydrated token, (buildTokenTransfer stored hydrated token).value = 0 := by
  obtain ⟨hlog, hstored, -⟩ := amounts_survive plainUpstream
  refine ⟨?_, ?_⟩
  · obtain ⟨row, hrow, hamount⟩ :=
      hlog ⟨7, [TRANSFER_TOPIC, 1, 2], List.replicate 32 255⟩ 1 2 rfl rfl 0 0 0
    have hv : fromBeBytes (List.replicate 32 255) = 2 ^ 256 - 1 := by decide +kernel
    refine ⟨row, hrow, fun hydrated token => ?_⟩
    have hitem := hamount hydrated token
    rw [hv] at hitem
    exact ⟨hitem.exact, hitem.capped⟩
  · obtain ⟨stored, hfind, hamount⟩ := hstored ⟨freshDb 7, none, []⟩ (.init ⟨7, rfl⟩)
      (steadyChain.block 3) tokenReceipts [] (fun c hc => by cases hc) 0 0 _
      ⟨7, [TRANSFER_TOPIC, 1, 2], List.replicate 32 0⟩ 1 2 rfl rfl rfl rfl rfl
    have hv : fromBeBytes (List.replicate 32 0) = 0 := by decide +kernel
    refine ⟨stored, hfind, fun hydrated token => ?_⟩
    rw [(hamount hydrated token).capped, hv, Nat.zero_min]

end ExplorerIndexer
