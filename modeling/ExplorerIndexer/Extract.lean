import ExplorerIndexer.Chain
import Mathlib.Data.List.Nodup

/-!
# Extraction of the index rows of one block

`extractBlock` turns an executed block and its receipts into the rows the index stores. It is two
nested loops that push onto one accumulator; the lemmas below say what each vector of the result
holds, so that nothing later unfolds the loops.

## Main results

* `addressRows_extractBlock`, `txTypes_extractBlock`, `transfers_extractBlock` — the row vectors,
  as one list per transaction in transaction order
* `mem_tokenCandidates_extractBlock`, `nodup_tokenCandidates_extractBlock` — the candidates are
  the tokens of the transfer rows, each once
-/

namespace ExplorerIndexer

/-- `keccak256("Transfer(address,address,uint256)")`. -/
def TRANSFER_TOPIC : B256 := 0xddf252ad1be2c89b69c2b068fc378daa952ba7f163c4a11628f55a4df523b3ef#256

/-- Names of the transaction types, positioned by type byte. -/
def TX_TYPE_NAMES : List String := ["legacy", "eip2930", "eip1559", "eip4844", "eip7702"]

/-! ### Rows -/

/-- One `address_txs` pointer row. -/
structure AddressRow where
  address : Address
  blockNumber : ℕ
  txIndex : ℕ
  txType : ℕ
  deriving DecidableEq, Repr

/-- One `tx_types` pointer row. -/
structure TxTypeRow where
  txType : ℕ
  blockNumber : ℕ
  txIndex : ℕ
  deriving DecidableEq, Repr

/-- One decoded ERC-20 `Transfer` log. -/
structure TransferRow where
  blockNumber : ℕ
  txIndex : ℕ
  /-- Position of the log within its transaction's receipt. -/
  logIndex : ℕ
  token : Address
  fromAddr : Address
  toAddr : Address
  value : U256
  deriving DecidableEq, Repr

/-- The consensus output a block was produced by. -/
structure ConsensusRow where
  digest : B256
  epoch : ℕ
  round : ℕ
  blockNumber : ℕ
  deriving DecidableEq, Repr

/-- The consensus provenance packed into a header. -/
structure HeaderConsensusFields where
  digest : B256
  epoch : ℕ
  round : ℕ
  batchIndex : ℕ
  workerId : ℕ
  batchDigest : B256
  prevRandao : Option B256
  closesEpoch : Bool
  deriving DecidableEq, Repr

/-- Everything the index persists for one block. -/
structure ExtractedBlock where
  number : ℕ
  addressRows : List AddressRow
  txTypes : List TxTypeRow
  transfers : List TransferRow
  /-- Distinct contracts that emitted a conforming `Transfer`, in first-seen order. -/
  tokenCandidates : List Address
  consensus : Option ConsensusRow
  deriving DecidableEq, Repr

/-! ### Decoding -/

/-- `u64::try_from`. -/
def toU64? (value : U256) : Option ℕ := if value.toNat < 2 ^ 64 then some value.toNat else none

/-- Decode the consensus fields of a header. `none` for genesis, for a missing root, and for a
difficulty that does not fit 64 bits. -/
def decodeConsensusFields (up : Upstream) (header : ExecHeader) : Option HeaderConsensusFields :=
  if header.number = 0 then none
  else do
    let digest ← header.parentBeaconBlockRoot
    let nonce := up.deconstructNonce (fromBeBytes header.nonce.toList)
    let difficulty ← toU64? header.difficulty
    some
      { digest
        epoch := nonce.1
        round := nonce.2
        batchIndex := difficulty >>> 16
        workerId := difficulty &&& 0xffff
        batchDigest := header.ommersHash
        prevRandao := some header.mixHash
        closesEpoch := !header.extraData.isEmpty }

/-- Decode one receipt log as an ERC-20 `Transfer`: three topics, the first the event's, and 32
bytes of data. The two indexed addresses are the low 20 bytes of their topics. -/
def decodeTransferLog (log : Log) (blockNumber txIndex logIndex : ℕ) : Option TransferRow :=
  match log.topics with
  | [topic, fromTopic, toTopic] =>
    if topic ≠ TRANSFER_TOPIC then none
    else if log.data.length ≠ 32 then none
    else some
      { blockNumber, txIndex, logIndex
        token := log.address
        fromAddr := fromTopic.setWidth 160
        toAddr := toTopic.setWidth 160
        value := BitVec.ofNat 256 (fromBeBytes log.data) }
  | _ => none

theorem token_decodeTransferLog {log : Log} {n i j : ℕ} {row : TransferRow}
    (h : decodeTransferLog log n i j = some row) :
    row.blockNumber = n ∧ row.txIndex = i ∧ row.logIndex = j ∧ row.token = log.address := by
  rw [decodeTransferLog] at h
  split at h
  · split at h
    · cases h
    · split at h
      · cases h
      · cases h; exact ⟨rfl, rfl, rfl, rfl⟩
  · cases h

/-! ### The loops -/

/-- The body of the inner loop: push a decoded transfer, and its token when it is new. -/
def pushLog (number txIndex : ℕ) (acc : ExtractedBlock) (entry : Log × ℕ) : ExtractedBlock :=
  match decodeTransferLog entry.1 number txIndex entry.2 with
  | none => acc
  | some row =>
    { acc with
      tokenCandidates :=
        if row.token ∈ acc.tokenCandidates then acc.tokenCandidates
        else acc.tokenCandidates ++ [row.token]
      transfers := acc.transfers ++ [row] }

/-- The address rows of one transaction: the sender, and the recipient or the created contract. -/
def txAddressRows (up : Upstream) (number : ℕ) (sender : Address) (tx : TransactionSigned)
    (txIndex : ℕ) : List AddressRow :=
  [⟨sender, number, txIndex, tx.ty⟩,
    match tx.toAddr with
    | some toAddr => ⟨toAddr, number, txIndex, tx.ty⟩
    | none => ⟨up.create sender tx.nonce, number, txIndex, tx.ty⟩]

/-- The body of the outer loop. A transaction without a receipt contributes no transfers. -/
def pushTx (up : Upstream) (number : ℕ) (receipts : List Receipt) (acc : ExtractedBlock)
    (entry : (Address × TransactionSigned) × ℕ) : ExtractedBlock :=
  let sender := entry.1.1
  let tx := entry.1.2
  let txIndex := entry.2
  let acc :=
    { acc with
      txTypes := acc.txTypes ++ [⟨tx.ty, number, txIndex⟩]
      addressRows := acc.addressRows ++ txAddressRows up number sender tx txIndex }
  match receipts[txIndex]? with
  | none => acc
  | some receipt => receipt.logs.zipIdx.foldl (pushLog number txIndex) acc

/-- Extract every index row from one executed block and its receipts. -/
def extractBlock (up : Upstream) (block : RecoveredBlock) (receipts : List Receipt) :
    ExtractedBlock :=
  let number := block.number
  let acc := block.transactionsWithSender.zipIdx.foldl (pushTx up number receipts)
    ⟨number, [], [], [], [], none⟩
  { acc with
    consensus := (decodeConsensusFields up block.header).map fun fields =>
      ⟨fields.digest, fields.epoch, fields.round, number⟩ }

/-! ### What the loops leave -/

/-- The transfer rows of one transaction. -/
def txTransfers (number : ℕ) (receipts : List Receipt) (txIndex : ℕ) : List TransferRow :=
  match receipts[txIndex]? with
  | none => []
  | some receipt =>
    receipt.logs.zipIdx.filterMap fun entry => decodeTransferLog entry.1 number txIndex entry.2

/-- What the inner loop does to the two vectors it pushes to. -/
theorem foldl_pushLog (number txIndex : ℕ) (logs : List (Log × ℕ)) (acc : ExtractedBlock) :
    ∃ candidates, logs.foldl (pushLog number txIndex) acc =
      { acc with
        tokenCandidates := candidates
        transfers := acc.transfers ++
          logs.filterMap fun entry => decodeTransferLog entry.1 number txIndex entry.2 } ∧
      (acc.tokenCandidates.Nodup → candidates.Nodup) ∧
      ∀ a, a ∈ candidates ↔ a ∈ acc.tokenCandidates ∨
        ∃ row ∈ logs.filterMap fun entry => decodeTransferLog entry.1 number txIndex entry.2,
          row.token = a := by
  induction logs generalizing acc with
  | nil => exact ⟨acc.tokenCandidates, by simp, id, fun a => by simp⟩
  | cons entry logs ih =>
    rw [List.foldl_cons]
    obtain ⟨candidates, heq, hnodup, hmem⟩ := ih (pushLog number txIndex acc entry)
    cases hrow : decodeTransferLog entry.1 number txIndex entry.2 with
    | none =>
      have hpush : pushLog number txIndex acc entry = acc := by simp [pushLog, hrow]
      rw [hpush] at heq hnodup hmem
      refine ⟨candidates, ?_, hnodup, fun a => ?_⟩
      · rw [hpush, heq]; simp [hrow]
      · rw [hmem]; simp [hrow]
    | some row =>
      refine ⟨candidates, ?_, fun h => hnodup ?_, fun a => ?_⟩
      · rw [heq]; simp [pushLog, hrow]
      · simp only [pushLog, hrow]
        split
        · exact h
        · next hnew => simpa using List.Nodup.concat hnew h
      · have hacc : a ∈ (pushLog number txIndex acc entry).tokenCandidates ↔
            a ∈ acc.tokenCandidates ∨ row.token = a := by
          simp only [pushLog, hrow]
          split <;> grind
        rw [hmem, hacc, or_assoc]
        simp [hrow]

/-- What one pass of the outer loop does to each vector. -/
theorem foldl_pushTx (up : Upstream) (number : ℕ) (receipts : List Receipt)
    (txs : List ((Address × TransactionSigned) × ℕ)) (acc : ExtractedBlock) :
    ∃ candidates, txs.foldl (pushTx up number receipts) acc =
      { acc with
        addressRows := acc.addressRows ++
          txs.flatMap fun e => txAddressRows up number e.1.1 e.1.2 e.2
        txTypes := acc.txTypes ++ txs.map fun e => ⟨e.1.2.ty, number, e.2⟩
        tokenCandidates := candidates
        transfers := acc.transfers ++ txs.flatMap fun e => txTransfers number receipts e.2 } ∧
      (acc.tokenCandidates.Nodup → candidates.Nodup) ∧
      ∀ a, a ∈ candidates ↔ a ∈ acc.tokenCandidates ∨
        ∃ e ∈ txs, ∃ row ∈ txTransfers number receipts e.2, row.token = a := by
  induction txs generalizing acc with
  | nil => exact ⟨acc.tokenCandidates, by simp, id, fun a => by simp⟩
  | cons e txs ih =>
    rw [List.foldl_cons]
    obtain ⟨candidates, heq, hnodup, hmem⟩ := ih (pushTx up number receipts acc e)
    cases hr : receipts[e.2]? with
    | none =>
      have htr : txTransfers number receipts e.2 = [] := by simp [txTransfers, hr]
      refine ⟨candidates, ?_, fun h => hnodup (by simpa [pushTx, hr] using h), fun a => ?_⟩
      · rw [heq]; simp [pushTx, hr, htr]
      · rw [hmem]; simp [pushTx, hr, htr]
    | some receipt =>
      have htr : txTransfers number receipts e.2 = receipt.logs.zipIdx.filterMap
          fun entry => decodeTransferLog entry.1 number e.2 entry.2 := by simp [txTransfers, hr]
      obtain ⟨inner, hinner, hin, him⟩ := foldl_pushLog number e.2 receipt.logs.zipIdx
        { acc with
          txTypes := acc.txTypes ++ [⟨e.1.2.ty, number, e.2⟩]
          addressRows := acc.addressRows ++ txAddressRows up number e.1.1 e.1.2 e.2 }
      have hpush : pushTx up number receipts acc e =
          { acc with
            txTypes := acc.txTypes ++ [⟨e.1.2.ty, number, e.2⟩]
            addressRows := acc.addressRows ++ txAddressRows up number e.1.1 e.1.2 e.2
            tokenCandidates := inner
            transfers := acc.transfers ++ txTransfers number receipts e.2 } := by
        rw [htr]
        simp only [pushTx, hr]
        exact hinner
      refine ⟨candidates, ?_, fun h => hnodup ?_, fun a => ?_⟩
      · rw [heq, hpush]; simp
      · rw [hpush]; exact hin h
      · rw [hmem, hpush, him, or_assoc, ← htr]
        simp

section ExtractBlock

variable (up : Upstream) (block : RecoveredBlock) (receipts : List Receipt)

@[simp] theorem number_extractBlock : (extractBlock up block receipts).number = block.number := by
  obtain ⟨c, h, -, -⟩ := foldl_pushTx up block.number receipts
    block.transactionsWithSender.zipIdx ⟨block.number, [], [], [], [], none⟩
  simp [extractBlock, h]

theorem addressRows_extractBlock : (extractBlock up block receipts).addressRows =
    block.transactionsWithSender.zipIdx.flatMap
      fun e => txAddressRows up block.number e.1.1 e.1.2 e.2 := by
  obtain ⟨c, h, -, -⟩ := foldl_pushTx up block.number receipts
    block.transactionsWithSender.zipIdx ⟨block.number, [], [], [], [], none⟩
  simp [extractBlock, h]

theorem txTypes_extractBlock : (extractBlock up block receipts).txTypes =
    block.transactionsWithSender.zipIdx.map fun e => ⟨e.1.2.ty, block.number, e.2⟩ := by
  obtain ⟨c, h, -, -⟩ := foldl_pushTx up block.number receipts
    block.transactionsWithSender.zipIdx ⟨block.number, [], [], [], [], none⟩
  simp [extractBlock, h]

theorem transfers_extractBlock : (extractBlock up block receipts).transfers =
    block.transactionsWithSender.zipIdx.flatMap
      fun e => txTransfers block.number receipts e.2 := by
  obtain ⟨c, h, -, -⟩ := foldl_pushTx up block.number receipts
    block.transactionsWithSender.zipIdx ⟨block.number, [], [], [], [], none⟩
  simp [extractBlock, h]

theorem consensus_extractBlock : (extractBlock up block receipts).consensus =
    (decodeConsensusFields up block.header).map fun fields =>
      ⟨fields.digest, fields.epoch, fields.round, block.number⟩ := rfl

/-- The candidates are the tokens of the transfer rows. -/
theorem mem_tokenCandidates_extractBlock {a : Address} :
    a ∈ (extractBlock up block receipts).tokenCandidates ↔
      ∃ row ∈ (extractBlock up block receipts).transfers, row.token = a := by
  obtain ⟨c, h, -, hmem⟩ := foldl_pushTx up block.number receipts
    block.transactionsWithSender.zipIdx ⟨block.number, [], [], [], [], none⟩
  rw [transfers_extractBlock]
  simp only [extractBlock, h, hmem, List.not_mem_nil, false_or, List.mem_flatMap]
  constructor
  · rintro ⟨e, he, row, hrow, ha⟩
    exact ⟨row, ⟨e, he, hrow⟩, ha⟩
  · rintro ⟨row, ⟨e, he, hrow⟩, ha⟩
    exact ⟨e, he, row, hrow, ha⟩

/-- **Each candidate is listed once.** -/
theorem nodup_tokenCandidates_extractBlock :
    (extractBlock up block receipts).tokenCandidates.Nodup := by
  obtain ⟨c, h, hnodup, -⟩ := foldl_pushTx up block.number receipts
    block.transactionsWithSender.zipIdx ⟨block.number, [], [], [], [], none⟩
  simpa [extractBlock, h] using hnodup List.nodup_nil

end ExtractBlock

/-! ### A chain with transfers to evaluate on -/

/-- One receipt with a transfer of the token `7`. -/
def tokenReceipts : List Receipt :=
  [⟨true, 21000, [⟨7, [TRANSFER_TOPIC, 1, 2], List.replicate 32 0⟩]⟩]

/-- Every block holds one transaction that transfers a token. -/
def transferChain : NodeChain where
  block := steadyChain.block
  receipts _ := tokenReceipts
  number_block _ := rfl
  gasUsed _ := [21000]
  length_receipts _ := rfl
  length_gasUsed := steadyChain.length_gasUsed
  cumulative n i r h := by
    cases i with
    | zero => cases h; rfl
    | succ i => cases h

end ExplorerIndexer
