import ExplorerIndexer.Api
import ExplorerIndexer.HeaderPacking
import ExplorerIndexer.Hydration

/-!
# The batches of a consensus output

A consensus output is executed as consecutive blocks, one for each of its batches. The header of a
block names the output and the batch; the index keeps the range of the blocks of each output, and
`/consensus/blocks/{n}/batches` numbers the block of a batch by its position in the range. Here the
two views are shown to agree at every cursor, also in the middle of an output.

The output is read from the consensus database and belongs to another crate; `ConsensusOutput` is
what the routes read of it.

## Main definitions

* `consensusRangeByDigest`, `buildConsensusBatches`, `Api.consensusBatches` — the functions of the
  source
* `Executes` — how the network executes consensus outputs

## Main results

* `consensusRangeByDigest_eq` — the range of an output starts at its first block, and ends at its
  last indexed block
* `batches_name_blocks` — a batch has the number of its block exactly when the block is indexed, and
  the header of the block names the batch
-/

namespace ExplorerIndexer

/-! ### Outputs -/

/-- One batch of transactions. `digest` and `size` are its methods. -/
structure Batch where
  workerId : ℕ
  beneficiary : Address
  baseFeePerGas : ℕ
  /-- The raw transactions. -/
  transactions : List Bytes
  digest : B256
  size : ℕ
  /-- Worker ids are 16-bit. -/
  workerId_lt : workerId < 2 ^ 16
  deriving DecidableEq

/-- The batches that one header certified. -/
structure CertifiedBatch where
  /-- The certifying authority. -/
  address : Address
  batches : List Batch
  deriving DecidableEq

/-- What the routes read of a consensus output. -/
structure ConsensusOutput where
  /-- `consensus_header_hash`. -/
  consensusHeaderHash : B256
  batches : List CertifiedBatch
  /-- `flatten_batches`: the positions of the batches, in the order of their execution. -/
  flattenBatches : List (ℕ × ℕ)
  /-- The digests that `get_batch_digest` reads, in the order of execution. -/
  batchDigests : List B256
  /-- `close_epoch`. -/
  closeEpoch : Bool
  deriving DecidableEq

/-- `get_batch_digest`. -/
def ConsensusOutput.getBatchDigest (out : ConsensusOutput) (index : ℕ) : Option B256 :=
  out.batchDigests[index]?

/-- A stored range of execution blocks. -/
structure ConsensusRange where
  firstBlock : ℕ
  lastBlock : ℕ
  deriving DecidableEq, Repr

/-- The wire form of a range. -/
structure ApiExecRange where
  first : ℕ
  last : ℕ
  deriving DecidableEq, Repr

/-- A batch as the routes answer it. -/
structure ApiConsensusBatch where
  /-- Position in the order of execution. -/
  index : ℕ
  digest : String
  workerId : ℕ
  beneficiary : String
  authorityAddress : String
  baseFeePerGas : ℕ
  txCount : ℕ
  sizeBytes : ℕ
  execBlockNumber : Option ℕ
  txHashes : Option (List String)
  deriving DecidableEq, Repr

/-! ### The functions of the source -/

/-- The range of an output, by its digest; `none` when no block that names it has been indexed. -/
def consensusRangeByDigest (db : Db) (digest : B256) : Option ConsensusRange :=
  (db.consensusBlocks.find? (digestHex digest)).map fun row => ⟨row.firstBlock, row.lastBlock⟩

/-- A stored range in wire form. -/
def execRange (range : ConsensusRange) : ApiExecRange := ⟨range.firstBlock, range.lastBlock⟩

section Build

variable (keccak256 : Bytes → B256)

/-- The hash of every raw transaction of a batch. -/
def batchTxHashes (batch : Batch) : List String :=
  batch.transactions.map fun raw => digestHex (keccak256 raw)

/-- The block of a batch, when the range covers it. The sum wraps at 64 bits. -/
def execBlockNumber (execBlocks : Option ApiExecRange) (index : ℕ) : Option ℕ :=
  execBlocks.bind fun r =>
    let n := (r.first + index) % 2 ^ 64
    if n ≤ r.last then some n else none

/-- The row of one batch. -/
def consensusBatchRow (out : ConsensusOutput) (execBlocks : Option ApiExecRange)
    (withTxHashes : Bool) (cert : CertifiedBatch) (batch : Batch) (index : ℕ) :
    ApiConsensusBatch where
  index
  digest := digestHex ((out.getBatchDigest index).getD batch.digest)
  workerId := batch.workerId
  beneficiary := addrHex batch.beneficiary
  authorityAddress := addrHex cert.address
  baseFeePerGas := batch.baseFeePerGas
  txCount := batch.transactions.length
  sizeBytes := batch.size
  execBlockNumber := execBlockNumber execBlocks index
  txHashes := if withTxHashes then some (batchTxHashes keccak256 batch) else none

/-- The batches of an output, in the order of their execution. A position that names no batch
panics. -/
def buildConsensusBatches (out : ConsensusOutput) (execBlocks : Option ApiExecRange)
    (withTxHashes : Bool) : Except Report (List ApiConsensusBatch) :=
  out.flattenBatches.zipIdx.mapM fun entry => do
    let cert ← Fetch.okOr out.batches[entry.1.1]? "index out of bounds"
    let batch ← Fetch.okOr cert.batches[entry.1.2]? "index out of bounds"
    return consensusBatchRow keccak256 out execBlocks withTxHashes cert batch entry.2

/-- The execution blocks of an output. -/
def Api.consensusExecRange (views : ℕ → Db) (digest : B256) :
    Except ApiError (Option ApiExecRange) :=
  withConn (select fun db => .ok ((consensusRangeByDigest db digest).map execRange)) views

/-- The batches of `/consensus/blocks/{number}` and of its `/batches`, for the output that was
read. -/
def Api.consensusBatches (views : ℕ → Db) (out : ConsensusOutput) (withTxHashes : Bool) :
    Except ApiError (List ApiConsensusBatch) := do
  let execBlocks ← Api.consensusExecRange views out.consensusHeaderHash
  liftNode (buildConsensusBatches keccak256 out execBlocks withTxHashes)

end Build

/-! ### How outputs are executed -/

/-- The batch at a position in the order of execution. -/
def ConsensusOutput.batchAt? (out : ConsensusOutput) (index : ℕ) : Option Batch := do
  let (certIdx, batchIdx) ← out.flattenBatches[index]?
  let cert ← out.batches[certIdx]?
  cert.batches[batchIdx]?

/-- The blocks an output is executed as: one for each batch, or a placeholder when it has none and
closes the epoch. -/
def ConsensusOutput.blockCount (out : ConsensusOutput) : ℕ :=
  if out.flattenBatches.isEmpty then (if out.closeEpoch then 1 else 0)
  else out.flattenBatches.length

/-- The first block of output `j`. Block `0` is genesis. -/
def startBlock (outputs : List ConsensusOutput) (j : ℕ) : ℕ :=
  1 + ((outputs.take j).map ConsensusOutput.blockCount).sum

/-- **How the network executes consensus outputs**: one after the other, each as consecutive blocks
that name it, the block of a batch with the position, the worker and the digest of the batch. -/
structure Executes (chain : Chain) (outputs : List ConsensusOutput) (tip : ℕ) : Prop where
  nodup_digests : (outputs.map ConsensusOutput.consensusHeaderHash).Nodup
  /-- Every executed block but genesis is a block of some output. -/
  executed : tip < startBlock outputs outputs.length
  /-- Block numbers are 64-bit. -/
  numbers : startBlock outputs outputs.length ≤ 2 ^ 64
  root : ∀ j out i, outputs[j]? = some out → i < out.blockCount →
    (chain.block (startBlock outputs j + i)).header.parentBeaconBlockRoot =
      some out.consensusHeaderHash
  /-- A `usize` is packed into the difficulty, also of a placeholder. -/
  difficulty_lt : ∀ j out i, outputs[j]? = some out → i < out.blockCount →
    (chain.block (startBlock outputs j + i)).header.difficulty.toNat < 2 ^ 64
  /-- Every position of the order names a batch. -/
  batches : ∀ out ∈ outputs, ∀ i < out.flattenBatches.length, ∃ batch, out.batchAt? i = some batch
  difficulty : ∀ j out i batch, outputs[j]? = some out → out.batchAt? i = some batch →
    (chain.block (startBlock outputs j + i)).header.difficulty.toNat = i <<< 16 ||| batch.workerId
  ommersHash : ∀ j out i batch, outputs[j]? = some out → out.batchAt? i = some batch →
    out.getBatchDigest i = some (chain.block (startBlock outputs j + i)).header.ommersHash

theorem startBlock_succ {outputs : List ConsensusOutput} {j : ℕ} {out : ConsensusOutput}
    (hout : outputs[j]? = some out) :
    startBlock outputs (j + 1) = startBlock outputs j + out.blockCount := by
  rw [startBlock, List.take_add_one, hout, Option.toList_some, List.map_append, List.sum_append,
    List.map_singleton, List.sum_singleton, ← Nat.add_assoc, startBlock]

theorem startBlock_le {outputs : List ConsensusOutput} {j : ℕ} {out : ConsensusOutput}
    (hout : outputs[j]? = some out) :
    startBlock outputs j + out.blockCount ≤ startBlock outputs outputs.length := by
  rw [← startBlock_succ hout, startBlock, startBlock, List.take_length]
  have hsplit : (outputs.map ConsensusOutput.blockCount).sum =
      ((outputs.take (j + 1)).map ConsensusOutput.blockCount).sum +
        ((outputs.drop (j + 1)).map ConsensusOutput.blockCount).sum := by
    rw [← List.sum_append, ← List.map_append, List.take_append_drop]
  omega

/-- Every block of the range is a block of some output. -/
theorem exists_output {outputs : List ConsensusOutput} {n m : ℕ} (hn : 1 ≤ n)
    (hm : n < startBlock outputs m) : ∃ j out, outputs[j]? = some out ∧
      startBlock outputs j ≤ n ∧ n < startBlock outputs j + out.blockCount := by
  induction m with
  | zero =>
    rw [startBlock, List.take_zero, List.map_nil, List.sum_nil] at hm
    omega
  | succ m ih =>
    by_cases hlt : n < startBlock outputs m
    · exact ih hlt
    · cases hout : outputs[m]? with
      | none =>
        rw [startBlock, List.take_add_one, hout, Option.toList_none, List.append_nil] at hm
        exact absurd hm hlt
      | some out => exact ⟨m, out, hout, not_lt.mp hlt, startBlock_succ hout ▸ hm⟩

/-! ### The packed difficulty -/

/-- The difficulty gives back the position and the worker. -/
theorem unpack_difficulty {i workerId : ℕ} (h : workerId < 2 ^ 16) :
    (i <<< 16 ||| workerId) >>> 16 = i ∧ (i <<< 16 ||| workerId) &&& 0xffff = workerId := by
  rw [and_0xffff]
  exact or_shiftLeft_unpack i h

/-! ### The range of an output -/

section Range

variable {up : Upstream} {chain : Chain} {outputs : List ConsensusOutput} {tip : ℕ} {j : ℕ}
  {out : ConsensusOutput}

/-- A block names an output exactly when it is one of the blocks of the output. -/
theorem Executes.names_iff (hexec : Executes chain outputs tip) (hout : outputs[j]? = some out)
    {n : ℕ} (hn : n < startBlock outputs outputs.length) :
    (∃ e r, NamesOutput up (chain.block n).header out.consensusHeaderHash e r) ↔
      startBlock outputs j ≤ n ∧ n < startBlock outputs j + out.blockCount := by
  constructor
  · rintro ⟨e, r, hnames⟩
    have hpos : 1 ≤ n := by
      have hnumber : (chain.block n).header.number = n := chain.number_block n
      have := hnumber ▸ hnames.not_genesis
      omega
    obtain ⟨j', out', hout', hlo, hhi⟩ := exists_output hpos hn
    have hroot := hexec.root j' out' (n - startBlock outputs j') hout' (by omega)
    rw [Nat.add_sub_cancel' hlo, hnames.root] at hroot
    -- the digests are distinct, so the output the block belongs to is the one it names
    have hj : j = j' := by
      have hlt := (List.getElem?_eq_some_iff.mp hout).1
      refine (List.getElem?_inj (by rwa [List.length_map]) hexec.nodup_digests).mp ?_
      rw [List.getElem?_map, List.getElem?_map, hout, hout']
      exact congrArg some (Option.some.inj hroot)
    subst hj
    cases hout.symm.trans hout'
    exact ⟨hlo, hhi⟩
  · rintro ⟨hlo, hhi⟩
    have hroot := hexec.root j out (n - startBlock outputs j) hout (by omega)
    have hdifficulty := hexec.difficulty_lt j out (n - startBlock outputs j) hout (by omega)
    rw [Nat.add_sub_cancel' hlo] at hroot hdifficulty
    have hnumber : (chain.block n).header.number = n := chain.number_block n
    have hpos : 1 ≤ startBlock outputs j := Nat.le_add_right _ _
    exact ⟨_, _, by omega, hroot, hdifficulty, rfl⟩

/-- **The range of an output** starts at its first block, and ends at its last indexed block. It is
there when some block of the output is indexed. -/
theorem consensusRangeByDigest_eq {db : Db} {next : ℕ} (hreference : Reference up chain next db)
    (hnext : next ≤ tip + 1) (hexec : Executes chain outputs tip)
    (hout : outputs[j]? = some out) :
    consensusRangeByDigest db out.consensusHeaderHash =
      if startBlock outputs j < min next (startBlock outputs j + out.blockCount) then
        some ⟨startBlock outputs j, min next (startBlock outputs j + out.blockCount) - 1⟩
      else none := by
  have hexecuted := hexec.executed
  have hnames : ∀ n < next,
      (∃ e r, NamesOutput up (chain.block n).header out.consensusHeaderHash e r) ↔
        startBlock outputs j ≤ n ∧ n < startBlock outputs j + out.blockCount :=
    fun n hn => hexec.names_iff hout (by omega)
  rw [consensusRangeByDigest]
  cases hfind : db.consensusBlocks.find? (digestHex out.consensusHeaderHash) with
  | none =>
    rw [if_neg, Option.map_none]
    intro hlt
    obtain ⟨e, r, hfirst⟩ := (hnames (startBlock outputs j) (by omega)).mpr (by omega)
    obtain ⟨row, hrow, hd⟩ :=
      exists_consensusRef (show startBlock outputs j < next by omega) hfirst
    exact Table.find?_eq_none_iff.mp hfind row ((hreference.consensusBlocks row).mpr hrow) hd
  | some row =>
    obtain ⟨d, e, r, lo, hi, hlo, hhi, hnlo, hnhi, hbetween, rfl⟩ :=
      (hreference.consensusBlocks row).mp (Table.mem_of_find? hfind)
    have hkey := Table.key_of_find? hfind
    cases digestHex_injective (show digestHex d = digestHex out.consensusHeaderHash from hkey)
    have hlo' := (hnames lo hlo).mp ⟨e, r, hnlo⟩
    have hhi' := (hnames hi hhi).mp hnhi
    obtain ⟨e₁, r₁, hfirst⟩ := (hnames (startBlock outputs j) (by omega)).mpr (by omega)
    obtain ⟨e₂, r₂, hlast⟩ :=
      (hnames (min next (startBlock outputs j + out.blockCount) - 1) (by omega)).mpr (by omega)
    have hle := hbetween _ (by omega) _ _ hfirst
    have hge := hbetween _ (by omega) _ _ hlast
    rw [if_pos (by omega), Option.map_some]
    simp only [Option.some.injEq, ConsensusRange.mk.injEq]
    omega

/-- An output has a row exactly when it has a range. -/
theorem exists_consensusBlock_iff {db : Db} {digest : B256} :
    (∃ row ∈ db.consensusBlocks.rows, row.digest = digestHex digest) ↔
      (consensusRangeByDigest db digest).isSome := by
  rw [consensusRangeByDigest, Option.isSome_map]
  exact Table.isSome_find?_iff.symm

/-- An output has a row exactly when one of its blocks is indexed. -/
theorem exists_consensusBlock_iff_indexed {db : Db} (hreference : Reference up chain db.next db)
    (hnext : db.next ≤ tip + 1) (hexec : Executes chain outputs tip)
    (hout : outputs[j]? = some out) :
    (∃ row ∈ db.consensusBlocks.rows, row.digest = digestHex out.consensusHeaderHash) ↔
      ∃ n, startBlock outputs j ≤ n ∧ n < startBlock outputs j + out.blockCount ∧
        db.Indexed n := by
  rw [exists_consensusBlock_iff, consensusRangeByDigest_eq hreference hnext hexec hout]
  simp only [db.indexed_iff]
  split
  · exact iff_of_true rfl ⟨startBlock outputs j, by omega, by omega, by omega⟩
  · refine iff_of_false (by simp) ?_
    rintro ⟨n, hlo, hhi, hn⟩
    omega

/-- **The number of the block of a batch** is there exactly when the block is indexed: the first
block of the range and the position of the batch, which the range reaches. -/
theorem execBlockNumber_eq_some_iff {db : Db} (hreference : Reference up chain db.next db)
    (hnext : db.next ≤ tip + 1) (hexec : Executes chain outputs tip)
    (hout : outputs[j]? = some out) {i : ℕ} (hi : i < out.blockCount) {n : ℕ} :
    execBlockNumber ((consensusRangeByDigest db out.consensusHeaderHash).map execRange) i =
      some n ↔ n = startBlock outputs j + i ∧ db.Indexed n := by
  have hle := startBlock_le hout
  have hexecuted := hexec.executed
  have hnumbers := hexec.numbers
  rw [consensusRangeByDigest_eq hreference hnext hexec hout, db.indexed_iff]
  split
  · have hwrap : (startBlock outputs j + i) % 2 ^ 64 = startBlock outputs j + i :=
      Nat.mod_eq_of_lt (by omega)
    simp only [Option.map_some, execBlockNumber, Option.bind_some, execRange, hwrap]
    split <;> simp <;> omega
  · simp only [Option.map_none, execBlockNumber, Option.bind_none]
    refine iff_of_false (by simp) ?_
    omega

variable (up) in
/-- The header of the block of a batch names the output and the batch. -/
theorem decodeConsensusFields_batch (hexec : Executes chain outputs tip)
    (hout : outputs[j]? = some out) {i : ℕ} {batch : Batch} (hbatch : out.batchAt? i = some batch)
    (hi : i < out.blockCount) : ∃ fields,
      decodeConsensusFields up (chain.block (startBlock outputs j + i)).header = some fields ∧
      fields.digest = out.consensusHeaderHash ∧ fields.batchIndex = i ∧
      fields.workerId = batch.workerId ∧ some fields.batchDigest = out.getBatchDigest i := by
  have hle := startBlock_le hout
  obtain ⟨e, r, hnames⟩ : ∃ e r, NamesOutput up (chain.block (startBlock outputs j + i)).header
      out.consensusHeaderHash e r := (hexec.names_iff hout (by omega)).mpr (by omega)
  have hdifficulty := hexec.difficulty j out i batch hout hbatch
  have hbits := unpack_difficulty (i := i) batch.workerId_lt
  rw [decodeConsensusFields, if_neg hnames.not_genesis, hnames.root, toU64?,
    if_pos hnames.difficulty]
  refine ⟨_, rfl, rfl, ?_, ?_, (hexec.ommersHash j out i batch hout hbatch).symm⟩
  · exact hdifficulty ▸ hbits.1
  · exact hdifficulty ▸ hbits.2

end Range

/-! ### The rows of the batches -/

/-- **The rows of an output**: one for each batch, in order. -/
theorem buildConsensusBatches_rows (keccak256 : Bytes → B256) {out : ConsensusOutput}
    (hbatches : ∀ i < out.flattenBatches.length, ∃ batch, out.batchAt? i = some batch)
    (execBlocks : Option ApiExecRange) (withTxHashes : Bool) : ∃ rows,
      buildConsensusBatches keccak256 out execBlocks withTxHashes = .ok rows ∧
      rows.length = out.flattenBatches.length ∧
      ∀ i row, rows[i]? = some row → ∃ cert batch, out.batchAt? i = some batch ∧
        row = consensusBatchRow keccak256 out execBlocks withTxHashes cert batch i := by
  have hrun : ∀ entry ∈ out.flattenBatches.zipIdx, ∃ row, ∃ cert batch,
      out.batches[entry.1.1]? = some cert ∧ cert.batches[entry.1.2]? = some batch ∧
      row = consensusBatchRow keccak256 out execBlocks withTxHashes cert batch entry.2 := by
    intro entry hentry
    have hget := List.mem_zipIdx_iff_getElem?.mp hentry
    obtain ⟨batch, hbatch⟩ := hbatches entry.2 (List.getElem?_eq_some_iff.mp hget).1
    obtain ⟨position, hposition, hbatch⟩ := Option.bind_eq_some_iff.mp hbatch
    cases hget.symm.trans hposition
    obtain ⟨cert, hcert, hbatch⟩ := Option.bind_eq_some_iff.mp hbatch
    exact ⟨_, cert, batch, hcert, hbatch, rfl⟩
  obtain ⟨rows, hrows⟩ := Fetch.exists_forall₂_iff.mpr hrun
  refine ⟨rows, Fetch.mapM_eq_ok_iff.mpr (hrows.imp fun entry row hrow => ?_), ?_,
    fun i row hrow => ?_⟩
  · obtain ⟨cert, batch, hcert, hbatch, rfl⟩ := hrow
    refine Fetch.bind_eq_ok_iff.mpr ⟨cert, by rw [hcert, Fetch.okOr_some], ?_⟩
    exact Fetch.bind_eq_ok_iff.mpr ⟨batch, by rw [hbatch, Fetch.okOr_some], rfl⟩
  · rw [← hrows.length_eq, List.length_zipIdx]
  · obtain ⟨hlength, hall⟩ := List.forall₂_iff_get.mp hrows
    obtain ⟨hi, rfl⟩ := List.getElem?_eq_some_iff.mp hrow
    obtain ⟨cert, batch, hcert, hbatch, hget⟩ := hall i (hlength ▸ hi) hi
    rw [List.get_eq_getElem] at hget
    rw [hget]
    simp only [List.get_eq_getElem, List.getElem_zipIdx, Nat.zero_add] at hcert hbatch ⊢
    refine ⟨cert, batch, ?_, rfl⟩
    rw [List.length_zipIdx] at hlength
    have hposition : out.flattenBatches[i]? = some out.flattenBatches[i] :=
      List.getElem?_eq_getElem (hlength ▸ hi)
    simp only [ConsensusOutput.batchAt?, hposition, Option.bind_eq_bind, Option.bind_some, hcert,
      hbatch]

section Batches

variable {up : Upstream} {chain : NodeChain} {chainId : UInt64} {w : World} {db : Db}
  {outputs : List ConsensusOutput} {j : ℕ} {out : ConsensusOutput}

/-- **Batches and blocks name each other.** In every reachable state, at every cursor: an output has
a row exactly when one of its blocks is indexed; and its batches are answered in order, each with
the number of its block exactly when the block is indexed, and then the header of the block names
the output and the batch. -/
theorem batches_name_blocks
    (hw : (exexSystem ⟨up, chain.toChain, chainId⟩ (· = File.empty)).Reachable w)
    (hdb : w.file = db.toFile) (hexec : Executes chain.toChain outputs w.tip)
    (hout : outputs[j]? = some out) (keccak256 : Bytes → B256) (withTxHashes : Bool) :
    ((∃ row ∈ db.consensusBlocks.rows, row.digest = digestHex out.consensusHeaderHash) ↔
      ∃ n, startBlock outputs j ≤ n ∧ n < startBlock outputs j + out.blockCount ∧ db.Indexed n) ∧
    ∃ rows, Api.consensusBatches keccak256 (fun _ => db) out withTxHashes = .ok rows ∧
      rows.length = out.flattenBatches.length ∧
      ∀ i row, rows[i]? = some row → row.index = i ∧ ∀ n,
        (row.execBlockNumber = some n ↔ n = startBlock outputs j + i ∧ db.Indexed n) ∧
        (row.execBlockNumber = some n → ∃ fields,
          decodeConsensusFields up (chain.block n).header = some fields ∧
          fields.digest = out.consensusHeaderHash ∧ fields.batchIndex = i ∧
          fields.workerId = row.workerId ∧ digestHex fields.batchDigest = row.digest) := by
  obtain ⟨hreference, hexecuted⟩ := reference_of_reachable hw hdb
  refine ⟨exists_consensusBlock_iff_indexed hreference hexecuted hexec hout, ?_⟩
  obtain ⟨rows, hrows, hlength, hget⟩ := buildConsensusBatches_rows keccak256
    (hexec.batches out (List.mem_of_getElem? hout))
    ((consensusRangeByDigest db out.consensusHeaderHash).map execRange) withTxHashes
  refine ⟨rows, Fetch.bind_eq_ok_iff.mpr ⟨_, rfl, liftNode_eq_ok_iff.mpr hrows⟩, hlength,
    fun i row hrow => ?_⟩
  obtain ⟨cert, batch, hbatch, rfl⟩ := hget i row hrow
  have hi : i < out.blockCount := by
    have hi := (List.getElem?_eq_some_iff.mp hrow).1
    rw [ConsensusOutput.blockCount, if_neg (by
      rw [List.isEmpty_iff_length_eq_zero]; omega)]
    omega
  have hnumber := @execBlockNumber_eq_some_iff up _ _ _ _ _ _ hreference hexecuted hexec hout i hi
  refine ⟨rfl, fun n => ⟨hnumber, fun hn => ?_⟩⟩
  obtain ⟨rfl, -⟩ := hnumber.mp hn
  obtain ⟨fields, hfields, hdigest, hindex, hworker, hbatchDigest⟩ :=
    decodeConsensusFields_batch up hexec hout hbatch hi
  refine ⟨fields, hfields, hdigest, hindex, hworker, ?_⟩
  rw [consensusBatchRow, ← hbatchDigest, Option.getD_some]

end Batches

/-! ### An output in the middle of its execution -/

/-- An output of two batches, certified by two authorities. -/
def pairedOutput : ConsensusOutput where
  consensusHeaderHash := 1
  batches := [⟨5, [⟨3, 5, 7, [], 1, 0, by decide⟩]⟩, ⟨6, [⟨4, 6, 7, [], 2, 0, by decide⟩]⟩]
  flattenBatches := [(0, 0), (1, 0)]
  batchDigests := [1, 2]
  closeEpoch := false

/-- Blocks `1` and `2` are the blocks of the output. -/
def pairedChain : NodeChain where
  block n :=
    { header :=
        { (steadyChain.block n).header with
          parentBeaconBlockRoot := some 1
          difficulty := BitVec.ofNat 256 ((n - 1) <<< 16 ||| (n + 2))
          ommersHash := BitVec.ofNat 256 n }
      transactionsWithSender := (steadyChain.block n).transactionsWithSender }
  receipts := steadyChain.receipts
  number_block _ := rfl
  gasUsed := steadyChain.gasUsed
  length_receipts _ := rfl
  length_gasUsed _ := rfl
  cumulative := steadyChain.cumulative

theorem executes_pairedChain : Executes pairedChain.toChain [pairedOutput] 1 where
  nodup_digests := by decide
  executed := by decide
  numbers := by decide
  root j out i hout _ := by
    cases j with
    | zero => cases hout; rfl
    | succ j => cases hout
  difficulty_lt j out i hout hi := by
    cases j with
    | zero =>
      cases hout
      match i with
      | 0 | 1 => decide
      | i + 2 => exact absurd hi (Nat.not_lt.mpr (Nat.le_add_left 2 i))
    | succ j => cases hout
  batches out hout i hi := by
    cases List.mem_singleton.mp hout
    match i with
    | 0 | 1 => exact ⟨_, rfl⟩
    | i + 2 => exact absurd hi (Nat.not_lt.mpr (Nat.le_add_left 2 i))
  difficulty j out i batch hout hbatch := by
    cases j with
    | zero =>
      cases hout
      match i with
      | 0 | 1 => cases hbatch; decide
      | _ + 2 => cases hbatch
    | succ j => cases hout
  ommersHash j out i batch hout hbatch := by
    cases j with
    | zero =>
      cases hout
      match i with
      | 0 | 1 => cases hbatch; decide
      | _ + 2 => cases hbatch
    | succ j => cases hout

/-- When the first block of the output is indexed, its first batch has a number and its second has
none. -/
theorem batches_name_blocks_mid_output : ∃ rows : List ApiConsensusBatch,
    rows.map ApiConsensusBatch.execBlockNumber = [some 1, none] ∧
    ∃ fields, decodeConsensusFields plainUpstream (pairedChain.block 1).header = some fields ∧
      fields.batchIndex = 0 ∧ fields.workerId = 3 := by
  have hrun : ((exexSystem ⟨plainUpstream, pairedChain.toChain, 7⟩ (· = File.empty)).run
      (freshWorld 1) (startActions 2 ++ bodyActions ++ bodyActions)).bind (fun w =>
        w.file.toDb.map fun db => (w.tip, (Api.consensusBatches (fun _ => 0) (fun _ => db)
          pairedOutput false).map fun rows => rows.map ApiConsensusBatch.execBlockNumber)) =
        some (1, .ok [some 1, none]) := by decide +kernel
  obtain ⟨w, db, -, hreach, hdb, hrun⟩ := exists_index_of_run (by decide) hrun
  obtain ⟨htip, hnumbers⟩ := Prod.mk.inj hrun
  obtain ⟨-, rows, hrows, -, hget⟩ := @batches_name_blocks plainUpstream pairedChain 7 w db
    [pairedOutput] 0 pairedOutput hreach hdb (htip ▸ executes_pairedChain) rfl (fun _ => 0) false
  rw [hrows] at hnumbers
  have hnumbers : rows.map ApiConsensusBatch.execBlockNumber = [some 1, none] :=
    Except.ok.inj hnumbers
  refine ⟨rows, hnumbers, ?_⟩
  match rows, hnumbers with
  | row :: _, hnumbers =>
    obtain ⟨hindex, hfields⟩ := hget 0 row rfl
    obtain ⟨fields, hdecode, -, hbatchIndex, -⟩ := (hfields 1).2 (List.cons.inj hnumbers).1
    refine ⟨fields, hdecode, hbatchIndex, ?_⟩
    cases hdecode
    decide

end ExplorerIndexer
