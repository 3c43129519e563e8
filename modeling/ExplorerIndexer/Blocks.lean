import ExplorerIndexer.ConsensusHeaders
import ExplorerIndexer.Epochs
import ExplorerIndexer.Leaders

/-!
# The block routes

`/blocks` pages the chain by arithmetic, and `/blocks/{number}` answers one block. What names the
consensus output of a block is decoded from its header; only the detail route looks the number of
the output up, by the digest, and a failure of the lookup leaves the number out.

So there are two ways from blocks to outputs and back: a block answers with the number of its
output, and a row of `/consensus/blocks` with the blocks of its output. They are shown to agree at
every cursor of the index.

## Main definitions

* `blocksPage`, `buildApiBlock`, `Api.blocksList`, `Api.blockByNumber` — the functions of the source
* `BlockReader.Serves` — the chain that a node serves

## Main results

* `blocks_pages` — the pages are the chain, newest first, and the detail route answers the rows of
  the list whatever becomes of the lookup
* `block_links` — a block is in the range of an output exactly when it is indexed and links to it
-/

namespace ExplorerIndexer

/-! ### The functions of the source -/

/-- A block as the node returns it. -/
structure SealedBlock where
  header : SealedHeader
  hash : B256
  parentHash : B256
  gasUsed : ℕ
  gasLimit : ℕ
  /-- The hashes of the transactions. -/
  transactions : List B256
  /-- The length of the block in RLP. -/
  rlpLength : ℕ
  deriving DecidableEq, Repr

/-- The body of a block route. -/
structure ApiBlock where
  number : ℕ
  hash : String
  parentHash : String
  timestamp : ℕ
  transactions : List String
  transactionCount : ℕ
  gasUsed : ℕ
  gasLimit : ℕ
  miner : String
  validator : String
  extraData : String
  baseFee : Option ℕ
  size : ℕ
  consensus : Option ApiBlockConsensus
  deriving DecidableEq, Repr

/-- The reads of the node that the block routes take. -/
structure BlockReader where
  lastBlockNumber : Except Report ℕ
  sealedBlockByNumber : ℕ → Except Report (Option SealedBlock)

/-- One block of a page. Heights are dense, so a block that is missing is an error. -/
def pageBlock (reader : BlockReader) (tip number : ℕ) : Except Report SealedBlock := do
  Fetch.okOr (← reader.sealedBlockByNumber number) s!"block {number} missing at or below tip {tip}"

/-- One page of blocks, newest first, and the number of blocks. -/
def blocksPage (reader : BlockReader) (page perPage : ℕ) :
    Except Report (List SealedBlock × ℕ) := do
  let tip ← reader.lastBlockNumber
  let total := saturatingAdd tip 1
  let numbers ← descPageItems total page perPage
  let blocks ← numbers.mapM (pageBlock reader tip)
  return (blocks, total)

section Wire

variable (bs58Of : B256 → String) (hexBytes : Bytes → String) (up : Upstream)

/-- A block in wire form. -/
def buildApiBlock (block : SealedBlock) : ApiBlock :=
  let transactions := block.transactions.map digestHex
  { number := block.header.number
    hash := digestHex block.hash
    parentHash := digestHex block.parentHash
    timestamp := block.header.timestamp
    transactionCount := transactions.length
    transactions
    gasUsed := block.gasUsed
    gasLimit := block.gasLimit
    miner := addrHex block.header.beneficiary
    validator := addrHex block.header.beneficiary
    extraData := hexBytes block.header.extraData
    baseFee := block.header.baseFeePerGas
    size := block.rlpLength
    consensus := (decodeConsensusFields up block.header.toExecHeader).map
      fun fields => buildBlockConsensus bs58Of fields none }

namespace Api

/-- `GET /blocks`. -/
def blocksList (reader : BlockReader) (query : PageQuery) :
    Except ApiError (Envelope ApiBlock) := do
  let (page, perPage, _) := pageParams query
  let (blocks, total) ← liftNode (blocksPage reader page perPage)
  return { items := blocks.map (buildApiBlock bs58Of hexBytes up), total, page, perPage }

/-- `GET /blocks/{number}`. An output that cannot be looked up is logged, and its number is left
out. -/
def blockByNumber (reader : BlockReader) (consensusReader : ConsensusReader) (raw : String) :
    Except ApiError ApiBlock := do
  let number ← parseNumber raw "block number"
  match ← liftNode (reader.sealedBlockByNumber number) with
  | none => throw .notFound
  | some block =>
    let item := buildApiBlock bs58Of hexBytes up block
    match item.consensus, decodeConsensusFields up block.header.toExecHeader with
    | some consensus, some fields =>
      match consensusNumberByDigest consensusReader fields.epoch fields.digest with
      | .ok resolved =>
        return { item with consensus := some { consensus with consensusNumber := resolved } }
      | .error _ => return item
    | _, _ => return item

end Api

end Wire

/-! ### The pages -/

/-- A node that has executed a chain up to a height, and nothing above it. -/
structure BlockReader.Serves (reader : BlockReader) (chain : Chain) (blocks : ℕ → SealedBlock)
    (tip : ℕ) : Prop where
  last : reader.lastBlockNumber = .ok tip
  /-- Heights are 64-bit, and so is their count. -/
  tip_lt : tip + 1 < 2 ^ 64
  block : ∀ n ≤ tip, reader.sealedBlockByNumber n = .ok (some (blocks n))
  above : ∀ n, tip < n → reader.sealedBlockByNumber n = .ok none
  header : ∀ n, (blocks n).header.toExecHeader = (chain.block n).header

section Pages

variable {bs58Of : B256 → String} {hexBytes : Bytes → String} {up : Upstream}
  {reader : BlockReader} {chain : Chain} {blocks : ℕ → SealedBlock} {tip : ℕ}

theorem blocksPage_eq (h : reader.Serves chain blocks tip) {perPage : ℕ} (hpos : 1 ≤ perPage)
    (page : ℕ) : blocksPage reader page perPage =
      .ok ((Page.slice perPage (page * perPage) (List.range (tip + 1)).reverse).map blocks,
        tip + 1) := by
  have htotal : saturatingAdd tip 1 = tip + 1 := saturatingAdd_eq h.tip_lt
  have hread : ∀ number ∈ Page.slice perPage (page * perPage) (List.range (tip + 1)).reverse,
      pageBlock reader tip number = .ok (blocks number) := fun number hnumber => by
    have hlt := List.mem_range.mp (List.mem_reverse.mp (Page.mem_of_mem_slice hnumber))
    rw [pageBlock, h.block number (Nat.le_of_lt_succ hlt)]
    rfl
  have hblocks := Fetch.mapM_eq_ok_map hread
  simp only [blocksPage, h.last, htotal, bind, Except.bind, descPageItems_eq h.tip_lt hpos,
    hblocks]
  rfl

theorem blocksList_eq (h : reader.Serves chain blocks tip) (query : PageQuery) :
    Api.blocksList bs58Of hexBytes up reader query =
      .ok ⟨((Page.slice (clampPerPage query.perPage)
          (query.page.getD 0 * clampPerPage query.perPage)
          (List.range (tip + 1)).reverse).map blocks).map (buildApiBlock bs58Of hexBytes up),
        tip + 1, query.page.getD 0, clampPerPage query.perPage⟩ := by
  have hpage := blocksPage_eq h (clampPerPage_pos query.perPage) (query.page.getD 0)
  simp only [Api.blocksList, pageParams, hpage, liftNode, Except.mapError, bind, Except.bind]
  rfl

/-- A block without the number of its output. -/
def ApiBlock.unlinked (block : ApiBlock) : ApiBlock :=
  { block with consensus := block.consensus.map fun c => { c with consensusNumber := none } }

theorem unlinked_buildApiBlock (bs58Of : B256 → String) (hexBytes : Bytes → String)
    (up : Upstream) (block : SealedBlock) :
    (buildApiBlock bs58Of hexBytes up block).unlinked = buildApiBlock bs58Of hexBytes up block := by
  simp only [ApiBlock.unlinked, buildApiBlock, Option.map_map]
  rfl

/-- **The detail of a block** is its row, with the number of its output when that is found. -/
theorem blockByNumber_eq (bs58Of : B256 → String) (hexBytes : Bytes → String) (up : Upstream)
    (h : reader.Serves chain blocks tip) (consensusReader : ConsensusReader)
    {raw : String} {n : ℕ} (hraw : parseNumber raw "block number" = .ok n) (hn : n ≤ tip) :
    ∃ item, Api.blockByNumber bs58Of hexBytes up reader consensusReader raw = .ok item ∧
      item.unlinked = buildApiBlock bs58Of hexBytes up (blocks n) ∧
      ∀ number, (item.consensus.bind ApiBlockConsensus.consensusNumber = some number ↔
        ∃ fields, decodeConsensusFields up (chain.block n).header = some fields ∧
          consensusNumberByDigest consensusReader fields.epoch fields.digest =
            .ok (some number)) := by
  have hitem := unlinked_buildApiBlock bs58Of hexBytes up (blocks n)
  simp only [Api.blockByNumber, hraw, h.block n hn, liftNode, Except.mapError, bind, Except.bind]
  cases hdecode : decodeConsensusFields up (chain.block n).header with
  | none =>
    refine ⟨buildApiBlock bs58Of hexBytes up (blocks n), ?_, hitem, fun number => ?_⟩
    · simp only [buildApiBlock, h.header, hdecode, Option.map_none]
      rfl
    · simp [buildApiBlock, h.header, hdecode]
  | some fields =>
    cases hlookup : consensusNumberByDigest consensusReader fields.epoch fields.digest with
    | error report =>
      refine ⟨buildApiBlock bs58Of hexBytes up (blocks n), ?_, hitem, fun number => ?_⟩
      · simp only [buildApiBlock, h.header, hdecode, Option.map_some, hlookup]
        rfl
      · simp [buildApiBlock, h.header, hdecode, buildBlockConsensus, hlookup]
    | ok resolved =>
      refine ⟨{ buildApiBlock bs58Of hexBytes up (blocks n) with
        consensus := some (buildBlockConsensus bs58Of fields resolved) }, ?_, ?_, fun number => ?_⟩
      · simp only [buildApiBlock, h.header, hdecode, Option.map_some, hlookup]
        rfl
      · simp only [ApiBlock.unlinked, buildApiBlock, h.header, hdecode, Option.map_some]
        rfl
      · simp [buildBlockConsensus, hlookup]

/-- **The pages are the chain, and the details are its blocks.** For every page size, the pages, one
after the other, are the blocks from the tip down to genesis, and each page counts them all. A
number is answered with its row exactly up to the tip, and is not found above it, whatever becomes
of the consensus database: only the number of the output depends on that. -/
theorem blocks_pages (bs58Of : B256 → String) (hexBytes : Bytes → String) (up : Upstream)
    (h : reader.Serves chain blocks tip) (perPage : Option ℕ) (n : ℕ) :
    (∃ answers : List (Envelope ApiBlock),
      ((List.range n).mapM fun p => Api.blocksList bs58Of hexBytes up reader ⟨some p, perPage⟩) =
        .ok answers ∧
      (∀ answer ∈ answers, answer.total = tip + 1) ∧
      answers.flatMap Envelope.items = ((List.range (tip + 1)).reverse.take
        (n * clampPerPage perPage)).map fun m => buildApiBlock bs58Of hexBytes up (blocks m)) ∧
    ∀ (consensusReader : ConsensusReader) (raw : String) (m : ℕ),
      parseNumber raw "block number" = .ok m →
        (m ≤ tip → ∃ item,
          Api.blockByNumber bs58Of hexBytes up reader consensusReader raw = .ok item ∧
          item.unlinked = buildApiBlock bs58Of hexBytes up (blocks m)) ∧
        (tip < m → Api.blockByNumber bs58Of hexBytes up reader consensusReader raw =
          .error .notFound) := by
  constructor
  · refine ⟨_, Fetch.mapM_eq_ok_map fun p _ => blocksList_eq h ⟨some p, perPage⟩, ?_, ?_⟩
    · intro answer hanswer
      obtain ⟨p, -, rfl⟩ := List.mem_map.mp hanswer
      rfl
    · rw [List.flatMap_map]
      simp only [Option.getD_some, List.map_map]
      rw [← Page.flatMap_slice, List.map_flatMap]
      rfl
  · intro consensusReader raw m hraw
    constructor
    · intro hm
      obtain ⟨item, hitem, hrow, -⟩ :=
        blockByNumber_eq bs58Of hexBytes up h consensusReader hraw hm
      exact ⟨item, hitem, hrow⟩
    · intro hm
      simp only [Api.blockByNumber, hraw, h.above m hm, liftNode, Except.mapError, bind,
        Except.bind]
      rfl

end Pages

/-! ### The links -/

section Links

variable {bs58Of : B256 → String} {hexBytes : Bytes → String} {up : Upstream} {chain : NodeChain}
  {chainId : UInt64} {outputs : List ConsensusOutput} {headers : List ConsensusHeader}
  {held : ℕ → Bool} {reader : BlockReader} {blocks : ℕ → SealedBlock} {tip : ℕ}
  {consensusReader : ConsensusReader} {db : Db}

/-- The nonce of a block packs the epoch of its output. -/
def EpochsPacked (up : Upstream) (chain : Chain) (outputs : List ConsensusOutput)
    (headers : List ConsensusHeader) : Prop :=
  ∀ j out header i, outputs[j]? = some out → headers[j]? = some header → i < out.blockCount →
    (up.deconstructNonce (fromBeBytes
      (chain.block (startBlock outputs j + i)).header.nonce.toList)).1 = header.leaderEpoch

/-- The digest of a held output gives its number. -/
theorem consensusNumberByDigest_eq (hserves : consensusReader.Serves headers held)
    (hdigests : (headers.map ConsensusHeader.digest).Nodup) {j : ℕ} {header : ConsensusHeader}
    (hget : headers[j]? = some header) (hj : j < consensusReader.latestConsensusNumber)
    (hheld : held header.leaderEpoch = true) :
    consensusNumberByDigest consensusReader header.leaderEpoch header.digest =
      .ok (some (j + 1)) := by
  have hepoch := hserves.epoch_le j header hget hj
  have hfind : headers.find? (fun h => h.leaderEpoch = header.leaderEpoch ∧
      h.digest = header.digest) = some header := by
    cases hfind : headers.find? fun h => h.leaderEpoch = header.leaderEpoch ∧
        h.digest = header.digest with
    | none =>
      exact absurd (List.find?_eq_none.mp hfind header (List.mem_of_getElem? hget)) (by simp)
    | some found =>
      have hsame : found.leaderEpoch = header.leaderEpoch ∧ found.digest = header.digest := by
        simpa using List.find?_some hfind
      exact congrArg some (List.inj_on_of_nodup_map hdigests (List.mem_of_find?_eq_some hfind)
        (List.mem_of_getElem? hget) hsame.2)
  rw [consensusNumberByDigest, if_neg (by omega), hserves.byDigest _ hepoch, if_pos hheld, hfind]
  exact congrArg (fun n => Except.ok (some n)) (hserves.number j header hget)

/-- A number that is looked up is that of an output with the digest. -/
theorem output_of_consensusNumberByDigest (hserves : consensusReader.Serves headers held)
    {epoch number : ℕ} {digest : B256}
    (h : consensusNumberByDigest consensusReader epoch digest = .ok (some number)) :
    ∃ j header, headers[j]? = some header ∧ header.digest = digest ∧ number = j + 1 := by
  rw [consensusNumberByDigest] at h
  split at h
  · cases h
  · next hepoch =>
    rw [hserves.byDigest epoch (not_lt.mp hepoch)] at h
    split at h
    · obtain ⟨header, hfind, rfl⟩ := Option.map_eq_some_iff.mp (Except.ok.inj h)
      have hsame : header.leaderEpoch = epoch ∧ header.digest = digest := by
        simpa using List.find?_some hfind
      obtain ⟨j, hj, rfl⟩ := List.getElem_of_mem (List.mem_of_find?_eq_some hfind)
      exact ⟨j, _, List.getElem?_eq_getElem hj, hsame.2,
        hserves.number j _ (List.getElem?_eq_getElem hj)⟩
    · cases h

theorem mem_outputRange_iff {j : ℕ} {out : ConsensusOutput} {next n : ℕ} :
    (∃ r, outputRange outputs j out next = some r ∧ r.first ≤ n ∧ n ≤ r.last) ↔
      startBlock outputs j ≤ n ∧ n < startBlock outputs j + out.blockCount ∧ n < next := by
  rw [outputRange]
  split
  · simp only [Option.some.injEq, exists_eq_left']
    omega
  · simp only [reduceCtorEq, false_and, exists_false, false_iff]
    omega

/-- **Blocks and outputs link to each other.** Take any page of the list of outputs, read at any
state of the index, and any block that the node has: the block is in the range of a row exactly when
it is indexed and its detail, answered later, names the output of the row. -/
theorem block_links (hexBytes : Bytes → String) {consensusReader' : ConsensusReader}
    (hserves : consensusReader.Serves headers held)
    (hserves' : consensusReader'.Serves headers held)
    (hlater : consensusReader.latestConsensusNumber ≤ consensusReader'.latestConsensusNumber)
    (houtputs : HeadersOf outputs headers) (hpacked : EpochsPacked up chain.toChain outputs headers)
    (hexec : Executes chain.toChain outputs tip) (hblocks : reader.Serves chain.toChain blocks tip)
    (hindex : IndexState up chain chainId tip db) {query : PageQuery}
    {answer : Envelope ApiConsensusHeader}
    (hlist : Api.consensusBlocksList bs58Of consensusReader (fun _ => db) query = .ok answer)
    {row : ApiConsensusHeader} (hrow : row ∈ answer.items) {raw : String} {n : ℕ} (hn : n ≤ tip)
    (hraw : parseNumber raw "block number" = .ok n) : ∃ block,
      Api.blockByNumber bs58Of hexBytes up reader consensusReader' raw = .ok block ∧
      ((∃ r, row.execBlocks = some r ∧ r.first ≤ n ∧ n ≤ r.last) ↔
        db.Indexed n ∧ block.consensus.bind ApiBlockConsensus.consensusNumber =
          some row.number) := by
  obtain ⟨block, hblock, -, hnumber⟩ :=
    blockByNumber_eq bs58Of hexBytes up hblocks consensusReader' hraw hn
  refine ⟨block, hblock, ?_⟩
  obtain ⟨j, out, header, hget, hout, hlt, hdigest, hj, -, hheld, hrange⟩ :=
    hserves.row_spec houtputs hexec hindex hlist hrow
  have hdigests : (headers.map ConsensusHeader.digest).Nodup := by
    rw [show headers.map _ = _ from houtputs]
    exact hexec.nodup_digests
  have hbound : n < startBlock outputs outputs.length := Nat.lt_of_le_of_lt hn hexec.executed
  have hnames : (∃ e r, NamesOutput up (chain.block n).header out.consensusHeaderHash e r) ↔
      startBlock outputs j ≤ n ∧ n < startBlock outputs j + out.blockCount :=
    hexec.names_iff hout hbound
  rw [hrange, mem_outputRange_iff, hnumber, hj, db.indexed_iff]
  constructor
  · rintro ⟨hlo, hhi, hnext⟩
    obtain ⟨e, r, hnamed⟩ := hnames.mpr ⟨hlo, hhi⟩
    obtain ⟨fields, hfields, hfieldsDigest, hfieldsEpoch, -⟩ :=
      decodeConsensusFields_eq_some.mpr hnamed
    refine ⟨hnext, fields, hfields, ?_⟩
    have hepoch := hpacked j out header (n - startBlock outputs j) hout hget (by omega)
    rw [Nat.add_sub_cancel' hlo, hnamed.nonce] at hepoch
    rw [hfieldsEpoch, hfieldsDigest, show e = _ from hepoch, hdigest]
    exact consensusNumberByDigest_eq hserves' hdigests hget (Nat.lt_of_lt_of_le hlt hlater) hheld
  · rintro ⟨hnext, fields, hfields, hlookup⟩
    obtain ⟨j', header', hget', hdigest', heq⟩ := output_of_consensusNumberByDigest hserves' hlookup
    obtain rfl : j = j' := by omega
    cases hget.symm.trans hget'
    have hnamed := decodeConsensusFields_eq_some.mp ⟨fields, hfields, hdigest'.symm, rfl, rfl⟩
    rw [← hdigest] at hnamed
    obtain ⟨hlo, hhi⟩ := hnames.mp ⟨_, _, hnamed⟩
    exact ⟨hlo, hhi, hnext⟩

end Links

/-- A block of the chain of the output of two batches. -/
def pairedBlock (n : ℕ) : SealedBlock where
  header := ⟨(pairedChain.block n).header, 5⟩
  hash := BitVec.ofNat 256 n
  parentHash := 0
  gasUsed := 21000
  gasLimit := 30000000
  transactions := [BitVec.ofNat 256 n]
  rlpLength := 600

/-- A node that has executed that chain up to a block. -/
def pairedNode (tip : ℕ) : BlockReader where
  lastBlockNumber := .ok tip
  sealedBlockByNumber n := .ok (if n ≤ tip then some (pairedBlock n) else none)

theorem serves_pairedNode {tip : ℕ} (h : tip + 1 < 2 ^ 64) :
    (pairedNode tip).Serves pairedChain.toChain pairedBlock tip where
  last := rfl
  tip_lt := h
  block _ hn := congrArg Except.ok (if_pos hn)
  above _ hn := congrArg Except.ok (if_neg (Nat.not_le.mpr hn))
  header _ := rfl

/-- Two blocks, newest first, and the detail of the newest. -/
theorem blocks_pages_paired : ∃ (answers : List (Envelope ApiBlock)) (item : ApiBlock),
    ((List.range 1).mapM fun p => Api.blocksList (fun _ => "") (fun _ => "") plainUpstream
      (pairedNode 1) ⟨some p, none⟩) = .ok answers ∧
    (answers.flatMap Envelope.items).map ApiBlock.number = [1, 0] ∧
    Api.blockByNumber (fun _ => "") (fun _ => "") plainUpstream (pairedNode 1) pairedReader "1" =
      .ok item ∧ some item.unlinked = (answers.flatMap Envelope.items).head? := by
  obtain ⟨⟨answers, hanswers, -, hitems⟩, hdetail⟩ := blocks_pages (fun _ => "") (fun _ => "")
    plainUpstream (@serves_pairedNode 1 (by decide)) none 1
  obtain ⟨item, hitem, hrow⟩ :=
    (hdetail pairedReader "1" 1 (by decide +kernel)).1 (Nat.le_refl 1)
  refine ⟨answers, item, hanswers, ?_, hitem, ?_⟩
  · rw [hitems]
    rfl
  · rw [hitems, hrow]
    rfl

/-- The block links to the output, which has it in its range. -/
theorem block_links_paired : ∃ block,
    Api.blockByNumber (fun _ => "") (fun _ => "") plainUpstream (pairedNode 1) pairedReader "1" =
      .ok block ∧ block.consensus.bind ApiBlockConsensus.consensusNumber = some 1 := by
  obtain ⟨db, hindex, hitems⟩ := exists_pairedIndex
  obtain ⟨answer, hlist, hitems⟩ := Fetch.map_eq_ok_iff.mp hitems
  obtain ⟨row, hrow, hshows⟩ : ∃ row ∈ answer.items, (row.number, row.execBlocks) =
      (1, some ⟨1, 1⟩) := List.mem_map.mp (hitems ▸ List.mem_singleton_self _)
  obtain ⟨hnumber, hrange⟩ := Prod.mk.inj hshows
  have hpacked : EpochsPacked plainUpstream pairedChain.toChain [pairedOutput] [pairedHeader] := by
    intro j out header i hout hheader _
    cases j with
    | zero =>
      cases hheader
      show (plainUpstream.deconstructNonce (fromBeBytes (Vector.replicate 8 0).toList)).1 = 0
      decide
    | succ j => cases hout
  obtain ⟨block, hblock, hlinks⟩ := block_links (fun _ => "") serves_pairedReader
    serves_pairedReader (Nat.le_refl 1) (show HeadersOf [pairedOutput] [pairedHeader] from rfl)
    hpacked executes_pairedChain (@serves_pairedNode 1 (by decide)) hindex hlist hrow
    (Nat.le_refl 1) (show parseNumber "1" "block number" = .ok 1 by decide +kernel)
  obtain ⟨-, hnamed⟩ := hlinks.mp ⟨⟨1, 1⟩, hrange, Nat.le_refl 1, Nat.le_refl 1⟩
  exact ⟨block, hblock, hnumber ▸ hnamed⟩

end ExplorerIndexer
