import ExplorerIndexer.ConsensusHeaders
import ExplorerIndexer.Epochs

/-!
# Whole outputs

`/consensus/blocks/{number}` and its `/batches` read one whole output and rebuild the header from
it. The rows of the sub-dag and the leader name their authors by identifiers, and the key of each is
looked up among the keys that are seated for the epoch of the leader.

## Main definitions

* `FullOutput` — an output with its sub-dag
* `buildSubDagHeader`, `buildConsensusBlock`, `Api.consensusBlock`, `Api.consensusBlockBatches` —
  the functions of the source

## Main results

* `consensusBlock_ok` — what is served is a stored output, and what `closesEpoch` compares
-/

namespace ExplorerIndexer

/-! ### Outputs with their sub-dags -/

/-- The identifier of an authority, a hash of its key. -/
abbrev AuthorityIdentifier := B256

instance : Std.LawfulOrderLT AuthorityIdentifier := inferInstance

instance : Std.IsLinearOrder AuthorityIdentifier := inferInstance

/-- A primary header. -/
structure Header where
  digest : B256
  author : AuthorityIdentifier
  round : ℕ
  epoch : ℕ
  createdAt : ℕ
  parents : List B256
  /-- The batches, each with its worker. -/
  payload : List (B256 × ℕ)
  latestExecutionBlock : NumHash
  deriving DecidableEq, Repr

/-- Reputation scores. -/
structure ReputationScores where
  /-- `authorities_by_score_desc`. -/
  authoritiesByScoreDesc : List (AuthorityIdentifier × ℕ)
  finalOfSchedule : Bool
  deriving DecidableEq, Repr

/-- The headers that a commit orders. The leader is always the last of them. -/
structure CommittedSubDag where
  headers : List Header
  leader : Header
  getLast?_headers : headers.getLast? = some leader
  commitTimestamp : ℕ
  numPrimaryBatches : ℕ
  randomness : B256
  reputationScores : ReputationScores

/-- An output with its sub-dag. -/
structure FullOutput extends ConsensusOutput where
  number : ℕ
  parentHash : B256
  extra : B256
  subDag : CommittedSubDag

/-- Text forms and hashes of other crates. -/
structure Codec where
  bs58Of : B256 → String
  authorityText : AuthorityIdentifier → String
  /-- `AuthorityIdentifier::from`. -/
  identifierOf : BlsPublicKey → AuthorityIdentifier
  keccak256 : Bytes → B256

section Output

variable (codec : Codec)

/-- The header of an output. -/
def FullOutput.consensusHeader (out : FullOutput) : ConsensusHeader where
  number := out.number
  digest := out.consensusHeaderHash
  parentHash := out.parentHash
  leaderEpoch := out.subDag.leader.epoch
  leaderRound := out.subDag.leader.round
  leaderAuthor := codec.authorityText out.subDag.leader.author
  leaderDigest := out.subDag.leader.digest
  commitTimestamp := out.subDag.commitTimestamp
  subDagLen := out.subDag.headers.length
  numPrimaryBatches := out.subDag.numPrimaryBatches
  randomness := out.subDag.randomness
  extra := out.extra

end Output

/-! ### Wire forms -/

structure ApiPayloadEntry where
  batchDigest : String
  workerId : ℕ
  deriving DecidableEq, Repr

structure ApiSubDagHeader where
  digest : String
  author : String
  authorBls : Option String
  round : ℕ
  epoch : ℕ
  createdAt : ℕ
  parents : List String
  payload : List ApiPayloadEntry
  latestExecutionBlock : ApiNumHash
  isLeader : Bool
  deriving DecidableEq, Repr

/-- The body of `/consensus/blocks/{number}`. -/
structure ApiConsensusBlock where
  header : ApiConsensusHeader
  leaderBls : Option String
  subDag : List ApiSubDagHeader
  reputationScores : ApiReputationScores
  batches : List ApiConsensusBatch
  closesEpoch : Option Bool
  deriving DecidableEq, Repr

/-- The body of `/consensus/blocks/{number}/batches`. -/
structure ApiConsensusBatches where
  number : ℕ
  digest : String
  batches : List ApiConsensusBatch
  deriving DecidableEq, Repr

section Build

variable (codec : Codec)

def buildSubDagHeader (h : Header) (isLeader : Bool) (bls : Option BlsPublicKey) :
    ApiSubDagHeader where
  digest := digestHex h.digest
  author := codec.authorityText h.author
  authorBls := bls
  round := h.round
  epoch := h.epoch
  createdAt := h.createdAt
  parents := h.parents.map digestHex
  payload := h.payload.map fun entry => ⟨digestHex entry.1, entry.2⟩
  latestExecutionBlock := ⟨h.latestExecutionBlock.number, digestHex h.latestExecutionBlock.hash⟩
  isLeader

/-- The scores, highest first. -/
def buildReputationScores (scores : ReputationScores) : ApiReputationScores where
  scores := scores.authoritiesByScoreDesc.map fun entry =>
    (codec.authorityText entry.1, entry.2)
  finalOfSchedule := scores.finalOfSchedule

/-- The keys of a committee under their identifiers. -/
def byIdentifier (committee : Option (List BlsPublicKey)) :
    SortedMap AuthorityIdentifier BlsPublicKey :=
  (committee.getD []).foldl (fun keys key => keys.insert (codec.identifierOf key) key) .empty

/-- The body of the detail route. The leader is the last header of the sub-dag. -/
def buildConsensusBlock (header : ApiConsensusHeader) (out : FullOutput)
    (committee : Option (List BlsPublicKey)) (batches : List ApiConsensusBatch)
    (closesEpoch : Option Bool) : ApiConsensusBlock where
  header
  leaderBls := (byIdentifier codec committee).find? out.subDag.leader.author
  subDag := out.subDag.headers.zipIdx.map fun entry =>
    buildSubDagHeader codec entry.1 (entry.2 + 1 = out.subDag.headers.length)
      ((byIdentifier codec committee).find? entry.1.author)
  reputationScores := buildReputationScores codec out.subDag.reputationScores
  batches
  closesEpoch

end Build

/-! ### The handlers -/

section Handlers

variable (codec : Codec) (outputByNumber : ℕ → Except Report (Option FullOutput))
  (views : ℕ → Db) (latest : ℕ)

/-- One output by its number; `outputByNumber` reads the packs. -/
def consensusOutput (number : ℕ) : Except Report (Option FullOutput) :=
  if consensusNumberStored number latest then outputByNumber number else .ok none

/-- `GET /consensus/blocks/{number}`. The record of the epoch and the keys are read at two times. -/
def Api.consensusBlock (epochs : ℕ → EpochDb) (raw : String) :
    Except ApiError ApiConsensusBlock := do
  let number ← parseNumber raw "consensus block number"
  match ← liftNode (consensusOutput outputByNumber latest number) with
  | none => throw .notFound
  | some output =>
    let header := buildConsensusHeader codec.bs58Of (output.consensusHeader codec) none
    let execBlocks ← Api.consensusExecRange views output.consensusHeaderHash
    let batches ← liftNode
      (buildConsensusBatches codec.keccak256 output.toConsensusOutput execBlocks false)
    let header := { header with execBlocks }
    let closesEpoch := ((epochs 0).recordByEpoch header.epoch).map
      fun record => decide (record.finalConsensus.number = number)
    let committee := (epochs 1).getCommitteeKeys header.epoch
    return buildConsensusBlock codec header output committee batches closesEpoch

/-- `GET /consensus/blocks/{number}/batches`. -/
def Api.consensusBlockBatches (raw : String) : Except ApiError ApiConsensusBatches := do
  let number ← parseNumber raw "consensus block number"
  match ← liftNode (consensusOutput outputByNumber latest number) with
  | none => throw .notFound
  | some output =>
    let execBlocks ← Api.consensusExecRange views output.consensusHeaderHash
    let batches ← liftNode
      (buildConsensusBatches codec.keccak256 output.toConsensusOutput execBlocks true)
    return { number := output.number, digest := digestHex output.consensusHeaderHash, batches }

end Handlers

section Handlers

variable {codec : Codec} {outputByNumber : ℕ → Except Report (Option FullOutput)} {views : ℕ → Db}
  {latest : ℕ} {epochs : ℕ → EpochDb} {raw : String} {number : ℕ} {block : ApiConsensusBlock}

/-- **Only a stored output is served**, and its number is compared with the record of the epoch of
its leader. -/
theorem consensusBlock_ok (hnumber : parseNumber raw "consensus block number" = .ok number)
    (h : Api.consensusBlock codec outputByNumber views latest epochs raw = .ok block) :
    consensusNumberStored number latest = true ∧ ∃ output,
      outputByNumber number = .ok (some output) ∧
      block.closesEpoch = ((epochs 0).recordByEpoch output.subDag.leader.epoch).map
        fun record => decide (record.finalConsensus.number = number) := by
  obtain ⟨number', hnumber', h⟩ := Fetch.bind_eq_ok_iff.mp h
  obtain rfl : number = number' := Except.ok.inj (hnumber.symm.trans hnumber')
  obtain ⟨output?, houtput, h⟩ := Fetch.bind_eq_ok_iff.mp h
  rw [liftNode_eq_ok_iff, consensusOutput] at houtput
  cases output? with
  | none => cases h
  | some output =>
    obtain ⟨execBlocks, -, h⟩ := Fetch.bind_eq_ok_iff.mp h
    obtain ⟨batches, -, h⟩ := Fetch.bind_eq_ok_iff.mp h
    cases h
    split at houtput
    · next hstored => exact ⟨hstored, output, houtput, rfl⟩
    · cases houtput

end Handlers

end ExplorerIndexer
