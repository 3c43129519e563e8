import ExplorerIndexer.Blocks
import ExplorerIndexer.ConsensusOutputs

/-!
# The routes of one output

Four routes say something of one output. `/consensus/blocks` and `/consensus/latest` read its
header, `/consensus/blocks/{number}` and its `/batches` read the whole output, and rebuild the
header from it. The list reads the ranges of a page at once, the others each range by itself. So the
same output is rendered on several paths, which are shown to agree.

## Main definitions

* `ReadsOutputs` — the reads of outputs and the reads of headers are about one chain

## Main results

* `keyOf_find?` — a resolved key is that of the author, and an author with a key is resolved
* `consensus_routes_agree` — the routes agree on every output
-/

namespace ExplorerIndexer

/-! ### Keys of authors -/

/-- The key of an author: one of the committee, or none when the committee has none for it. -/
def KeyOf (identifierOf : BlsPublicKey → AuthorityIdentifier) (committee : List BlsPublicKey)
    (author : AuthorityIdentifier) : Option BlsPublicKey → Prop
  | some key => key ∈ committee ∧ identifierOf key = author
  | none => ∀ key ∈ committee, identifierOf key ≠ author

/-- **The key that is found is a key of the author**, and one is found when there is one. -/
theorem keyOf_find? (codec : Codec) (committee : Option (List BlsPublicKey))
    (author : AuthorityIdentifier) :
    KeyOf codec.identifierOf (committee.getD []) author
      ((byIdentifier codec committee).find? author) := by
  have hfind : (byIdentifier codec committee).find? author =
      (committee.getD []).reverse.find? fun key => codec.identifierOf key = author := by
    rw [byIdentifier, SortedMap.find?_foldl_insert]
    exact Option.or_none
  rw [hfind]
  cases h : (committee.getD []).reverse.find? fun key => codec.identifierOf key = author with
  | none =>
    intro key hkey
    simpa using List.find?_eq_none.mp h key (List.mem_reverse.mpr hkey)
  | some key =>
    exact ⟨List.mem_reverse.mp (List.mem_of_find?_eq_some h), by simpa using List.find?_some h⟩

/-! ### The rows of a sub-dag -/

/-- The last row of the sub-dag, and no other, is the leader's: the one that the header of the
output speaks of, with the key that is given for it. -/
def ApiConsensusBlock.LeaderLast (body : ApiConsensusBlock) : Prop :=
  ∃ others leader, body.subDag = others ++ [leader] ∧
    (∀ row ∈ others, row.isLeader = false) ∧ leader.isLeader = true ∧
    leader.author = body.header.leader ∧ leader.digest = body.header.leaderHeaderDigest ∧
    leader.epoch = body.header.epoch ∧ leader.round = body.header.round ∧
    leader.authorBls = body.leaderBls

section SubDag

variable {codec : Codec} {db : Db} {out : FullOutput} {committee : Option (List BlsPublicKey)}
  {batches : List ApiConsensusBatch} {closesEpoch : Option Bool}

theorem leaderLast_buildConsensusBlock :
    (buildConsensusBlock codec (consensusRow codec.bs58Of db (out.consensusHeader codec)) out
      committee batches closesEpoch).LeaderLast := by
  obtain ⟨others, hheaders⟩ := List.getLast?_eq_some_iff.mp out.subDag.getLast?_headers
  have hlength : out.subDag.headers.length = others.length + 1 := by
    rw [hheaders, List.length_append, List.length_singleton]
  refine ⟨others.zipIdx.map fun entry => buildSubDagHeader codec entry.1
      (entry.2 + 1 = out.subDag.headers.length)
      ((byIdentifier codec committee).find? entry.1.author),
    buildSubDagHeader codec out.subDag.leader true
      ((byIdentifier codec committee).find? out.subDag.leader.author),
    ?_, fun row hrow => ?_, rfl, rfl, rfl, rfl, rfl, rfl⟩
  · rw [buildConsensusBlock]
    dsimp only
    rw [hlength, hheaders, List.zipIdx_append, List.map_append]
    simp
  · obtain ⟨entry, hentry, rfl⟩ := List.mem_map.mp hrow
    have hlt : entry.2 < others.length :=
      (List.getElem?_eq_some_iff.mp (List.mem_zipIdx_iff_getElem?.mp hentry)).1
    show decide (entry.2 + 1 = out.subDag.headers.length) = false
    rw [hlength]
    exact decide_eq_false (by omega)

/-- Each row is of one header, in order, with the key of its author. -/
theorem forall₂_subDag (header : ApiConsensusHeader) :
    List.Forall₂ (fun h row => row.author = codec.authorityText h.author ∧
      KeyOf codec.identifierOf (committee.getD []) h.author row.authorBls) out.subDag.headers
      (buildConsensusBlock codec header out committee batches closesEpoch).subDag := by
  rw [buildConsensusBlock, List.forall₂_map_right_iff]
  refine List.forall₂_iff_get.mpr ⟨List.length_zipIdx.symm, fun i hi hi' => ?_⟩
  rw [List.get_eq_getElem, List.get_eq_getElem, List.getElem_zipIdx]
  exact ⟨rfl, keyOf_find? codec committee _⟩

end SubDag

/-! ### One output on all routes -/

/-- The reads of outputs and of headers are about one chain: the header of an output is the header
with its number, and the positions in the order of execution name batches. -/
structure ReadsOutputs (codec : Codec) (reader : ConsensusReader)
    (outputByNumber : ℕ → Except Report (Option FullOutput)) : Prop where
  header : ∀ number, (outputByNumber number).map (Option.map (FullOutput.consensusHeader codec)) =
    reader.headerByNumber number
  batches : ∀ number out, outputByNumber number = .ok (some out) →
    ∀ i < out.flattenBatches.length, ∃ batch, out.batchAt? i = some batch

section Routes

variable {codec : Codec} {reader : ConsensusReader} {headers : List ConsensusHeader}
  {held : ℕ → Bool} {outputByNumber : ℕ → Except Report (Option FullOutput)} {db : Db}
  {epochs : ℕ → EpochDb} {raw : String} {number : ℕ} {out : FullOutput}

/-- What the read of an output returns: the output whose header is held, if any. -/
theorem ReadsOutputs.consensusOutput (hreads : ReadsOutputs codec reader outputByNumber)
    (hserves : reader.Serves headers held)
    (hstored : consensusNumberStored number reader.latestConsensusNumber = true) :
    ∃ found, consensusOutput outputByNumber reader.latestConsensusNumber number = .ok found ∧
      found.map (FullOutput.consensusHeader codec) = heldHeader headers held number := by
  have hheader := hreads.header number
  rw [hserves.found hstored] at hheader
  obtain ⟨found, hfound, heq⟩ := Fetch.map_eq_ok_iff.mp hheader
  refine ⟨found, ?_, heq⟩
  rw [ExplorerIndexer.consensusOutput, if_pos hstored, hfound]

/-- The batches with their transactions are those without, and more. -/
theorem buildConsensusBatches_bare {keccak256 : Bytes → B256} {output : ConsensusOutput}
    {execBlocks : Option ApiExecRange} {rows : List ApiConsensusBatch}
    (h : buildConsensusBatches keccak256 output execBlocks true = .ok rows) :
    buildConsensusBatches keccak256 output execBlocks false =
      .ok (rows.map fun row => { row with txHashes := none }) := by
  rw [buildConsensusBatches, Fetch.mapM_eq_ok_iff] at *
  rw [List.forall₂_map_right_iff]
  refine h.imp fun entry row hrow => ?_
  obtain ⟨cert, hcert, hrow⟩ := Fetch.bind_eq_ok_iff.mp hrow
  obtain ⟨batch, hbatch, hrow⟩ := Fetch.bind_eq_ok_iff.mp hrow
  cases hrow
  exact Fetch.bind_eq_ok_iff.mpr ⟨cert, hcert, Fetch.bind_eq_ok_iff.mpr ⟨batch, hbatch, rfl⟩⟩

/-- The answers for an output that is read. -/
theorem consensusBlock_eq (hnumber : parseNumber raw "consensus block number" = .ok number)
    {latest : ℕ} (hout : consensusOutput outputByNumber latest number = .ok (some out))
    (hbatches : ∀ i < out.flattenBatches.length, ∃ batch, out.batchAt? i = some batch) :
    ∃ rows, Api.consensusBlockBatches codec outputByNumber (fun _ => db) latest raw =
        .ok ⟨out.number, digestHex out.consensusHeaderHash, rows⟩ ∧
      Api.consensusBlock codec outputByNumber (fun _ => db) latest epochs raw =
        .ok (buildConsensusBlock codec (consensusRow codec.bs58Of db (out.consensusHeader codec))
          out ((epochs 1).getCommitteeKeys out.subDag.leader.epoch)
          (rows.map fun row => { row with txHashes := none })
          (((epochs 0).recordByEpoch out.subDag.leader.epoch).map
            fun record => decide (record.finalConsensus.number = number))) := by
  have hrange : Api.consensusExecRange (fun _ => db) out.consensusHeaderHash =
      .ok ((consensusRangeByDigest db out.consensusHeaderHash).map execRange) := rfl
  obtain ⟨rows, hrows, -⟩ := buildConsensusBatches_rows codec.keccak256 hbatches
    ((consensusRangeByDigest db out.consensusHeaderHash).map execRange) true
  refine ⟨rows, ?_, ?_⟩
  · simp only [Api.consensusBlockBatches, hnumber, hout, hrange, hrows, bind, Except.bind, liftNode,
      Except.mapError]
    rfl
  · simp only [Api.consensusBlock, hnumber, hout, hrange, buildConsensusBatches_bare hrows, bind,
      Except.bind, liftNode, Except.mapError]
    rfl

/-- An output that is not read is not found. -/
theorem consensusBlock_none (hnumber : parseNumber raw "consensus block number" = .ok number)
    {latest : ℕ} (hout : consensusOutput outputByNumber latest number = .ok none) (views : ℕ → Db) :
    Api.consensusBlockBatches codec outputByNumber views latest raw = .error .notFound ∧
      Api.consensusBlock codec outputByNumber views latest epochs raw = .error .notFound := by
  simp only [Api.consensusBlockBatches, Api.consensusBlock, hnumber, hout, bind, Except.bind,
    liftNode, Except.mapError]
  exact ⟨rfl, rfl⟩

theorem getElem?_storedNumbers {latest : ℕ} (h : consensusNumberStored number latest = true) :
    (storedNumbers latest)[latest - number]? = some number := by
  simp only [consensusNumberStored, Bool.and_eq_true, decide_eq_true_eq] at h
  have hlt : latest - number < (List.range latest).length := by rw [List.length_range]; omega
  rw [storedNumbers, List.getElem?_map, List.getElem?_reverse hlt, List.length_range,
    List.getElem?_range (by omega), Option.map_some, Option.some.injEq]
  omega

/-- The rows of the list with a number: there is at most the row of the header that is held, on the
page that the number says. -/
theorem ConsensusReader.Serves.mem_list_iff (hserves : reader.Serves headers held)
    {query : PageQuery} {answer : Envelope ApiConsensusHeader}
    (hanswer : Api.consensusBlocksList codec.bs58Of reader (fun _ => db) query = .ok answer)
    {row : ApiConsensusHeader} : row ∈ answer.items ∧ row.number = number ↔
      number ∈ Page.slice (clampPerPage query.perPage)
          (query.page.getD 0 * clampPerPage query.perPage)
          (storedNumbers reader.latestConsensusNumber) ∧
        ∃ header, heldHeader headers held number = some header ∧
          row = consensusRow codec.bs58Of db header := by
  rw [consensusBlocksList_eq codec.bs58Of db hserves] at hanswer
  cases hanswer
  simp only [List.mem_map, List.mem_filterMap]
  have hnumber : ∀ {n header}, n ∈ Page.slice (clampPerPage query.perPage)
      (query.page.getD 0 * clampPerPage query.perPage)
      (storedNumbers reader.latestConsensusNumber) →
      heldHeader headers held n = some header → header.number = n := by
    intro n header hn hfound
    have hstored := mem_storedNumbers.mp (Page.mem_of_mem_slice hn)
    simp only [consensusNumberStored, Bool.and_eq_true, decide_eq_true_eq] at hstored
    exact (hserves.heldHeader_eq_some hstored.1 hfound).2.1
  constructor
  · rintro ⟨⟨header, ⟨n, hn, hfound⟩, rfl⟩, heq⟩
    obtain rfl : n = number := (hnumber hn hfound).symm.trans heq
    exact ⟨hn, header, hfound, rfl⟩
  · rintro ⟨hn, header, hfound, rfl⟩
    exact ⟨⟨header, ⟨number, hn, hfound⟩, rfl⟩, hnumber hn hfound⟩

/-- What the latest output is said to be: its header is held. -/
theorem ConsensusReader.Serves.latest_spec (hserves : reader.Serves headers held) {up : Upstream}
    {tipHeader : Except Report ExecHeader} {answer : ApiConsensusLatest}
    (hanswer : Api.consensusLatest codec.bs58Of up reader tipHeader = .ok answer) :
    ∃ header, heldHeader headers held answer.number = some header ∧
      answer.epoch = header.leaderEpoch ∧ answer.round = header.leaderRound ∧
      answer.digest = digestHex header.digest ∧ answer.digestBs58 = codec.bs58Of header.digest ∧
      answer.leader = header.leaderAuthor ∧ answer.committedAt = header.commitTimestamp := by
  obtain ⟨found, hfound, hanswer⟩ := Fetch.bind_eq_ok_iff.mp hanswer
  rw [liftNode_eq_ok_iff, consensusLatestHeader] at hfound
  cases found with
  | none => cases hanswer
  | some header =>
    obtain ⟨tip, -, hanswer⟩ := Fetch.bind_eq_ok_iff.mp hanswer
    cases hanswer
    split at hfound
    · cases hfound
    · next hne =>
      have hstored : consensusNumberStored reader.latestConsensusNumber
          reader.latestConsensusNumber = true := by simp [consensusNumberStored, hne]
      have hheld := Except.ok.inj ((hserves.found hstored).symm.trans hfound)
      have hnumber : header.number = reader.latestConsensusNumber :=
        (hserves.heldHeader_eq_some hne hheld).2.1
      exact ⟨header, (congrArg (heldHeader headers held) hnumber).trans hheld, rfl, rfl, rfl, rfl,
        rfl, rfl⟩

/-- **All routes agree on an output.** Whatever the index holds, a number is either unknown to the
two detail routes and to the list alike, or the detail route answers. Then its header is the row of
the number on every page of the list that has one, and stands on the page that the number says; what
`/consensus/latest` says of that number is what the header says; the batches are those of `/batches`
without the transactions; and the sub-dag is the headers of the output, each with a key of its
author or an author without one, the leader last. -/
theorem consensus_routes_agree (hserves : reader.Serves headers held)
    (hreads : ReadsOutputs codec reader outputByNumber)
    (hnumber : parseNumber raw "consensus block number" = .ok number) (up : Upstream)
    (tipHeader : Except Report ExecHeader) (db : Db) (epochs : ℕ → EpochDb) :
    let latest := reader.latestConsensusNumber
    let list := Api.consensusBlocksList codec.bs58Of reader fun _ => db
    let detail := Api.consensusBlock codec outputByNumber (fun _ => db) latest epochs raw
    let detailBatches := Api.consensusBlockBatches codec outputByNumber (fun _ => db) latest raw
    (detail = .error .notFound ∧ detailBatches = .error .notFound ∧
      ∀ query answer, list query = .ok answer → ∀ row ∈ answer.items, row.number ≠ number) ∨
    ∃ body, detail = .ok body ∧ body.header.number = number ∧
      (∀ query answer, list query = .ok answer → ∀ row ∈ answer.items, row.number = number →
        row = body.header) ∧
      (∀ perPage, ∃ answer,
        list ⟨some ((latest - number) / clampPerPage perPage), perPage⟩ = .ok answer ∧
          body.header ∈ answer.items) ∧
      (∀ answer, Api.consensusLatest codec.bs58Of up reader tipHeader = .ok answer →
        answer.number = number → answer.epoch = body.header.epoch ∧
          answer.round = body.header.round ∧ answer.digest = body.header.digest ∧
          answer.digestBs58 = body.header.digestBs58 ∧ answer.leader = body.header.leader ∧
          answer.committedAt = body.header.committedAt) ∧
      (∃ rows, detailBatches = .ok ⟨number, body.header.digest, rows⟩ ∧
        body.batches = rows.map fun row => { row with txHashes := none }) ∧
      body.subDag.length = body.header.subDagHeaderCount ∧ body.LeaderLast ∧
      ∃ out, outputByNumber number = .ok (some out) ∧
        List.Forall₂ (fun h row => row.author = codec.authorityText h.author ∧
          KeyOf codec.identifierOf (((epochs 1).getCommitteeKeys body.header.epoch).getD [])
            h.author row.authorBls) out.subDag.headers body.subDag := by
  intro latest list detail detailBatches
  -- a number that no held header has is unknown to all routes
  have hunknown : consensusOutput outputByNumber latest number = .ok none →
      (consensusNumberStored number latest = true → heldHeader headers held number = none) →
      detail = .error .notFound ∧ detailBatches = .error .notFound ∧
        ∀ query answer, list query = .ok answer → ∀ row ∈ answer.items, row.number ≠ number := by
    intro hout hnone
    obtain ⟨hdetailBatches, hdetail⟩ := consensusBlock_none hnumber hout fun _ => db
    refine ⟨hdetail, hdetailBatches, fun query answer hanswer row hrow heq => ?_⟩
    obtain ⟨hslice, header, hheader, -⟩ := (hserves.mem_list_iff hanswer).mp ⟨hrow, heq⟩
    rw [hnone (mem_storedNumbers.mp (Page.mem_of_mem_slice hslice))] at hheader
    cases hheader
  by_cases hstored : consensusNumberStored number latest = true
  · obtain ⟨found, hfound, hheld⟩ := hreads.consensusOutput hserves hstored
    cases found with
    | none => exact .inl (hunknown hfound fun _ => hheld.symm)
    | some out =>
      have hout : outputByNumber number = .ok (some out) := by
        rwa [consensusOutput, if_pos hstored] at hfound
      have hnumber' : out.number = number := by
        simp only [consensusNumberStored, Bool.and_eq_true, decide_eq_true_eq] at hstored
        exact (hserves.heldHeader_eq_some hstored.1 hheld.symm).2.1
      obtain ⟨rows, hdetailBatches, hdetail⟩ : ∃ rows, detailBatches = _ ∧ detail = _ :=
        consensusBlock_eq hnumber hfound (hreads.batches number out hout)
      rw [hnumber'] at hdetailBatches
      refine .inr ⟨_, hdetail, hnumber', fun query answer hanswer row hrow heq => ?_,
        fun perPage => ?_, fun answer hanswer heq => ?_, ⟨rows, hdetailBatches, rfl⟩, ?_,
        leaderLast_buildConsensusBlock, out, hout, forall₂_subDag _⟩
      · obtain ⟨-, header, hheader, rfl⟩ := (hserves.mem_list_iff hanswer).mp ⟨hrow, heq⟩
        cases hheader.symm.trans hheld.symm
        rfl
      · have hslice := Page.mem_slice_div (clampPerPage_pos perPage)
          (getElem?_storedNumbers hstored)
        have hanswer := consensusBlocksList_eq codec.bs58Of db hserves
          ⟨some ((latest - number) / clampPerPage perPage), perPage⟩
        exact ⟨_, hanswer, ((hserves.mem_list_iff hanswer).mpr ⟨hslice, _, hheld.symm, rfl⟩).1⟩
      · obtain ⟨header, hheader, hsame⟩ := hserves.latest_spec hanswer
        rw [heq] at hheader
        cases hheader.symm.trans hheld.symm
        exact hsame
      · show (List.map _ _).length = _
        rw [List.length_map, List.length_zipIdx]
        rfl
  · refine .inl (hunknown ?_ fun h => absurd h hstored)
    rw [consensusOutput, if_neg hstored]

end Routes

/-- A primary header of the output of two batches. -/
def pairedPrimary (digest : B256) (author : AuthorityIdentifier) : Header where
  digest
  author
  round := 0
  epoch := 0
  createdAt := 1000
  parents := []
  payload := []
  latestExecutionBlock := ⟨0, 0⟩

/-- The output of two batches, with the header of its leader and another one. -/
def pairedFullOutput : FullOutput where
  toConsensusOutput := pairedOutput
  number := 1
  parentHash := 0
  extra := 0
  subDag :=
    { headers := [pairedPrimary 2 1, pairedPrimary 3 2]
      leader := pairedPrimary 3 2
      getLast?_headers := rfl
      commitTimestamp := 1000
      numPrimaryBatches := 2
      randomness := 0
      reputationScores := ⟨[(2, 1), (1, 0)], false⟩ }

/-- The authority `2` has a key. -/
def pairedCodec : Codec where
  bs58Of _ := ""
  authorityText author := author.toNat.repr
  identifierOf key := if key = "key" then 2 else 0
  keccak256 _ := 0

theorem readsOutputs_paired : ReadsOutputs pairedCodec pairedReader
    fun number => .ok (if number = 1 then some pairedFullOutput else none) where
  header number := by
    show Except.ok _ = Except.ok _
    split
    · decide +kernel
    · rfl
  batches number out hout := by
    split at hout
    · cases hout
      exact executes_pairedChain.batches pairedOutput List.mem_cons_self
    · cases hout

/-- The output stands on the first page of the list, while its first block is indexed, and the key
of its leader is found. -/
theorem consensus_routes_agree_paired : ∃ db body answer,
    IndexState plainUpstream pairedChain 7 1 db ∧
    Api.consensusBlock pairedCodec
      (fun number => .ok (if number = 1 then some pairedFullOutput else none)) (fun _ => db) 1
      (fun _ => ⟨fun _ => none, fun _ => some ["key"]⟩) "1" = .ok body ∧
    Api.consensusBlocksList (fun _ => "") pairedReader (fun _ => db) ⟨some 0, none⟩ = .ok answer ∧
    body.header ∈ answer.items ∧ body.leaderBls = some "key" := by
  obtain ⟨db, hindex, hlist⟩ := exists_pairedIndex
  have hnumber : parseNumber "1" "consensus block number" = .ok 1 := by decide +kernel
  have hagree := consensus_routes_agree serves_pairedReader readsOutputs_paired hnumber
    plainUpstream (.error "") db fun _ => ⟨fun _ => none, fun _ => some ["key"]⟩
  obtain ⟨answer, hanswer, hitems⟩ := Fetch.map_eq_ok_iff.mp hlist
  rcases hagree with ⟨-, -, hnone⟩ | ⟨body, hdetail, -, -, hpage, -, -, -, hleader, out, hout, hall⟩
  · obtain ⟨row, hrow, heq⟩ : ∃ row ∈ answer.items,
        (row.number, row.execBlocks) = (1, some ⟨1, 1⟩) :=
      List.mem_map.mp (hitems ▸ List.mem_singleton_self _)
    exact absurd (Prod.mk.inj heq).1 (hnone _ _ hanswer row hrow)
  · obtain ⟨answer', hanswer', hmem⟩ := hpage none
    refine ⟨db, body, answer', hindex, hdetail, hanswer', hmem, ?_⟩
    obtain ⟨others, leader, hsplit, -, -, -, -, -, -, hbls⟩ := hleader
    cases hout
    have hrows := List.forall₂_reverse_iff.mpr hall
    rw [hsplit, List.reverse_append] at hrows
    have hkey : KeyOf pairedCodec.identifierOf ["key"] 2 leader.authorBls :=
      (List.forall₂_cons.mp hrows).1.2
    rw [hbls] at hkey
    cases hfound : body.leaderBls with
    | none =>
      rw [hfound] at hkey
      exact absurd rfl (hkey "key" List.mem_cons_self)
    | some key =>
      rw [hfound] at hkey
      rw [List.mem_singleton.mp hkey.1]

end ExplorerIndexer
