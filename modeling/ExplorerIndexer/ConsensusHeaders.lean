import ExplorerIndexer.ConsensusRanges
import ExplorerIndexer.DescPages

/-!
# The list of consensus headers

`/consensus/blocks` lists the outputs newest first: numbers by arithmetic, a read of each header,
and one read of the index for the execution ranges of the whole page. An observer may lack the pack
of a sealed epoch; a header it lacks is left out, and the total still counts the chain.

Each number is read once for a request, so the reads of a request are a function of the number,
whenever they are made.

## Main definitions

* `ConsensusReader` — what the routes read of the consensus database
* `consensusHeadersPage`, `Api.consensusBlocksList`, `Api.consensusLatest` — the functions of the
  source
* `ConsensusReader.Serves` — the outputs the database is about, and the epochs it holds

## Main results

* `foldlM_pushHeader`, `consensusHeadersPage_eq` — a page is the headers of its numbers that are
  there, in order
* `consensus_list_pages` — the pages list what is held, newest first, each with its range, and never
  miscount the chain
-/

namespace ExplorerIndexer

/-! ### Headers -/

/-- A consensus header, with what the routes compute of its sub-dag. An author is its text. -/
structure ConsensusHeader where
  number : ℕ
  digest : B256
  parentHash : B256
  leaderEpoch : ℕ
  leaderRound : ℕ
  leaderAuthor : String
  leaderDigest : B256
  commitTimestamp : ℕ
  subDagLen : ℕ
  numPrimaryBatches : ℕ
  randomness : B256
  extra : B256
  deriving DecidableEq, Repr

/-- A header in wire form. -/
structure ApiConsensusHeader where
  number : ℕ
  digest : String
  digestBs58 : String
  parentDigest : String
  parentDigestBs58 : String
  epoch : ℕ
  round : ℕ
  leader : String
  leaderHeaderDigest : String
  committedAt : ℕ
  subDagHeaderCount : ℕ
  batchCount : ℕ
  randomness : String
  extra : String
  execBlocks : Option ApiExecRange
  deriving DecidableEq, Repr

/-- What names an output in an execution header, in wire form. -/
structure ApiBlockConsensus where
  digest : String
  digestBs58 : String
  epoch : ℕ
  round : ℕ
  batchIndex : ℕ
  workerId : ℕ
  batchDigest : String
  prevRandao : Option String
  closesEpoch : Bool
  /-- The number of the output; `none` unless it is looked up. -/
  consensusNumber : Option ℕ
  deriving DecidableEq, Repr

/-- The body of `/consensus/latest`. -/
structure ApiConsensusLatest where
  number : ℕ
  epoch : ℕ
  round : ℕ
  digest : String
  digestBs58 : String
  leader : String
  committedAt : ℕ
  execTip : ℕ
  execTipConsensus : Option ApiBlockConsensus
  deriving DecidableEq, Repr

section Wire

variable (bs58Of : B256 → String)

def buildConsensusHeader (h : ConsensusHeader) (execBlocks : Option ApiExecRange) :
    ApiConsensusHeader where
  number := h.number
  digest := digestHex h.digest
  digestBs58 := bs58Of h.digest
  parentDigest := digestHex h.parentHash
  parentDigestBs58 := bs58Of h.parentHash
  epoch := h.leaderEpoch
  round := h.leaderRound
  leader := h.leaderAuthor
  leaderHeaderDigest := digestHex h.leaderDigest
  committedAt := h.commitTimestamp
  subDagHeaderCount := h.subDagLen
  batchCount := h.numPrimaryBatches
  randomness := digestHex h.randomness
  extra := digestHex h.extra
  execBlocks

def buildBlockConsensus (f : HeaderConsensusFields) (consensusNumber : Option ℕ) :
    ApiBlockConsensus where
  digest := digestHex f.digest
  digestBs58 := bs58Of f.digest
  epoch := f.epoch
  round := f.round
  batchIndex := f.batchIndex
  workerId := f.workerId
  batchDigest := digestHex f.batchDigest
  prevRandao := f.prevRandao.map digestHex
  closesEpoch := f.closesEpoch
  consensusNumber

end Wire

/-! ### Reads of the consensus database -/

/-- What the routes read of the consensus database. -/
structure ConsensusReader where
  latestConsensusNumber : ℕ
  latestConsensusEpoch : ℕ
  headerByNumber : ℕ → Except Report (Option ConsensusHeader)
  /-- The header with a digest, in the pack of an epoch. -/
  headerByDigest : ℕ → B256 → Except Report (Option ConsensusHeader)

section Reads

variable (reader : ConsensusReader)

/-- The newest header: by the counter, not the tail of the pack. -/
def consensusLatestHeader : Except Report (Option ConsensusHeader) :=
  if reader.latestConsensusNumber = 0 then .ok none
  else reader.headerByNumber reader.latestConsensusNumber

/-- Read one header of a page; one that is absent is skipped. -/
def pushHeader (headers : List ConsensusHeader) (number : ℕ) :
    Except Report (List ConsensusHeader) := do
  match ← reader.headerByNumber number with
  | some header => return headers ++ [header]
  | none => return headers

/-- One page of headers, newest first, and the number of outputs. -/
def consensusHeadersPage (page perPage : ℕ) : Except Report (List ConsensusHeader × ℕ) := do
  let total := reader.latestConsensusNumber
  let numbers ← consensusPageNumbers total page perPage
  let headers ← numbers.foldlM (pushHeader reader) []
  return (headers, total)

/-- The number of the output with a digest, in the pack of an epoch. -/
def consensusNumberByDigest (epoch : ℕ) (digest : B256) : Except Report (Option ℕ) :=
  if reader.latestConsensusEpoch < epoch then .ok none
  else (reader.headerByDigest epoch digest).map (Option.map ConsensusHeader.number)

end Reads

section Handlers

variable (bs58Of : B256 → String) (up : Upstream) (reader : ConsensusReader) (views : ℕ → Db)

/-- The rows of a page of headers, with their ranges: one read of the index, none for no rows. -/
def consensusRows (headers : List ConsensusHeader) : Except ApiError (List ApiConsensusHeader) := do
  let items := headers.map fun header => buildConsensusHeader bs58Of header none
  if items.isEmpty then return items
  else
    let digests := headers.map ConsensusHeader.digest
    let ranges ← withConn (select fun db => .ok (consensusRangesByDigests db digests)) views
    return List.zipWith
      (fun item digest => { item with execBlocks := (ranges.find? digest).map execRange })
      items digests

/-- `GET /consensus/blocks`. -/
def Api.consensusBlocksList (query : PageQuery) :
    Except ApiError (Envelope ApiConsensusHeader) := do
  let (page, perPage, _) := pageParams query
  let (headers, total) ← liftNode (consensusHeadersPage reader page perPage)
  let items ← consensusRows bs58Of views headers
  return { items, total, page, perPage }

/-- `GET /consensus/latest`. The newest output, and the header of the execution tip, read after
it. -/
def Api.consensusLatest (tipHeader : Except Report ExecHeader) :
    Except ApiError ApiConsensusLatest := do
  match ← liftNode (consensusLatestHeader reader) with
  | none => throw .notFound
  | some latest =>
    let tip ← liftNode tipHeader
    let header := buildConsensusHeader bs58Of latest none
    return {
      number := header.number
      epoch := header.epoch
      round := header.round
      digest := header.digest
      digestBs58 := header.digestBs58
      leader := header.leader
      committedAt := header.committedAt
      execTip := tip.number
      execTipConsensus := (decodeConsensusFields up tip).map
        fun fields => buildBlockConsensus bs58Of fields none }

end Handlers

/-! ### What a page reads -/

section Pages

variable {reader : ConsensusReader}

/-- **The headers of a list of numbers** are those that are there, in order. -/
theorem foldlM_pushHeader {numbers : List ℕ} {found : ℕ → Option ConsensusHeader}
    (h : ∀ number ∈ numbers, reader.headerByNumber number = .ok (found number))
    (headers : List ConsensusHeader) :
    numbers.foldlM (pushHeader reader) headers = .ok (headers ++ numbers.filterMap found) := by
  induction numbers generalizing headers with
  | nil => rw [List.filterMap_nil, List.append_nil]; rfl
  | cons number numbers ih =>
    have hrest := ih fun n hn => h n (List.mem_cons_of_mem _ hn)
    rw [List.foldlM_cons, pushHeader, h number List.mem_cons_self]
    cases hfound : found number with
    | none =>
      rw [List.filterMap_cons_none hfound]
      exact hrest headers
    | some header =>
      rw [List.filterMap_cons_some hfound, List.append_cons]
      exact hrest (headers ++ [header])

/-- A page of headers: the numbers of its slice, and the count of the chain. -/
theorem consensusHeadersPage_eq (hlatest : reader.latestConsensusNumber < 2 ^ 64) {perPage : ℕ}
    (hpos : 1 ≤ perPage) (page : ℕ) {found : ℕ → Option ConsensusHeader}
    (h : ∀ number, consensusNumberStored number reader.latestConsensusNumber = true →
      reader.headerByNumber number = .ok (found number)) :
    consensusHeadersPage reader page perPage =
      .ok ((Page.slice perPage (page * perPage)
        (storedNumbers reader.latestConsensusNumber)).filterMap found,
        reader.latestConsensusNumber) := by
  rw [consensusHeadersPage, consensusPageNumbers_eq hlatest hpos]
  have hread : ∀ number ∈ Page.slice perPage (page * perPage)
      (storedNumbers reader.latestConsensusNumber),
      reader.headerByNumber number = .ok (found number) := fun number hnumber =>
    h number (mem_storedNumbers.mp (Page.mem_of_mem_slice hnumber))
  show ((Page.slice perPage (page * perPage) _).foldlM (pushHeader reader) [] >>= _) = _
  rw [foldlM_pushHeader hread]
  rfl

end Pages

/-! ### What a page shows -/

/-- The database is about a chain of outputs, numbered from `1`, and holds the packs of some
epochs: a header is found exactly when the pack of its epoch is held. -/
structure ConsensusReader.Serves (reader : ConsensusReader) (headers : List ConsensusHeader)
    (held : ℕ → Bool) : Prop where
  latest_le : reader.latestConsensusNumber ≤ headers.length
  /-- Numbers are 64-bit. -/
  latest_lt : reader.latestConsensusNumber < 2 ^ 64
  number : ∀ j h, headers[j]? = some h → h.number = j + 1
  epoch_le : ∀ j h, headers[j]? = some h → j < reader.latestConsensusNumber →
    h.leaderEpoch ≤ reader.latestConsensusEpoch
  byNumber : ∀ j h, headers[j]? = some h → j < reader.latestConsensusNumber →
    reader.headerByNumber (j + 1) = .ok (if held h.leaderEpoch then some h else none)
  byDigest : ∀ e ≤ reader.latestConsensusEpoch, ∀ d, reader.headerByDigest e d =
    .ok (if held e then headers.find? fun h => h.leaderEpoch = e ∧ h.digest = d else none)

/-- The header with a number, when its pack is held. -/
def heldHeader (headers : List ConsensusHeader) (held : ℕ → Bool) (number : ℕ) :
    Option ConsensusHeader :=
  headers[number - 1]?.filter fun h => held h.leaderEpoch

/-- The row of a header. -/
def consensusRow (bs58Of : B256 → String) (db : Db) (h : ConsensusHeader) : ApiConsensusHeader :=
  buildConsensusHeader bs58Of h ((consensusRangeByDigest db h.digest).map execRange)

section Rows

variable {bs58Of : B256 → String} {reader : ConsensusReader} {headers : List ConsensusHeader}
  {held : ℕ → Bool} {db : Db}

theorem ConsensusReader.Serves.found (h : reader.Serves headers held) {number : ℕ}
    (hstored : consensusNumberStored number reader.latestConsensusNumber = true) :
    reader.headerByNumber number = .ok (heldHeader headers held number) := by
  simp only [consensusNumberStored, Bool.and_eq_true, decide_eq_true_eq] at hstored
  obtain ⟨hne, hle⟩ := hstored
  have hlatest := h.latest_le
  have hget : headers[number - 1]? = some headers[number - 1] :=
    List.getElem?_eq_getElem (by omega)
  have hread := h.byNumber (number - 1) _ hget (by omega)
  rw [Nat.sub_add_cancel (Nat.pos_of_ne_zero hne)] at hread
  rw [hread, heldHeader, hget]
  by_cases hheld : held headers[number - 1].leaderEpoch = true
  · rw [if_pos hheld, Option.filter_some, if_pos hheld]
  · rw [if_neg hheld, Option.filter_some, if_neg hheld]

/-- **Each row has the range of its own output.** -/
theorem consensusRows_eq (headers : List ConsensusHeader) :
    consensusRows bs58Of (fun _ => db) headers = .ok (headers.map (consensusRow bs58Of db)) := by
  have hread : withConn (select fun db =>
      .ok (consensusRangesByDigests db (headers.map ConsensusHeader.digest))) (fun _ => db) =
        .ok (consensusRangesByDigests db (headers.map ConsensusHeader.digest)) := rfl
  have hzip : List.zipWith (fun item digest => { item with
      execBlocks := ((consensusRangesByDigests db (headers.map ConsensusHeader.digest)).find?
        digest).map execRange })
      (headers.map fun header => buildConsensusHeader bs58Of header none)
      (headers.map ConsensusHeader.digest) = headers.map (consensusRow bs58Of db) := by
    rw [List.zipWith_map, List.zipWith_self]
    refine List.map_congr_left fun h hmem => ?_
    rw [find?_consensusRangesByDigests, if_pos (List.mem_map_of_mem hmem)]
    rfl
  cases headers with
  | nil => rfl
  | cons first rest =>
    simp only [consensusRows, List.map_cons, List.isEmpty_cons, Bool.false_eq_true, if_false] at *
    rw [hread]
    exact congrArg Except.ok hzip

/-- A page of the list, for any query. -/
theorem consensusBlocksList_eq (bs58Of : B256 → String) (db : Db) (h : reader.Serves headers held)
    (query : PageQuery) :
    Api.consensusBlocksList bs58Of reader (fun _ => db) query =
      .ok ⟨((Page.slice (clampPerPage query.perPage)
          (query.page.getD 0 * clampPerPage query.perPage)
          (storedNumbers reader.latestConsensusNumber)).filterMap
            (heldHeader headers held)).map (consensusRow bs58Of db),
        reader.latestConsensusNumber, query.page.getD 0, clampPerPage query.perPage⟩ := by
  have hpage := consensusHeadersPage_eq h.latest_lt (clampPerPage_pos query.perPage)
    (query.page.getD 0) fun _ hstored => h.found hstored
  simp only [Api.consensusBlocksList, pageParams, hpage, liftNode, Except.mapError, bind,
    Except.bind, consensusRows_eq]
  rfl

/-- A header that is held is one of the chain, under its number. -/
theorem ConsensusReader.Serves.heldHeader_eq_some (h : reader.Serves headers held) {number : ℕ}
    {header : ConsensusHeader} (hpos : number ≠ 0)
    (hfound : heldHeader headers held number = some header) :
    headers[number - 1]? = some header ∧ header.number = number ∧
      held header.leaderEpoch = true := by
  obtain ⟨hget, hheld⟩ := Option.filter_eq_some_iff.mp hfound
  have hnumber := h.number _ _ hget
  exact ⟨hget, by omega, hheld⟩

/-- The numbers of the headers that a list of numbers leaves. -/
theorem ConsensusReader.Serves.map_number_filterMap (h : reader.Serves headers held)
    {numbers : List ℕ} (hpos : ∀ number ∈ numbers, number ≠ 0) :
    (numbers.filterMap (heldHeader headers held)).map ConsensusHeader.number =
      numbers.filter fun number => (heldHeader headers held number).isSome := by
  induction numbers with
  | nil => rfl
  | cons number numbers ih =>
    have hrest := ih fun n hn => hpos n (List.mem_cons_of_mem _ hn)
    cases hfound : heldHeader headers held number with
    | none =>
      rw [List.filterMap_cons_none hfound, hrest, List.filter_cons_of_neg (by simp [hfound])]
    | some header =>
      have hnumber := (h.heldHeader_eq_some (hpos number List.mem_cons_self) hfound).2.1
      rw [List.filterMap_cons_some hfound, List.map_cons, hrest, hnumber,
        List.filter_cons_of_pos (by simp [hfound])]

end Rows

section List

variable {bs58Of : B256 → String} {reader : ConsensusReader} {headers : List ConsensusHeader}
  {held : ℕ → Bool} {db : Db} {up : Upstream} {chain : NodeChain} {chainId : UInt64}
  {outputs : List ConsensusOutput} {tip : ℕ}

/-- An index state of the network, at a time when the node has executed at most the block `tip`. -/
def IndexState (up : Upstream) (chain : NodeChain) (chainId : UInt64) (tip : ℕ) (db : Db) : Prop :=
  ∃ w, (exexSystem ⟨up, chain.toChain, chainId⟩ (· = File.empty)).Reachable w ∧
    w.file = db.toFile ∧ w.tip ≤ tip

theorem IndexState.reference (h : IndexState up chain chainId tip db) :
    Reference up chain.toChain db.next db ∧ db.next ≤ tip + 1 := by
  obtain ⟨w, hw, hdb, htip⟩ := h
  obtain ⟨hreference, hnext⟩ := reference_of_reachable hw hdb
  exact ⟨hreference, hnext.trans (Nat.succ_le_succ htip)⟩

/-- The headers are those of the outputs. -/
def HeadersOf (outputs : List ConsensusOutput) (headers : List ConsensusHeader) : Prop :=
  headers.map ConsensusHeader.digest = outputs.map ConsensusOutput.consensusHeaderHash

/-- The blocks of an output below a height, as a range. -/
def outputRange (outputs : List ConsensusOutput) (j : ℕ) (out : ConsensusOutput) (next : ℕ) :
    Option ApiExecRange :=
  if startBlock outputs j < min next (startBlock outputs j + out.blockCount) then
    some ⟨startBlock outputs j, min next (startBlock outputs j + out.blockCount) - 1⟩
  else none

theorem HeadersOf.output (houtputs : HeadersOf outputs headers) {j : ℕ} {h : ConsensusHeader}
    (hget : headers[j]? = some h) :
    ∃ out, outputs[j]? = some out ∧ out.consensusHeaderHash = h.digest := by
  have hdigest := congrArg (fun l : List B256 => l[j]?) houtputs
  simp only [List.getElem?_map, hget, Option.map_some] at hdigest
  obtain ⟨out, hout, heq⟩ := Option.map_eq_some_iff.mp hdigest.symm
  exact ⟨out, hout, heq⟩

/-- **A row of the list is the row of one output**, with its indexed blocks. -/
theorem ConsensusReader.Serves.row_spec (hserves : reader.Serves headers held)
    (houtputs : HeadersOf outputs headers) (hexec : Executes chain.toChain outputs tip)
    (hindex : IndexState up chain chainId tip db) {query : PageQuery}
    {answer : Envelope ApiConsensusHeader}
    (h : Api.consensusBlocksList bs58Of reader (fun _ => db) query = .ok answer)
    {row : ApiConsensusHeader} (hrow : row ∈ answer.items) :
    ∃ j out header, headers[j]? = some header ∧ outputs[j]? = some out ∧
      j < reader.latestConsensusNumber ∧
      out.consensusHeaderHash = header.digest ∧ row.number = j + 1 ∧
      row.digest = digestHex out.consensusHeaderHash ∧
      held header.leaderEpoch = true ∧ row.execBlocks = outputRange outputs j out db.next := by
  obtain ⟨hreference, hnext⟩ := hindex.reference
  rw [consensusBlocksList_eq bs58Of db hserves] at h
  cases h
  obtain ⟨header, hheader, rfl⟩ := List.mem_map.mp hrow
  obtain ⟨number, hnumber, hfound⟩ := List.mem_filterMap.mp hheader
  have hstored := mem_storedNumbers.mp (Page.mem_of_mem_slice hnumber)
  simp only [consensusNumberStored, Bool.and_eq_true, decide_eq_true_eq] at hstored
  obtain ⟨hget, heq, hheld⟩ := hserves.heldHeader_eq_some hstored.1 hfound
  obtain ⟨out, hout, hdigest⟩ := houtputs.output hget
  refine ⟨number - 1, out, header, hget, hout, by omega, hdigest, ?_, ?_, hheld, ?_⟩
  · show header.number = number - 1 + 1
    omega
  · show digestHex header.digest = _
    rw [hdigest]
  · show (consensusRangeByDigest db header.digest).map execRange = _
    rw [← hdigest, consensusRangeByDigest_eq hreference hnext hexec hout, outputRange]
    split <;> rfl

/-- **The pages list the outputs that are held.** For every page size, and any index states the
pages are read at: each page is answered, and counts the outputs of the chain also when some are
skipped; the pages, one after the other, are the held outputs from the newest down, each once; and
each row has the blocks of its own output that the index has reached, as a range. -/
theorem consensus_list_pages (bs58Of : B256 → String) (hserves : reader.Serves headers held)
    (houtputs : HeadersOf outputs headers) (hexec : Executes chain.toChain outputs tip)
    {dbs : ℕ → Db} (hdbs : ∀ p, IndexState up chain chainId tip (dbs p))
    (perPage : Option ℕ) (n : ℕ) :
    ∃ answers : List (Envelope ApiConsensusHeader),
      ((List.range n).mapM fun p => Api.consensusBlocksList bs58Of reader (fun _ => dbs p)
        ⟨some p, perPage⟩) = .ok answers ∧
      (∀ answer ∈ answers, answer.total = reader.latestConsensusNumber) ∧
      (answers.flatMap Envelope.items).map ApiConsensusHeader.number =
        ((storedNumbers reader.latestConsensusNumber).take (n * clampPerPage perPage)).filter
          (fun number => (heldHeader headers held number).isSome) ∧
      ∀ p answer row, answers[p]? = some answer → row ∈ answer.items →
        ∃ j out, outputs[j]? = some out ∧ row.number = j + 1 ∧
          row.digest = digestHex out.consensusHeaderHash ∧
          row.execBlocks = outputRange outputs j out (dbs p).next := by
  have hpage := fun p => consensusBlocksList_eq bs58Of (dbs p) hserves ⟨some p, perPage⟩
  refine ⟨_, Fetch.mapM_eq_ok_map fun p _ => hpage p, ?_, ?_, ?_⟩
  · intro answer hanswer
    obtain ⟨p, -, rfl⟩ := List.mem_map.mp hanswer
    rfl
  · have hnumbers : ∀ p, (((Page.slice (clampPerPage perPage) (p * clampPerPage perPage)
        (storedNumbers reader.latestConsensusNumber)).filterMap (heldHeader headers held)).map
          (consensusRow bs58Of (dbs p))).map ApiConsensusHeader.number =
        (Page.slice (clampPerPage perPage) (p * clampPerPage perPage)
          (storedNumbers reader.latestConsensusNumber)).filter
            fun number => (heldHeader headers held number).isSome := fun p => by
      rw [List.map_map, ← hserves.map_number_filterMap fun number hnumber => ?_]
      · rfl
      · have hstored := mem_storedNumbers.mp (Page.mem_of_mem_slice hnumber)
        simp only [consensusNumberStored, Bool.and_eq_true, decide_eq_true_eq] at hstored
        exact hstored.1
    rw [List.flatMap_map, List.map_flatMap]
    simp only [Option.getD_some, hnumbers]
    rw [← List.filter_flatMap, Page.flatMap_slice]
  · intro p answer row hanswer hrow
    rw [List.getElem?_map] at hanswer
    obtain ⟨p', hp', rfl⟩ := Option.map_eq_some_iff.mp hanswer
    obtain rfl : p = p' := by
      obtain ⟨hlt, heq⟩ := List.getElem?_eq_some_iff.mp hp'
      rwa [List.getElem_range] at heq
    obtain ⟨j, out, header, -, hout, -, -, hnumber, hdigest, -, hrange⟩ :=
      hserves.row_spec houtputs hexec (hdbs p) (hpage p) hrow
    exact ⟨j, out, hout, hnumber, hdigest, hrange⟩

end List

/-! ### An output in the middle of its execution -/

/-- The header of the output of two batches. -/
def pairedHeader : ConsensusHeader where
  number := 1
  digest := 1
  parentHash := 0
  leaderEpoch := 0
  leaderRound := 0
  leaderAuthor := "2"
  leaderDigest := 3
  commitTimestamp := 1000
  subDagLen := 2
  numPrimaryBatches := 2
  randomness := 0
  extra := 0

/-- A database with that header. -/
def pairedReader : ConsensusReader where
  latestConsensusNumber := 1
  latestConsensusEpoch := 0
  headerByNumber number := .ok (if number = 1 then some pairedHeader else none)
  headerByDigest epoch digest :=
    .ok ([pairedHeader].find? fun h => h.leaderEpoch = epoch ∧ h.digest = digest)

theorem serves_pairedReader : pairedReader.Serves [pairedHeader] fun _ => true where
  latest_le := Nat.le_refl 1
  latest_lt := by decide
  number j h hget := by
    cases j with
    | zero => cases hget; rfl
    | succ j => cases hget
  epoch_le j h hget _ := by
    cases j with
    | zero => cases hget; exact Nat.le_refl 0
    | succ j => cases hget
  byNumber j h hget _ := by
    cases j with
    | zero => cases hget; rfl
    | succ j => cases hget
  byDigest _ _ _ := rfl

/-- The first block of the output is indexed. -/
theorem exists_pairedIndex : ∃ db, IndexState plainUpstream pairedChain 7 1 db ∧
    (Api.consensusBlocksList (fun _ => "") pairedReader (fun _ => db) ⟨none, none⟩).map
      (fun answer => answer.items.map fun row => (row.number, row.execBlocks)) =
        .ok [(1, some ⟨1, 1⟩)] := by
  have hrun : ((exexSystem ⟨plainUpstream, pairedChain.toChain, 7⟩ (· = File.empty)).run
      (freshWorld 1) (startActions 2 ++ bodyActions ++ bodyActions)).bind (fun w =>
        w.file.toDb.map fun db => (w.tip,
          (Api.consensusBlocksList (fun _ => "") pairedReader (fun _ => db) ⟨none, none⟩).map
            fun answer => answer.items.map fun row => (row.number, row.execBlocks))) =
        some (1, .ok [(1, some ⟨1, 1⟩)]) := by decide +kernel
  obtain ⟨w, db, -, hreach, hdb, hrun⟩ := exists_index_of_run (by decide) hrun
  obtain ⟨htip, hitems⟩ := Prod.mk.inj hrun
  exact ⟨db, ⟨w, hreach, hdb, Nat.le_of_eq htip⟩, hitems⟩

/-! ### A pack that is missing -/

/-- An output without batches that closes its epoch. -/
def closingOutput (digest : B256) : ConsensusOutput where
  consensusHeaderHash := digest
  batches := []
  flattenBatches := []
  batchDigests := []
  closeEpoch := true

/-- Every block is the block of an output of its own. -/
def closingChain : NodeChain where
  block n :=
    { header :=
        { (steadyChain.block n).header with parentBeaconBlockRoot := some (BitVec.ofNat 256 n) }
      transactionsWithSender := (steadyChain.block n).transactionsWithSender }
  receipts := steadyChain.receipts
  number_block _ := rfl
  gasUsed := steadyChain.gasUsed
  length_receipts := steadyChain.length_receipts
  length_gasUsed := steadyChain.length_gasUsed
  cumulative := steadyChain.cumulative

/-- The outputs of two epochs. -/
def closingOutputs : List ConsensusOutput := [closingOutput 1, closingOutput 2]

theorem batchAt?_closingOutputs {out : ConsensusOutput} (hout : out ∈ closingOutputs) (i : ℕ) :
    out.flattenBatches = [] ∧ out.batchAt? i = none := by
  simp only [closingOutputs, List.mem_cons, List.not_mem_nil, or_false] at hout
  rcases hout with rfl | rfl <;> exact ⟨rfl, rfl⟩

theorem executes_closingChain : Executes closingChain.toChain closingOutputs 2 where
  nodup_digests := by decide
  executed := by decide
  numbers := by decide
  root j out i hout hi := by
    match j with
    | 0 | 1 =>
      cases hout
      obtain rfl : i = 0 := Nat.lt_one_iff.mp hi
      rfl
    | j + 2 => cases hout
  difficulty_lt j out i hout _ := by
    show (0 : U256).toNat < 2 ^ 64
    decide
  batches out hout i hi := by
    rw [(batchAt?_closingOutputs hout i).1] at hi
    exact absurd hi (Nat.not_lt_zero i)
  difficulty j out i batch hout hbatch := by
    rw [(batchAt?_closingOutputs (List.mem_of_getElem? hout) i).2] at hbatch
    cases hbatch
  ommersHash j out i batch hout hbatch := by
    rw [(batchAt?_closingOutputs (List.mem_of_getElem? hout) i).2] at hbatch
    cases hbatch

/-- The headers of the two outputs. -/
def closingHeader (e : ℕ) : ConsensusHeader :=
  { pairedHeader with number := e + 1, digest := BitVec.ofNat 256 (e + 1), leaderEpoch := e }

/-- A database that has the pack of epoch `1` and misses the one of epoch `0`. -/
def partialReader : ConsensusReader where
  latestConsensusNumber := 2
  latestConsensusEpoch := 1
  headerByNumber number := .ok (if number = 2 then some (closingHeader 1) else none)
  headerByDigest epoch digest :=
    .ok ([closingHeader 1].find? fun h => h.leaderEpoch = epoch ∧ h.digest = digest)

theorem serves_partialReader :
    partialReader.Serves [closingHeader 0, closingHeader 1] fun e => e = 1 where
  latest_le := Nat.le_refl 2
  latest_lt := by decide
  number j h hget := by
    match j with
    | 0 | 1 => cases hget; rfl
    | j + 2 => cases hget
  epoch_le j h hget _ := by
    match j with
    | 0 | 1 => cases hget; decide
    | j + 2 => cases hget
  byNumber j h hget _ := by
    match j with
    | 0 | 1 => cases hget; rfl
    | j + 2 => cases hget
  byDigest e he d := by
    show _ = Except.ok (if decide (e = 1) then _ else none)
    rcases Nat.le_one_iff_eq_zero_or_eq_one.mp he with rfl | rfl
    · refine congrArg Except.ok (List.find?_eq_none.mpr fun h hmem hfound => ?_)
      obtain rfl := List.mem_singleton.mp hmem
      exact Nat.one_ne_zero (of_decide_eq_true hfound).1
    · rw [if_pos (decide_eq_true rfl), List.find?_cons_of_neg]
      · rfl
      · exact fun hfound => Nat.zero_ne_one (of_decide_eq_true hfound).1

/-- Two pages of one output: the newest with its block, and the page of the missing pack, which
counts both outputs as well. -/
theorem consensus_list_pages_missing :
    ∃ (db : Db) (answers : List (Envelope ApiConsensusHeader)),
      IndexState plainUpstream closingChain 7 2 db ∧ db.next = 3 ∧
      ((List.range 2).mapM fun p => Api.consensusBlocksList (fun _ => "") partialReader
        (fun _ => db) ⟨some p, some 1⟩) = .ok answers ∧
      (∀ answer ∈ answers, answer.total = 2) ∧
      (answers.flatMap Envelope.items).map ApiConsensusHeader.number = [2] ∧
      ∀ answer ∈ answers, ∀ row ∈ answer.items, row.execBlocks = some ⟨2, 2⟩ := by
  have hrun : ((exexSystem ⟨plainUpstream, closingChain.toChain, 7⟩ (· = File.empty)).run
      (freshWorld 2) (startActions 3 ++ (List.replicate 3 bodyActions).flatten)).bind (fun w =>
        w.file.toDb.map fun db => (w.tip, db.next)) = some (2, 3) := by decide +kernel
  obtain ⟨w, db, -, hreach, hdb, hrun⟩ := exists_index_of_run (by decide) hrun
  obtain ⟨htip, hnext⟩ := Prod.mk.inj hrun
  have hindex : IndexState plainUpstream closingChain 7 2 db := ⟨w, hreach, hdb, htip.le⟩
  obtain ⟨answers, hanswers, htotal, hnumbers, hrows⟩ := consensus_list_pages (fun _ => "")
    serves_partialReader (show HeadersOf closingOutputs _ from rfl) executes_closingChain
    (fun _ => hindex) (some 1) 2
  have hnumbers : (answers.flatMap Envelope.items).map ApiConsensusHeader.number = [2] := hnumbers
  refine ⟨db, answers, hindex, hnext, hanswers, htotal, hnumbers, fun answer hanswer row hrow => ?_⟩
  obtain ⟨p, hp⟩ := List.mem_iff_getElem?.mp hanswer
  obtain ⟨j, out, hout, hnumber, -, hrange⟩ := hrows p answer row hp hrow
  have hmem := List.mem_map_of_mem (f := ApiConsensusHeader.number)
    (List.mem_flatMap.mpr ⟨answer, hanswer, hrow⟩)
  rw [hnumbers, List.mem_singleton, hnumber] at hmem
  obtain rfl : j = 1 := by omega
  cases hout
  rw [hrange, hnext]
  decide

end ExplorerIndexer
