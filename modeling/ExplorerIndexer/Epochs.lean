import ExplorerIndexer.Api
import ExplorerIndexer.DescPages
import ExplorerIndexer.Library.SortedMap

/-!
# The epoch routes

`/epochs` and `/consensus/epochs` list the epochs, newest first, from the epoch records of the
consensus database. Each row takes up to three reads of that database, and the database may change
between them: a view is what it answers at one read, and a request has one view for each. The number
of the current epoch is read once for a request.

A key, a signature and an authority are their base58 texts; `bs58Of` is the base58 text of a digest.

## Main definitions

* `EpochDb`, `EpochReader` — what the rows read
* `buildEpochRecord`, `buildEpochCertificate` — a record and a certificate in wire form
* `epochRow`, `consensusEpochRow` — the two row builders
* `Api.epochsList`, `Api.consensusEpochsList`, `Api.epochByNumber`, `Api.consensusEpoch` — the
  handlers

## Main results

* `buildEpochCertificate_signers` — every signer is listed or counted as unresolved
* `epochRow_spec`, `consensusEpochRow_spec` — the fields of a row
* `endTimes_spec` — the times of a page are those of its headers
-/

namespace ExplorerIndexer

/-! ### Records and certificates -/

/-- A BLS public key. -/
abbrev BlsPublicKey := String

/-- A block or a consensus header, by its number and its hash. -/
structure NumHash where
  number : ℕ
  hash : B256
  deriving DecidableEq, Repr

/-- An epoch record. `digest` and `superQuorum` are its methods. -/
structure EpochRecord where
  epoch : ℕ
  committee : List BlsPublicKey
  nextCommittee : List BlsPublicKey
  parentHash : B256
  /-- The last execution block of the epoch. -/
  finalState : NumHash
  /-- The last consensus header of the epoch. -/
  finalConsensus : NumHash
  digest : B256
  superQuorum : ℕ
  deriving DecidableEq, Repr

/-- A certificate over a record. -/
structure EpochCertificate where
  epochHash : B256
  signature : String
  /-- The indexes into the committee of those who signed, ascending. -/
  signedAuthorities : List ℕ
  deriving DecidableEq, Repr

/-- What the epoch database answers at one time. -/
structure EpochDb where
  getEpochByNumber : ℕ → Option (EpochRecord × Option EpochCertificate)
  /-- The keys that are seated for an epoch. -/
  getCommitteeKeys : ℕ → Option (List BlsPublicKey)

/-- The record of an epoch. -/
def EpochDb.recordByEpoch (db : EpochDb) (epoch : ℕ) : Option EpochRecord :=
  (db.getEpochByNumber epoch).map Prod.fst

structure ApiNumHash where
  number : ℕ
  hash : String
  deriving DecidableEq, Repr

structure ApiConsensusNumHash where
  number : ℕ
  hash : String
  hashBs58 : String
  deriving DecidableEq, Repr

/-- A record in wire form. -/
structure ApiEpochRecord where
  epoch : ℕ
  digest : String
  digestBs58 : String
  parentHash : String
  parentHashBs58 : String
  committee : List String
  nextCommittee : List String
  finalState : ApiNumHash
  finalConsensus : ApiConsensusNumHash
  superQuorum : ℕ
  deriving DecidableEq, Repr

/-- A certificate in wire form. -/
structure ApiEpochCertificate where
  epochHash : String
  epochHashBs58 : String
  signature : String
  signerIndices : List ℕ
  /-- The keys of the signers that the committee has. -/
  signers : List String
  /-- The number of signers that it does not have. -/
  unresolvedSigners : ℕ
  signerCount : ℕ
  superQuorum : ℕ
  /-- Whether the signature verifies; `none` on lists. -/
  verified : Option Bool
  deriving DecidableEq, Repr

section Wire

variable (bs58Of : B256 → String)

def buildEpochRecord (r : EpochRecord) : ApiEpochRecord where
  epoch := r.epoch
  digest := digestHex r.digest
  digestBs58 := bs58Of r.digest
  parentHash := digestHex r.parentHash
  parentHashBs58 := bs58Of r.parentHash
  committee := r.committee
  nextCommittee := r.nextCommittee
  finalState := ⟨r.finalState.number, digestHex r.finalState.hash⟩
  finalConsensus :=
    ⟨r.finalConsensus.number, digestHex r.finalConsensus.hash, bs58Of r.finalConsensus.hash⟩
  superQuorum := r.superQuorum

/-- One signer of the bitmap: its key, or one more that is unresolved. -/
def pushSigner (committee : List BlsPublicKey) (acc : List String × ℕ) (index : ℕ) :
    List String × ℕ :=
  match committee[index]? with
  | some key => (acc.1 ++ [key], acc.2)
  | none => (acc.1, acc.2 + 1)

def buildEpochCertificate (r : EpochRecord) (c : EpochCertificate) (verified : Option Bool) :
    ApiEpochCertificate :=
  let (signers, unresolvedSigners) := c.signedAuthorities.foldl (pushSigner r.committee) ([], 0)
  { epochHash := digestHex c.epochHash
    epochHashBs58 := bs58Of c.epochHash
    signature := c.signature
    signerIndices := c.signedAuthorities
    signers
    unresolvedSigners
    signerCount := c.signedAuthorities.length
    superQuorum := r.superQuorum
    verified }

theorem foldl_pushSigner (committee : List BlsPublicKey) (indices : List ℕ)
    (acc : List String × ℕ) : indices.foldl (pushSigner committee) acc =
      (acc.1 ++ indices.filterMap fun index => committee[index]?,
        acc.2 + indices.countP fun index => committee.length ≤ index) := by
  induction indices generalizing acc with
  | nil => simp
  | cons index indices ih =>
    rw [List.foldl_cons, ih, pushSigner]
    cases hkey : committee[index]? with
    | none =>
      have hlen := List.getElem?_eq_none_iff.mp hkey
      rw [List.filterMap_cons_none hkey, List.countP_cons_of_pos (by simpa using hlen)]
      simp only [Prod.mk.injEq, true_and]
      omega
    | some key =>
      have hlen := (List.getElem?_eq_some_iff.mp hkey).1
      rw [List.filterMap_cons_some hkey, List.countP_cons_of_neg (by simpa using hlen)]
      simp

/-- An index names a key of the committee or lies past its end. -/
theorem length_filterMap_add_countP (committee : List BlsPublicKey) (indices : List ℕ) :
    (indices.filterMap fun index => committee[index]?).length +
      (indices.countP fun index => committee.length ≤ index) = indices.length := by
  induction indices with
  | nil => rfl
  | cons index indices ih =>
    rw [List.length_cons, ← ih]
    cases hkey : committee[index]? with
    | none =>
      have hlen := List.getElem?_eq_none_iff.mp hkey
      rw [List.filterMap_cons_none (f := fun index => committee[index]?) hkey,
        List.countP_cons_of_pos (by simpa using hlen), Nat.add_assoc]
    | some key =>
      have hlen := (List.getElem?_eq_some_iff.mp hkey).1
      rw [List.filterMap_cons_some (f := fun index => committee[index]?) hkey,
        List.countP_cons_of_neg (by simpa using hlen), List.length_cons]
      omega

/-- **Every signer is listed or counted as unresolved.** -/
theorem buildEpochCertificate_signers (r : EpochRecord) (c : EpochCertificate)
    (verified : Option Bool) :
    (buildEpochCertificate bs58Of r c verified).signers =
      (c.signedAuthorities.filterMap fun index => r.committee[index]?) ∧
    (buildEpochCertificate bs58Of r c verified).signers.length +
      (buildEpochCertificate bs58Of r c verified).unresolvedSigners =
        (buildEpochCertificate bs58Of r c verified).signerCount := by
  have hfold := foldl_pushSigner r.committee c.signedAuthorities ([], 0)
  rw [List.nil_append, Nat.zero_add] at hfold
  simp only [buildEpochCertificate, hfold, true_and]
  exact length_filterMap_add_countP r.committee c.signedAuthorities

end Wire

/-! ### Rows -/

/-- `saturating_add` on 64-bit numbers. -/
def saturatingAdd (a b : ℕ) : ℕ := min (a + b) (2 ^ 64 - 1)

theorem saturatingAdd_eq {a b : ℕ} (h : a + b < 2 ^ 64) : saturatingAdd a b = a + b := by
  rw [saturatingAdd]
  omega

/-- An epoch number of the wire as a 32-bit number. -/
def epochU32 (epoch : ℕ) : ℕ := if epoch < 2 ^ 32 then epoch else 2 ^ 32 - 1

/-- Parse a decimal path segment; `what` names it in the message. -/
def parseNumber (raw what : String) : Except ApiError ℕ :=
  Fetch.okOr (Numeral.parseNat (2 ^ 64) raw) (.badRequest s!"invalid {what}: {raw}")

/-- A possibly still-open inclusive range. -/
structure ApiRange where
  /-- `none` without the record of the epoch before. -/
  first : Option ℕ
  /-- `none` for the current epoch. -/
  last : Option ℕ
  deriving DecidableEq, Repr

/-- A row of `/epochs`. -/
structure ApiEpoch where
  epoch : ℕ
  startBlock : ℕ
  endBlock : Option ℕ
  endTime : Option ℕ
  committeeSize : ℕ
  committeeBls : List String
  certified : Bool
  isCurrent : Bool
  committeeAddresses : Option (List String)
  record : Option ApiEpochRecord
  certificate : Option ApiEpochCertificate
  deriving DecidableEq, Repr

/-- The last round of an authority. -/
structure ApiAuthorityRound where
  authority : String
  round : ℕ
  deriving DecidableEq, Repr

/-- Reputation scores, highest first. -/
structure ApiReputationScores where
  scores : List (String × ℕ)
  finalOfSchedule : Bool
  deriving DecidableEq, Repr

/-- A row of `/consensus/epochs`. -/
structure ApiConsensusEpoch where
  epoch : ℕ
  isCurrent : Bool
  record : Option ApiEpochRecord
  certificate : Option ApiEpochCertificate
  consensusRange : ApiRange
  execRange : ApiRange
  endTime : Option ℕ
  committeeBls : List String
  committeeAddresses : Option (List String)
  packComplete : Option Bool
  lastCommittedRounds : Option (List ApiAuthorityRound)
  finalReputationScores : Option ApiReputationScores
  deriving DecidableEq, Repr

/-- The other reads of the node that the epoch routes take. -/
structure EpochReader where
  headerByNumber : ℕ → Except Report (Option ExecHeader)
  verifyEpochCertificate : EpochRecord → EpochCertificate → Except Report Bool
  committeeAddresses : ℕ → Option (List Address)
  epochPackComplete : EpochRecord → Bool
  /-- Furthest ahead first. -/
  epochLastCommitted : ℕ → Option (List (String × ℕ))
  epochFinalReputation : ℕ → Option ApiReputationScores

/-- The record and the certificate of an epoch, and the record of the epoch before: two reads. -/
def epochRecordPair (view : ℕ → EpochDb) (epoch : ℕ) :
    Option (EpochRecord × Option EpochCertificate) × Option EpochRecord :=
  ((view 0).getEpochByNumber epoch,
    if epoch = 0 then none else (view 1).recordByEpoch (epoch - 1))

/-- What a row shows of its epoch: nothing while the epoch is current. -/
def shownPair (this : Option (EpochRecord × Option EpochCertificate)) (isCurrent : Bool) :
    Option EpochRecord × Option EpochCertificate :=
  match this.filter fun _ => !isCurrent with
  | some (record, certificate) => (some record, certificate)
  | none => (none, none)

/-- The keys of the committee: those of the record, or else those that are seated. -/
def committeeBls (db : EpochDb) (epoch : ℕ) : Option EpochRecord → List String
  | some record => record.committee
  | none => (db.getCommitteeKeys epoch).getD []

section Rows

variable (bs58Of : B256 → String) (reader : EpochReader)

/-- The certificate over a record; `verify` checks its signature. -/
def apiCertificate (record : EpochRecord) (certificate : Option EpochCertificate)
    (verify : Bool) : Except ApiError (Option ApiEpochCertificate) :=
  match certificate with
  | none => return none
  | some certificate => do
    let verified ← if verify then
        some <$> liftNode (reader.verifyEpochCertificate record certificate)
      else pure none
    return some (buildEpochCertificate bs58Of record certificate verified)

/-- The certificate over the record of a row. -/
def rowCertificate (record : Option EpochRecord) (certificate : Option EpochCertificate)
    (verify : Bool) : Except ApiError (Option ApiEpochCertificate) :=
  match record with
  | some record => apiCertificate bs58Of reader record certificate verify
  | none => return none

/-- One `/epochs` row, without the time of its end. Without the record of the epoch before, it
starts at block `0`. -/
def epochRow (view : ℕ → EpochDb) (epoch current : ℕ) (verify : Bool) :
    Except ApiError ApiEpoch := do
  let isCurrent := epoch = current
  let (this, previous) := epochRecordPair view (epochU32 epoch)
  let (record, certificate) := shownPair this isCurrent
  let committeeBls := committeeBls (view 2) (epochU32 epoch) record
  let certificate ← rowCertificate bs58Of reader record certificate verify
  return {
    epoch
    startBlock := previous.elim 0 fun previous => saturatingAdd previous.finalState.number 1
    endBlock := record.map fun record => record.finalState.number
    endTime := none
    committeeSize := committeeBls.length
    committeeBls
    certified := certificate.isSome
    isCurrent
    committeeAddresses := none
    record := record.map (buildEpochRecord bs58Of)
    certificate }

/-- One `/consensus/epochs` row, without the time of its end. Epoch `0` starts at output `1` and at
block `0`; without the record of the epoch before, a later one has no start. -/
def consensusEpochRow (view : ℕ → EpochDb) (epoch current : ℕ) (detail : Bool) :
    Except ApiError ApiConsensusEpoch := do
  let isCurrent := epoch = current
  let (this, previous) := epochRecordPair view epoch
  let (record, certificate) := shownPair this isCurrent
  let certificate ← rowCertificate bs58Of reader record certificate detail
  let item : ApiConsensusEpoch := {
    epoch
    isCurrent
    record := record.map (buildEpochRecord bs58Of)
    certificate
    consensusRange := {
      first := if epoch = 0 then some 1 else
        previous.map fun previous => saturatingAdd previous.finalConsensus.number 1
      last := record.map fun record => record.finalConsensus.number }
    execRange := {
      first := if epoch = 0 then some 0 else
        previous.map fun previous => saturatingAdd previous.finalState.number 1
      last := record.map fun record => record.finalState.number }
    endTime := none
    committeeBls := committeeBls (view 2) epoch record
    committeeAddresses := none
    packComplete := none
    lastCommittedRounds := none
    finalReputationScores := none }
  if detail then
    return { item with
      committeeAddresses := (reader.committeeAddresses epoch).map (List.map addrHex)
      packComplete := record.map reader.epochPackComplete
      lastCommittedRounds := (reader.epochLastCommitted epoch).map
        (List.map fun entry => ⟨entry.1, entry.2⟩)
      finalReputationScores := reader.epochFinalReputation epoch }
  else return item

/-- Read one header into the map. -/
def insertTimestamp (out : SortedMap ℕ ℕ) (number : ℕ) : Except Report (SortedMap ℕ ℕ) := do
  match ← reader.headerByNumber number with
  | some header => return out.insert number header.timestamp
  | none => return out

/-- The times of a set of blocks: one entry for each block that the node has. -/
def headerTimestamps (numbers : List ℕ) : Except Report (SortedMap ℕ ℕ) :=
  numbers.foldlM (insertTimestamp reader) .empty

/-- The times of the ends of a page, in one read; none is made when no row has an end. -/
def endTimes (ends : List (Option ℕ)) : Except ApiError (SortedMap ℕ ℕ) :=
  match ends.filterMap id with
  | [] => return .empty
  | blocks => liftNode (headerTimestamps reader blocks)

namespace Api

/-- `GET /epochs`. -/
def epochsList (views : ℕ → ℕ → EpochDb) (current : ℕ) (query : PageQuery) :
    Except ApiError (Envelope ApiEpoch) := do
  let (page, perPage, _) := pageParams query
  let total := saturatingAdd current 1
  let numbers ← liftNode (descPageItems total page perPage)
  let items ← numbers.zipIdx.mapM fun (number, row) =>
    epochRow bs58Of reader (views row) number current false
  let times ← endTimes reader (items.map ApiEpoch.endBlock)
  return {
    items := items.map fun item => { item with endTime := item.endBlock.bind times.find? }
    total, page, perPage }

/-- `GET /consensus/epochs`. -/
def consensusEpochsList (views : ℕ → ℕ → EpochDb) (current : ℕ) (query : PageQuery) :
    Except ApiError (Envelope ApiConsensusEpoch) := do
  let (page, perPage, _) := pageParams query
  let total := saturatingAdd current 1
  let numbers ← liftNode (descPageItems total page perPage)
  let items ← numbers.zipIdx.mapM fun (number, row) =>
    consensusEpochRow bs58Of reader (views row) (epochU32 number) current false
  let times ← endTimes reader (items.map (ApiRange.last ∘ ApiConsensusEpoch.execRange))
  return {
    items := items.map fun item => { item with endTime := item.execRange.last.bind times.find? }
    total, page, perPage }

/-- `GET /epochs/{n}`. -/
def epochByNumber (view : ℕ → EpochDb) (current : ℕ) (raw : String) :
    Except ApiError ApiEpoch := do
  let number ← parseNumber raw "epoch number"
  if current < number then throw .notFound
  let item ← epochRow bs58Of reader view number current true
  let times ← endTimes reader [item.endBlock]
  return { item with
    endTime := item.endBlock.bind times.find?
    committeeAddresses := (reader.committeeAddresses (epochU32 number)).map (List.map addrHex) }

/-- `GET /consensus/epochs/{n}`. -/
def consensusEpoch (view : ℕ → EpochDb) (current : ℕ) (raw : String) :
    Except ApiError ApiConsensusEpoch := do
  let number ← parseNumber raw "epoch number"
  if current < number then throw .notFound
  let item ← consensusEpochRow bs58Of reader view (epochU32 number) current true
  let times ← endTimes reader [item.execRange.last]
  return { item with endTime := item.execRange.last.bind times.find? }

end Api

end Rows

/-! ### What the rows say -/

theorem epochU32_eq {epoch : ℕ} (h : epoch < 2 ^ 32) : epochU32 epoch = epoch := if_pos h

/-- The record of an epoch is shown when the epoch is over. -/
theorem shownPair_fst (this : Option (EpochRecord × Option EpochCertificate)) (isCurrent : Bool) :
    (shownPair this isCurrent).1 = if isCurrent then none else this.map Prod.fst := by
  cases isCurrent <;> cases this <;> rfl

section Rows

variable (bs58Of : B256 → String) (reader : EpochReader) (view : ℕ → EpochDb) (epoch current : ℕ)

/-- The record that a row shows. -/
def shownRecord : Option EpochRecord :=
  if epoch = current then none else (view 0).recordByEpoch epoch

theorem shownPair_epochRecordPair :
    (shownPair (epochRecordPair view epoch).1 (epoch = current)).1 =
      shownRecord view epoch current := by
  rw [shownPair_fst, shownRecord]
  by_cases h : epoch = current <;> simp [h, epochRecordPair, EpochDb.recordByEpoch]

/-- A list does not check signatures, so no row of it fails. -/
theorem rowCertificate_false (record : Option EpochRecord)
    (certificate : Option EpochCertificate) :
    rowCertificate bs58Of reader record certificate false =
      .ok (record.bind fun record => certificate.map fun certificate =>
        buildEpochCertificate bs58Of record certificate none) := by
  cases record <;> cases certificate <;> rfl

variable {bs58Of reader view epoch current}

/-- **A row of `/epochs`.** It starts after the end of the epoch before, or at block `0`, and it
ends where its record says. -/
theorem epochRow_spec {verify : Bool} {row : ApiEpoch} (hepoch : epoch < 2 ^ 32)
    (h : epochRow bs58Of reader view epoch current verify = .ok row) :
    row.epoch = epoch ∧ row.isCurrent = decide (epoch = current) ∧
      row.startBlock = (epochRecordPair view epoch).2.elim 0
        (fun previous => saturatingAdd previous.finalState.number 1) ∧
      row.endBlock = (shownRecord view epoch current).map (fun record => record.finalState.number) ∧
      row.record = (shownRecord view epoch current).map (buildEpochRecord bs58Of) := by
  rw [epochRow, epochU32_eq hepoch] at h
  obtain ⟨certificate, -, h⟩ := Fetch.bind_eq_ok_iff.mp h
  cases h
  rw [← shownPair_epochRecordPair]
  exact ⟨rfl, rfl, rfl, rfl, rfl⟩

/-- **A row of `/consensus/epochs`.** -/
theorem consensusEpochRow_spec {detail : Bool} {row : ApiConsensusEpoch}
    (h : consensusEpochRow bs58Of reader view epoch current detail = .ok row) :
    row.epoch = epoch ∧ row.isCurrent = decide (epoch = current) ∧
      row.consensusRange = ⟨if epoch = 0 then some 1 else (epochRecordPair view epoch).2.map
          fun previous => saturatingAdd previous.finalConsensus.number 1,
        (shownRecord view epoch current).map fun record => record.finalConsensus.number⟩ ∧
      row.execRange = ⟨if epoch = 0 then some 0 else (epochRecordPair view epoch).2.map
          fun previous => saturatingAdd previous.finalState.number 1,
        (shownRecord view epoch current).map fun record => record.finalState.number⟩ ∧
      row.record = (shownRecord view epoch current).map (buildEpochRecord bs58Of) := by
  rw [consensusEpochRow] at h
  obtain ⟨certificate, -, h⟩ := Fetch.bind_eq_ok_iff.mp h
  rw [← shownPair_epochRecordPair]
  cases detail <;> cases h <;> exact ⟨rfl, rfl, rfl, rfl, rfl⟩

theorem exists_epochRow : ∃ row, epochRow bs58Of reader view epoch current false = .ok row :=
  ⟨_, Fetch.bind_eq_ok_iff.mpr ⟨_, rowCertificate_false .., rfl⟩⟩

theorem exists_consensusEpochRow :
    ∃ row, consensusEpochRow bs58Of reader view epoch current false = .ok row :=
  ⟨_, Fetch.bind_eq_ok_iff.mpr ⟨_, rowCertificate_false .., rfl⟩⟩

end Rows

/-! ### The times of the ends -/

section Times

variable {reader : EpochReader} {header : ℕ → Option ExecHeader}

theorem insertTimestamp_spec {out : SortedMap ℕ ℕ} {number : ℕ}
    (h : reader.headerByNumber number = .ok (header number)) :
    ∃ out', insertTimestamp reader out number = .ok out' ∧ ∀ n, out'.find? n =
      if n = number then ((header n).map ExecHeader.timestamp).or (out.find? n)
      else out.find? n := by
  rw [insertTimestamp, h]
  cases hheader : header number with
  | none =>
    refine ⟨out, rfl, fun n => ?_⟩
    split
    · next heq => rw [heq, hheader, Option.map_none, Option.none_or]
    · rfl
  | some found =>
    refine ⟨out.insert number found.timestamp, rfl, fun n => ?_⟩
    rw [SortedMap.find?_insert]
    split
    · next heq => rw [heq, hheader, Option.map_some, Option.some_or]
    · rfl

theorem foldlM_insertTimestamp {numbers : List ℕ}
    (h : ∀ n ∈ numbers, reader.headerByNumber n = .ok (header n)) (out : SortedMap ℕ ℕ) :
    ∃ times, numbers.foldlM (insertTimestamp reader) out = .ok times ∧ ∀ n, times.find? n =
      if n ∈ numbers then ((header n).map ExecHeader.timestamp).or (out.find? n)
      else out.find? n := by
  induction numbers generalizing out with
  | nil => exact ⟨out, rfl, fun n => by simp⟩
  | cons number numbers ih =>
    obtain ⟨hnumber, hnumbers⟩ := List.forall_mem_cons.mp h
    obtain ⟨out', hout', hfind'⟩ := @insertTimestamp_spec _ _ out _ hnumber
    obtain ⟨times, htimes, hfind⟩ := ih hnumbers out'
    refine ⟨times, ?_, fun n => ?_⟩
    · rw [List.foldlM_cons, hout']
      exact htimes
    · rw [hfind, hfind']
      by_cases heq : n = number <;> by_cases hmem : n ∈ numbers <;>
        simp [heq, hmem, ← Option.or_assoc]

/-- **The times are those of the headers.** -/
theorem headerTimestamps_spec {numbers : List ℕ}
    (h : ∀ n ∈ numbers, reader.headerByNumber n = .ok (header n)) :
    ∃ times, headerTimestamps reader numbers = .ok times ∧
      ∀ n ∈ numbers, times.find? n = (header n).map ExecHeader.timestamp := by
  obtain ⟨times, htimes, hfind⟩ := foldlM_insertTimestamp h .empty
  refine ⟨times, htimes, fun n hn => ?_⟩
  rw [hfind, if_pos hn]
  exact Option.or_none

/-- The reads for the ends of a page return when those of its headers do. -/
theorem endTimes_spec {ends : List (Option ℕ)}
    (h : ∀ n, some n ∈ ends → reader.headerByNumber n = .ok (header n)) :
    ∃ times, endTimes reader ends = .ok times ∧
      ∀ n, some n ∈ ends → times.find? n = (header n).map ExecHeader.timestamp := by
  have hmem : ∀ n, n ∈ ends.filterMap id ↔ some n ∈ ends := fun n => by simp
  simp only [← hmem] at h ⊢
  obtain ⟨times, htimes, hfind⟩ := headerTimestamps_spec h
  refine ⟨times, ?_, hfind⟩
  rw [endTimes]
  generalize ends.filterMap id = blocks at htimes
  cases blocks with
  | nil => cases htimes; rfl
  | cons n blocks => exact liftNode_eq_ok_iff.mpr htimes

end Times

end ExplorerIndexer
