import ExplorerIndexer.ConsensusOutputs
import ExplorerIndexer.Library.Transition

/-!
# Whether an output closes its epoch

`/consensus/blocks/{number}` compares the number with the record of the epoch: the record names the
last output. The record is written after that output is saved and before the first output of the
next epoch is, and a chain that starts from genesis holds a seeded record of epoch `0`, with the
number `0`, until the real one replaces it.

Outputs are numbered from `1`. A request reads the counter of the acknowledged outputs first and the
record last, so the record may be from a later state of the store.

## Main definitions

* `OutputChain` — the epochs of the outputs
* `storeSystem` — how the outputs and the records are stored
* `RightAnswer` — an answer that is not wrong

## Main results

* `StoreInvariant.step` — each record is the seeded one or names the last output of its epoch
* `closesEpoch_right_iff` — the answer is wrong exactly when the output is the last of epoch `0` and
  its record is still the seeded one
* `closesEpoch_wrong` — which happens
-/

namespace ExplorerIndexer

/-! ### The outputs -/

/-- The epochs of the outputs. -/
structure OutputChain where
  epoch : ℕ → ℕ
  /-- An output is of the epoch of the one before or of the next one. -/
  epoch_succ : ∀ n, epoch (n + 1) = epoch n ∨ epoch (n + 1) = epoch n + 1

/-- No later output is of the same epoch. -/
def OutputChain.IsLast (chain : OutputChain) (n : ℕ) : Prop :=
  ∀ m, n < m → chain.epoch m ≠ chain.epoch n

theorem OutputChain.epoch_mono (chain : OutputChain) : Monotone chain.epoch :=
  monotone_nat_of_le_succ fun n => by
    rcases chain.epoch_succ n with h | h <;> omega

/-- An output is the last of its epoch when the next one is of another. -/
theorem OutputChain.isLast_iff (chain : OutputChain) {n : ℕ} :
    chain.IsLast n ↔ chain.epoch (n + 1) ≠ chain.epoch n := by
  constructor
  · exact fun h => h (n + 1) (Nat.lt_succ_self n)
  · intro h m hm
    have hle := chain.epoch_mono hm
    rcases chain.epoch_succ n with hsame | hnext
    · exact absurd hsame h
    · rw [Nat.succ_eq_add_one, hnext] at hle
      omega

/-- An epoch has one last output. -/
theorem OutputChain.IsLast.eq {chain : OutputChain} {n m : ℕ} (hn : chain.IsLast n)
    (hm : chain.IsLast m) (h : chain.epoch n = chain.epoch m) : n = m := by
  rcases Nat.lt_trichotomy n m with hlt | heq | hgt
  · exact absurd h.symm (hn m hlt)
  · exact heq
  · exact absurd h (hm n hgt)

/-! ### The store -/

/-- The stored outputs and records. -/
structure ConsensusStore where
  /-- The number of the newest output in the packs. -/
  tail : ℕ
  /-- `latest_consensus_number`: the newest acknowledged output. -/
  latest : ℕ
  records : ℕ → Option EpochRecord

/-- The record of epoch `0` is the seeded one. -/
def ConsensusStore.Seeded (s : ConsensusStore) : Prop :=
  ∃ record, s.records 0 = some record ∧ record.finalConsensus.number = 0

/-- What happens to the store. -/
inductive StoreLabel where
  /-- The next output is written to its pack. -/
  | save
  /-- The write is acknowledged. -/
  | acknowledge
  | writeRecord (record : EpochRecord)

/-- An output of a new epoch is saved after the record of the old one is written; a record is
written when the last output of its epoch is saved. -/
def ConsensusStore.step (chain : OutputChain) (s : ConsensusStore) :
    StoreLabel → Option ConsensusStore
  | .save =>
    let recorded := (s.records (chain.epoch s.tail)).map fun record => record.finalConsensus.number
    if s.latest = s.tail ∧ (s.tail = 0 ∨ chain.epoch (s.tail + 1) = chain.epoch s.tail ∨
        recorded = some s.tail) then
      some { s with tail := s.tail + 1 }
    else none
  | .acknowledge => some { s with latest := s.tail }
  | .writeRecord record =>
    if 1 ≤ s.tail ∧ chain.epoch (s.tail + 1) ≠ chain.epoch s.tail ∧
        record.epoch = chain.epoch s.tail ∧ record.finalConsensus.number = s.tail then
      some { s with records := fun e => if e = record.epoch then some record else s.records e }
    else none

/-- Runs of the store. It starts without outputs, and without records or with the seeded one. -/
def storeSystem (chain : OutputChain) : TransitionSystem ConsensusStore StoreLabel where
  init s := s.tail = 0 ∧ s.latest = 0 ∧
    ∀ e record, s.records e = some record → e = 0 ∧ record.finalConsensus.number = 0
  step := ConsensusStore.step chain

/-! ### The answers -/

/-- An answer that is not wrong. -/
def RightAnswer (chain : OutputChain) (number : ℕ) : Option Bool → Prop
  | some true => chain.IsLast number
  | some false => ¬ chain.IsLast number
  | none => True

/-! ### What the records say -/

section Store

variable {chain : OutputChain} {s t : ConsensusStore} {label : StoreLabel}

/-- A record is the seeded one, or it names the last output of its epoch. -/
def StoreInvariant (chain : OutputChain) (s : ConsensusStore) : Prop :=
  ∀ e record, s.records e = some record → e = 0 ∧ record.finalConsensus.number = 0 ∨
    1 ≤ record.finalConsensus.number ∧ chain.epoch record.finalConsensus.number = e ∧
      chain.IsLast record.finalConsensus.number

theorem StoreInvariant.of_init (h : (storeSystem chain).init s) : StoreInvariant chain s :=
  fun e record hrecord => Or.inl (h.2.2 e record hrecord)

theorem StoreInvariant.step (h : StoreInvariant chain s) (hstep : s.step chain label = some t) :
    StoreInvariant chain t := by
  cases label with
  | save =>
    rw [ConsensusStore.step] at hstep
    split at hstep
    · cases hstep
      exact h
    · cases hstep
  | acknowledge =>
    cases hstep
    exact h
  | writeRecord record =>
    rw [ConsensusStore.step] at hstep
    split at hstep
    · next hguard =>
      obtain ⟨hpos, hnext, hepoch, hnumber⟩ := hguard
      cases hstep
      intro e other hother
      dsimp only at hother
      split at hother
      · next heq =>
        cases hother
        rw [hnumber, heq]
        exact Or.inr ⟨hpos, hepoch.symm, chain.isLast_iff.mpr hnext⟩
      · exact h e other hother
    · cases hstep

theorem StoreInvariant.of_reachable (h : (storeSystem chain).Reachable s) :
    StoreInvariant chain s := by
  induction h with
  | init h => exact .of_init h
  | step _ hstep ih => exact ih.step hstep

/-- **An answer is wrong exactly when the output is the last of epoch `0` and its record is still
the seeded one.** -/
theorem StoreInvariant.rightAnswer_iff (h : StoreInvariant chain s) {number : ℕ}
    (hpos : 1 ≤ number) :
    RightAnswer chain number ((s.records (chain.epoch number)).map
      fun record => decide (record.finalConsensus.number = number)) ↔
      ¬ (s.Seeded ∧ chain.epoch number = 0 ∧ chain.IsLast number) := by
  cases hrecord : s.records (chain.epoch number) with
  | none =>
    refine iff_of_true trivial ?_
    rintro ⟨⟨record, hseeded, -⟩, hzero, -⟩
    rw [hzero, hseeded] at hrecord
    cases hrecord
  | some record =>
    rcases h _ record hrecord with ⟨hzero, hnumber⟩ | ⟨hone, hepoch, hlast⟩
    · -- the seeded record: the answer is `false`
      have hseeded : s.Seeded := ⟨record, hzero ▸ hrecord, hnumber⟩
      have hne : record.finalConsensus.number ≠ number := by omega
      simp [RightAnswer, hne, hseeded, hzero]
    · refine iff_of_true ?_ ?_
      · by_cases heq : record.finalConsensus.number = number
        · simpa [RightAnswer, heq] using heq ▸ hlast
        · simp only [Option.map_some, heq, decide_false, RightAnswer]
          exact fun hother => heq (hlast.eq hother hepoch)
      · rintro ⟨⟨seeded, hseeded, hnumber⟩, hzero, -⟩
        rw [hzero, hseeded] at hrecord
        cases hrecord
        omega

/-- **The answer is right unless the output is the last of epoch `0` and its record is still the
seeded one.** For every reachable state and every later one: when the number is served from the
former and the record is read from the latter. -/
theorem closesEpoch_right_iff {later : List StoreLabel} (hs : (storeSystem chain).Reachable s)
    (hlater : (storeSystem chain).run s later = some t)
    {outputByNumber : ℕ → Except Report (Option FullOutput)}
    (hread : ∀ number output, outputByNumber number = .ok (some output) →
      output.subDag.leader.epoch = chain.epoch number)
    {epochs : ℕ → EpochDb} (hrecords : (epochs 0).recordByEpoch = t.records) {codec : Codec}
    {views : ℕ → Db} {raw : String} {number : ℕ} {block : ApiConsensusBlock}
    (hnumber : parseNumber raw "consensus block number" = .ok number)
    (h : Api.consensusBlock codec outputByNumber views s.latest epochs raw = .ok block) :
    RightAnswer chain number block.closesEpoch ↔
      ¬ (t.Seeded ∧ chain.epoch number = 0 ∧ chain.IsLast number) := by
  obtain ⟨hstored, output, houtput, hanswer⟩ := consensusBlock_ok hnumber h
  have hpos : 1 ≤ number := by
    simp only [consensusNumberStored, Bool.and_eq_true, decide_eq_true_eq] at hstored
    omega
  rw [hanswer, hread number output houtput, hrecords]
  exact (StoreInvariant.of_reachable (hs.trans_run hlater)).rightAnswer_iff hpos

end Store

/-- Two outputs in epoch `0`, and all others in epoch `1`. -/
def twoOutputChain : OutputChain where
  epoch n := if n ≤ 2 then 0 else 1
  epoch_succ n := by
    rcases Nat.lt_trichotomy n 2 with h | rfl | h
    · exact Or.inl (by rw [if_pos (by omega), if_pos (by omega)])
    · exact Or.inr rfl
    · exact Or.inl (by rw [if_neg (by omega), if_neg (by omega)])

/-- A record of epoch `0` that names an output. -/
def zeroRecord (number : ℕ) : EpochRecord where
  epoch := 0
  committee := []
  nextCommittee := []
  parentHash := 0
  finalState := ⟨0, 0⟩
  finalConsensus := ⟨number, 0⟩
  digest := 0
  superQuorum := 1

/-- A store with the seeded record. -/
def seededStore : ConsensusStore := ⟨0, 0, fun e => if e = 0 then some (zeroRecord 0) else none⟩

/-- A primary header without batches, of the epoch of an output. -/
def emptyPrimary (number : ℕ) : Header where
  digest := number
  author := 0
  round := number
  epoch := twoOutputChain.epoch number
  createdAt := 0
  parents := []
  payload := []
  latestExecutionBlock := ⟨0, 0⟩

/-- An output without batches. -/
def emptyOutput (number : ℕ) : FullOutput where
  consensusHeaderHash := number
  batches := []
  flattenBatches := []
  batchDigests := []
  closeEpoch := false
  number
  parentHash := 0
  extra := 0
  subDag :=
    { headers := [emptyPrimary number]
      leader := emptyPrimary number
      getLast?_headers := rfl
      commitTimestamp := 0
      numPrimaryBatches := 0
      randomness := 0
      reputationScores := ⟨[], false⟩ }

/-- The records of a store without their certificates, and no keys. -/
def recordsOnly (records : ℕ → Option EpochRecord) : EpochDb where
  getEpochByNumber e := (records e).map fun record => (record, none)
  getCommitteeKeys _ := none

theorem recordByEpoch_recordsOnly (records : ℕ → Option EpochRecord) :
    (recordsOnly records).recordByEpoch = records := by
  funext e
  show ((records e).map fun record => (record, none)).map Prod.fst = records e
  cases records e <;> rfl

/-- The two outputs of epoch `0` are saved and acknowledged. -/
def saveTwo : List StoreLabel := [.save, .acknowledge, .save, .acknowledge]

/-- The request for the second output, with the records of a store. -/
def secondOutput (latest : ℕ) (records : ℕ → Option EpochRecord) :
    Except ApiError ApiConsensusBlock :=
  Api.consensusBlock ⟨fun _ => "", fun _ => "", fun _ => 0, fun _ => 0⟩
    (fun number => .ok (some (emptyOutput number))) (fun _ => freshDb 0) latest
    (fun _ => recordsOnly records) "2"

theorem init_seededStore : (storeSystem twoOutputChain).init seededStore := by
  refine ⟨rfl, rfl, fun e record h => ?_⟩
  simp only [seededStore] at h
  split at h
  · next hzero =>
    cases h
    exact ⟨hzero, rfl⟩
  · cases h

/-- Then the store still holds the seeded record. -/
def savedStore : ConsensusStore := { seededStore with tail := 2, latest := 2 }

/-- Until the real one is written. -/
def recordedStore : ConsensusStore :=
  { savedStore with
    records := fun e => if e = 0 then some (zeroRecord 2) else savedStore.records e }

theorem run_saveTwo : (storeSystem twoOutputChain).run seededStore saveTwo = some savedStore := rfl

theorem reachable_savedStore : (storeSystem twoOutputChain).Reachable savedStore :=
  .trans_run (.init init_seededStore) run_saveTwo

/-- **The last output of epoch `0` is said not to close it**, until the seeded record is
replaced. -/
theorem closesEpoch_wrong : (storeSystem twoOutputChain).Reachable savedStore ∧
    twoOutputChain.IsLast 2 ∧ ∃ block,
      secondOutput savedStore.latest savedStore.records = .ok block ∧
      block.closesEpoch = some false ∧ ¬ RightAnswer twoOutputChain 2 block.closesEpoch := by
  have hlast : twoOutputChain.IsLast 2 := twoOutputChain.isLast_iff.mpr (by decide)
  have hanswer : (secondOutput savedStore.latest savedStore.records).map
      ApiConsensusBlock.closesEpoch = .ok (some false) := by decide +kernel
  obtain ⟨block, hblock, hcloses⟩ := Fetch.map_eq_ok_iff.mp hanswer
  refine ⟨reachable_savedStore, hlast, block, hblock, hcloses, ?_⟩
  rw [hcloses]
  exact not_not.mpr hlast

/-- The record is written between the two reads of a request: the answer is right. -/
theorem closesEpoch_right_written : ∃ block,
    secondOutput savedStore.latest recordedStore.records = .ok block ∧
      block.closesEpoch = some true ∧ RightAnswer twoOutputChain 2 block.closesEpoch := by
  have hwrite : (storeSystem twoOutputChain).run savedStore [.writeRecord (zeroRecord 2)] =
      some recordedStore := rfl
  have hnumber : parseNumber "2" "consensus block number" = .ok 2 := by decide +kernel
  have hanswer : (secondOutput savedStore.latest recordedStore.records).map
      ApiConsensusBlock.closesEpoch = .ok (some true) := by decide +kernel
  obtain ⟨block, hblock, hcloses⟩ := Fetch.map_eq_ok_iff.mp hanswer
  have hread : ∀ number output, Except.ok (some (emptyOutput number)) =
      (Except.ok (some output) : Except Report (Option FullOutput)) →
      output.subDag.leader.epoch = twoOutputChain.epoch number := fun number output h => by
    cases h
    rfl
  have hnot : ¬ recordedStore.Seeded := by
    rintro ⟨record, hrecord, hzero⟩
    cases hrecord
    cases hzero
  exact ⟨block, hblock, hcloses, (closesEpoch_right_iff reachable_savedStore hwrite hread
    (recordByEpoch_recordsOnly _) hnumber hblock).mpr fun h => hnot h.1⟩

end ExplorerIndexer
