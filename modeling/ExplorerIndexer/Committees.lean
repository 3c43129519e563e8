import ExplorerIndexer.ClosesEpoch

/-!
# The committee of an epoch

The detail routes of an epoch show the addresses of its committee. They are read from the registry
at the block that seated it: the closing block of the epoch before, which the record of that epoch
names, or genesis. There the registry is at the epoch that was asked for; when it is not, nothing is
shown rather than a neighbour.

Records are written while epochs end, and a chain that starts from genesis holds a seeded record of
epoch `0` that names genesis. The node may not have executed the closing block of a record that is
already there.

## Main definitions

* `committeeAddresses` — the function of the source
* `SeatedChain` — the outputs, the closing blocks and the registry of a network
* `recordSystem` — the store, with records that name closing blocks
* `CommitteeReads.Honest`, `CommitteeReads.Serves` — what the node answers

## Main results

* `committeeAddresses_sound`, `isSome_committeeAddresses` — what is shown, and when
* `committee_of_epoch` — both detail routes show the committee of their epoch or none, and what was
  shown once stays
-/

namespace ExplorerIndexer

/-! ### The functions of the source -/

/-- The registry at a header: its current epoch, and the addresses of the committee. -/
structure EpochState where
  epoch : ℕ
  validators : List Address
  deriving DecidableEq, Repr

/-- The reads of the node that a committee takes. -/
structure CommitteeReads where
  sealedHeaderByHash : B256 → Except Report (Option ExecHeader)
  sealedHeaderByNumber : ℕ → Except Report (Option ExecHeader)
  epochStateAtHeader : ExecHeader → Except Report EpochState

/-- The block that seated the committee of an epoch, by its hash, or genesis. -/
def committeePin (recordByEpoch : ℕ → Option EpochRecord) (epoch : ℕ) : Option (Option B256) :=
  if epoch = 0 then some none
  else (recordByEpoch (epoch - 1)).map fun record => some record.finalState.hash

/-- The committee of an epoch at a pin: none when the node lacks the block, or when the registry is
at another epoch there. -/
def committeeAtPin (env : CommitteeReads) (pin : Option B256) (epoch : ℕ) :
    Except Report (Option (List Address)) := do
  match ← pin.elim (env.sealedHeaderByNumber 0) env.sealedHeaderByHash with
  | none => return none
  | some header =>
    let state ← env.epochStateAtHeader header
    if state.epoch ≠ epoch then return none
    return some state.validators

/-- The addresses of the committee of an epoch. Any failure leaves them out. -/
def committeeAddresses (env : CommitteeReads) (recordByEpoch : ℕ → Option EpochRecord)
    (epoch : ℕ) : Option (List Address) := do
  let pin ← committeePin recordByEpoch epoch
  (committeeAtPin env pin epoch).toOption.join

/-! ### The network -/

/-- A network: its outputs, its blocks, the registry after each of them, and the closing block of
each epoch. The registry enters the next epoch at the closing block. -/
structure SeatedChain extends OutputChain where
  header : ℕ → ExecHeader
  hash : ℕ → B256
  registry : ℕ → EpochState
  closing : ℕ → ℕ
  registry_genesis : (registry 0).epoch = 0
  registry_closing : ∀ e, (registry (closing e)).epoch = e + 1

namespace SeatedChain

variable (chain : SeatedChain)

/-- The block that seats the committee of an epoch. -/
def seat : ℕ → ℕ
  | 0 => 0
  | e + 1 => chain.closing e

/-- The committee of an epoch, as seated. -/
def committee (e : ℕ) : List Address := (chain.registry (chain.seat e)).validators

end SeatedChain

/-- A label that writes a record names the closing block of its epoch. -/
def StoreLabel.NamesClosing (chain : SeatedChain) : StoreLabel → Prop
  | .writeRecord record => record.finalState.hash = chain.hash (chain.closing record.epoch)
  | _ => True

instance (chain : SeatedChain) (label : StoreLabel) : Decidable (label.NamesClosing chain) := by
  cases label <;> unfold StoreLabel.NamesClosing <;> infer_instance

/-- Runs of the store in which records name closing blocks. A seeded record names genesis. -/
def recordSystem (chain : SeatedChain) : TransitionSystem ConsensusStore StoreLabel where
  init s := (storeSystem chain.toOutputChain).init s ∧
    ∀ e record, s.records e = some record → record.finalState.hash = chain.hash 0
  step s label := if label.NamesClosing chain then s.step chain.toOutputChain label else none

/-- What the node reads is right. It may fail, and lack blocks. -/
structure CommitteeReads.Honest (env : CommitteeReads) (chain : SeatedChain) : Prop where
  byHash : ∀ n header, env.sealedHeaderByHash (chain.hash n) = .ok (some header) →
    header = chain.header n
  genesis : ∀ header, env.sealedHeaderByNumber 0 = .ok (some header) → header = chain.header 0
  state : ∀ n state, env.epochStateAtHeader (chain.header n) = .ok state →
    state = chain.registry n

/-- A node that has executed the blocks up to `tip`, and reads without failing. -/
structure CommitteeReads.Serves (env : CommitteeReads) (chain : SeatedChain) (tip : ℕ) : Prop where
  byHash : ∀ n, env.sealedHeaderByHash (chain.hash n) =
    .ok (if n ≤ tip then some (chain.header n) else none)
  genesis : env.sealedHeaderByNumber 0 = .ok (some (chain.header 0))
  state : ∀ n ≤ tip, env.epochStateAtHeader (chain.header n) = .ok (chain.registry n)

/-! ### The records -/

section Records

variable {chain : SeatedChain} {s t : ConsensusStore} {label : StoreLabel}

/-- A record is the seeded one, which names genesis, or it names the closing block of its epoch. -/
def RecordsSeat (chain : SeatedChain) (s : ConsensusStore) : Prop :=
  ∀ e record, s.records e = some record →
    e = 0 ∧ record.finalConsensus.number = 0 ∧ record.finalState.hash = chain.hash 0 ∨
      1 ≤ record.finalConsensus.number ∧ record.finalState.hash = chain.hash (chain.closing e)

/-- The record of an epoch is there, and it is not the seeded one. -/
def Recorded (e : ℕ) (s : ConsensusStore) : Prop :=
  ∃ record, s.records e = some record ∧ 1 ≤ record.finalConsensus.number

/-- A step writes at most one record, and that names the closing block of its epoch. -/
theorem records_of_step (h : (recordSystem chain).step s label = some t) :
    t.records = s.records ∨ ∃ record, 1 ≤ record.finalConsensus.number ∧
      record.finalState.hash = chain.hash (chain.closing record.epoch) ∧
      t.records = fun e => if e = record.epoch then some record else s.records e := by
  simp only [recordSystem] at h
  split at h
  · next hnames =>
    cases label with
    | save =>
      rw [ConsensusStore.step] at h
      split at h
      · cases h
        exact .inl rfl
      · cases h
    | acknowledge =>
      cases h
      exact .inl rfl
    | writeRecord record =>
      rw [ConsensusStore.step] at h
      split at h
      · next hguard =>
        obtain ⟨hpos, -, -, hnumber⟩ := hguard
        cases h
        exact .inr ⟨record, hnumber ▸ hpos, hnames, rfl⟩
      · cases h
  · cases h

theorem RecordsSeat.step (hs : RecordsSeat chain s)
    (h : (recordSystem chain).step s label = some t) : RecordsSeat chain t := by
  rcases records_of_step h with heq | ⟨written, hpos, hclosing, heq⟩
  · intro e record hrecord
    exact hs e record (heq ▸ hrecord)
  · intro e record hrecord
    rw [heq] at hrecord
    dsimp only at hrecord
    split at hrecord
    · next hepoch =>
      cases hrecord
      exact .inr ⟨hpos, hepoch ▸ hclosing⟩
    · exact hs e record hrecord

theorem recordsSeat_of_reachable (hs : (recordSystem chain).Reachable s) : RecordsSeat chain s := by
  induction hs with
  | init h =>
    obtain ⟨hinit, hgenesis⟩ := h
    intro e record hrecord
    obtain ⟨hzero, hnumber⟩ := hinit.2.2 e record hrecord
    exact .inl ⟨hzero, hnumber, hgenesis e record hrecord⟩
  | step _ h ih => exact ih.step h

/-- A record that is there stays, or is written again. -/
theorem Recorded.step {e : ℕ} (hs : Recorded e s)
    (h : (recordSystem chain).step s label = some t) : Recorded e t := by
  obtain ⟨record, hrecord, hnumber⟩ := hs
  rcases records_of_step h with heq | ⟨written, hpos, -, heq⟩
  · exact ⟨record, heq ▸ hrecord, hnumber⟩
  · by_cases hepoch : e = written.epoch
    · exact ⟨written, by rw [heq]; exact if_pos hepoch, hpos⟩
    · exact ⟨record, by rw [heq]; exact (if_neg hepoch).trans hrecord, hnumber⟩

theorem Recorded.run {e : ℕ} (hs : Recorded e s) {labels : List StoreLabel}
    (h : (recordSystem chain).run s labels = some t) : Recorded e t :=
  (recordSystem chain).run_invariant (fun _ _ _ hs h => hs.step h) h hs

end Records

/-! ### What is shown -/

section Shown

variable {chain : SeatedChain} {s t : ConsensusStore} {env : CommitteeReads} {tip e : ℕ}
  {addresses : List Address}

theorem committeeAddresses_eq_some {records : ℕ → Option EpochRecord} :
    committeeAddresses env records e = some addresses ↔
      ∃ pin, committeePin records e = some pin ∧
        committeeAtPin env pin e = .ok (some addresses) := by
  rw [committeeAddresses]
  refine Option.bind_eq_some_iff.trans (exists_congr fun pin => and_congr_right fun _ => ?_)
  cases hread : committeeAtPin env pin e with
  | error report => simp [Except.toOption]
  | ok committee => cases committee <;> simp [Except.toOption]

/-- A committee at a pin is that of a header at the epoch that was asked for. -/
theorem committeeAtPin_eq_some {pin : Option B256} :
    committeeAtPin env pin e = .ok (some addresses) ↔ ∃ header state,
      pin.elim (env.sealedHeaderByNumber 0) env.sealedHeaderByHash = .ok (some header) ∧
        env.epochStateAtHeader header = .ok state ∧ state.epoch = e ∧
        state.validators = addresses := by
  rw [committeeAtPin, Fetch.bind_eq_ok_iff]
  constructor
  · rintro ⟨header?, hheader, h⟩
    cases header? with
    | none => cases h
    | some header =>
      obtain ⟨state, hstate, h⟩ := Fetch.bind_eq_ok_iff.mp h
      split at h
      · cases h
      · next hepoch =>
        cases h
        exact ⟨header, state, hheader, hstate, not_not.mp hepoch, rfl⟩
  · rintro ⟨header, state, hheader, hstate, hepoch, rfl⟩
    refine ⟨some header, hheader, Fetch.bind_eq_ok_iff.mpr ⟨state, hstate, ?_⟩⟩
    rw [if_neg (not_not.mpr hepoch)]
    rfl

/-- **What is shown is the committee of the epoch**, and never that of a neighbour. -/
theorem committeeAddresses_sound (hs : RecordsSeat chain s) (henv : env.Honest chain)
    (h : committeeAddresses env s.records e = some addresses) : addresses = chain.committee e := by
  obtain ⟨pin, hpin, h⟩ := committeeAddresses_eq_some.mp h
  obtain ⟨header, state, hheader, hstate, hepoch, rfl⟩ := committeeAtPin_eq_some.mp h
  -- whichever block is read, the registry is at the epoch there
  have hread : ∀ n, header = chain.header n → state = chain.registry n := fun n heq =>
    henv.state n state (heq ▸ hstate)
  cases e with
  | zero =>
    cases hpin
    rw [hread 0 (henv.genesis header hheader)]
    rfl
  | succ e =>
    obtain ⟨record, hrecord, rfl⟩ := Option.map_eq_some_iff.mp hpin
    rcases hs e record hrecord with ⟨rfl, -, hgenesis⟩ | ⟨-, hclosing⟩
    · -- the seeded record: genesis is still at epoch `0`
      have hzero := hread 0 (henv.byHash 0 header (hgenesis ▸ hheader))
      rw [hzero, chain.registry_genesis] at hepoch
      cases hepoch
    · rw [hread (chain.closing e) (henv.byHash _ header (hclosing ▸ hheader))]
      rfl

/-- **When it is shown**: once the record of the epoch before is there, the seeded one apart, and
the node has executed the block that it names. -/
theorem isSome_committeeAddresses (hs : RecordsSeat chain s) (henv : env.Serves chain tip) :
    (committeeAddresses env s.records e).isSome = true ↔
      (e = 0 ∨ Recorded (e - 1) s) ∧ chain.seat e ≤ tip := by
  rw [Option.isSome_iff_exists]
  cases e with
  | zero =>
    refine iff_of_true ⟨chain.committee 0, ?_⟩ ⟨.inl rfl, Nat.zero_le _⟩
    exact committeeAddresses_eq_some.mpr ⟨none, rfl, committeeAtPin_eq_some.mpr
      ⟨chain.header 0, chain.registry 0, henv.genesis, henv.state 0 (Nat.zero_le _),
        chain.registry_genesis, rfl⟩⟩
  | succ e =>
    constructor
    · rintro ⟨addresses, h⟩
      obtain ⟨pin, hpin, h⟩ := committeeAddresses_eq_some.mp h
      obtain ⟨header, state, hheader, hstate, hepoch, -⟩ := committeeAtPin_eq_some.mp h
      obtain ⟨record, hrecord, rfl⟩ := Option.map_eq_some_iff.mp hpin
      have hheader : env.sealedHeaderByHash record.finalState.hash = .ok (some header) := hheader
      rcases hs e record hrecord with ⟨rfl, -, hgenesis⟩ | ⟨hpos, hclosing⟩
      · rw [hgenesis, henv.byHash, if_pos (Nat.zero_le tip)] at hheader
        cases hheader
        rw [henv.state 0 (Nat.zero_le tip)] at hstate
        cases hstate
        rw [chain.registry_genesis] at hepoch
        cases hepoch
      · rw [hclosing, henv.byHash] at hheader
        split at hheader
        · next hle => exact ⟨.inr ⟨record, hrecord, hpos⟩, hle⟩
        · cases hheader
    · rintro ⟨hrecorded, hle⟩
      obtain ⟨record, hrecord, hpos⟩ := hrecorded.resolve_left (Nat.succ_ne_zero e)
      have hclosing : record.finalState.hash = chain.hash (chain.closing e) := by
        rcases hs e record hrecord with ⟨-, hzero, -⟩ | ⟨-, hclosing⟩
        · omega
        · exact hclosing
      have hle : chain.closing e ≤ tip := hle
      have hread := henv.byHash (chain.closing e)
      rw [if_pos hle] at hread
      refine ⟨chain.committee (e + 1), committeeAddresses_eq_some.mpr
        ⟨some record.finalState.hash, ?_, committeeAtPin_eq_some.mpr
          ⟨chain.header (chain.closing e), chain.registry (chain.closing e), ?_,
            henv.state _ hle, chain.registry_closing e, rfl⟩⟩⟩
      · exact Option.map_eq_some_iff.mpr ⟨record, hrecord, rfl⟩
      · rw [hclosing]
        exact hread

end Shown

/-! ### The detail routes -/

section Routes

variable {bs58Of : B256 → String} {reader : EpochReader} {view : ℕ → EpochDb} {current n : ℕ}
  {raw : String} {shown shown' : Option (List String)}

/-- One of the two detail routes of an epoch answers, with this committee. -/
inductive DetailShows (bs58Of : B256 → String) (reader : EpochReader) (view : ℕ → EpochDb)
    (current : ℕ) (raw : String) : Option (List String) → Prop where
  | epoch {item : ApiEpoch} (h : Api.epochByNumber bs58Of reader view current raw = .ok item) :
      DetailShows bs58Of reader view current raw item.committeeAddresses
  | consensusEpoch {item : ApiConsensusEpoch}
      (h : Api.consensusEpoch bs58Of reader view current raw = .ok item) :
      DetailShows bs58Of reader view current raw item.committeeAddresses

/-- Both routes show what the node reads of the epoch. -/
theorem DetailShows.eq (h : DetailShows bs58Of reader view current raw shown)
    (hcurrent : current < 2 ^ 32) (hraw : parseNumber raw "epoch number" = .ok n) :
    shown = (reader.committeeAddresses n).map (List.map addrHex) := by
  cases h with
  | epoch h =>
    obtain ⟨number, hnumber, h⟩ := Fetch.bind_eq_ok_iff.mp h
    cases hraw.symm.trans hnumber
    split at h
    · cases h
    · next hle =>
      obtain ⟨row, -, h⟩ := Fetch.bind_eq_ok_iff.mp h
      obtain ⟨times, -, h⟩ := Fetch.bind_eq_ok_iff.mp h
      cases h
      dsimp only
      rw [epochU32_eq (by omega)]
  | consensusEpoch h =>
    obtain ⟨number, hnumber, h⟩ := Fetch.bind_eq_ok_iff.mp h
    cases hraw.symm.trans hnumber
    split at h
    · cases h
    · next hle =>
      obtain ⟨row, hrow, h⟩ := Fetch.bind_eq_ok_iff.mp h
      obtain ⟨times, -, h⟩ := Fetch.bind_eq_ok_iff.mp h
      cases h
      rw [epochU32_eq (by omega)] at hrow
      obtain ⟨certificate, -, hrow⟩ := Fetch.bind_eq_ok_iff.mp hrow
      cases hrow
      rfl

variable {chain : SeatedChain} {s t : ConsensusStore} {env env' : CommitteeReads}
  {reader' : EpochReader} {view' : ℕ → EpochDb} {current' : ℕ}

/-- **The detail routes show the committee of their epoch or none, and what was shown once stays.**
In every reachable state of the store, seeded or not, while the node reads what is right or fails:
the addresses are those of the committee of the epoch, as it was seated, or they are left out. When
nothing fails they are there once the real record of the epoch before is and the node has executed
its closing block; and then every later answer of either route has the same ones. -/
theorem committee_of_epoch (hs : (recordSystem chain).Reachable s) {labels : List StoreLabel}
    (hrun : (recordSystem chain).run s labels = some t)
    (hreader : reader.committeeAddresses = committeeAddresses env s.records)
    (hreader' : reader'.committeeAddresses = committeeAddresses env' t.records)
    (hcurrent : current < 2 ^ 32) (hcurrent' : current' < 2 ^ 32)
    (hraw : parseNumber raw "epoch number" = .ok n)
    (hshown : DetailShows bs58Of reader view current raw shown)
    (hshown' : DetailShows bs58Of reader' view' current' raw shown') (henv : env.Honest chain)
    (henv' : env'.Honest chain) :
    (shown = none ∨ shown = some ((chain.committee n).map addrHex)) ∧
    ∀ tip, env.Serves chain tip →
      (shown.isSome = true ↔ (n = 0 ∨ Recorded (n - 1) s) ∧ chain.seat n ≤ tip) ∧
      ∀ tip', tip ≤ tip' → env'.Serves chain tip' → shown.isSome = true → shown' = shown := by
  have hseat := recordsSeat_of_reachable hs
  have hseat' := recordsSeat_of_reachable (hs.trans_run hrun)
  rw [hshown.eq hcurrent hraw, hshown'.eq hcurrent' hraw, hreader, hreader']
  refine ⟨?_, fun tip hserves => ?_⟩
  · cases hread : committeeAddresses env s.records n with
    | none => exact .inl rfl
    | some addresses =>
      rw [committeeAddresses_sound hseat henv hread]
      exact .inr rfl
  · have hsome := isSome_committeeAddresses (e := n) hseat hserves
    rw [Option.isSome_map]
    refine ⟨hsome, fun tip' htip hserves' h => ?_⟩
    obtain ⟨hrecorded, hle⟩ := hsome.mp h
    obtain ⟨addresses, hread⟩ := Option.isSome_iff_exists.mp h
    obtain ⟨addresses', hread'⟩ := Option.isSome_iff_exists.mp
      ((isSome_committeeAddresses hseat' hserves').mpr
        ⟨hrecorded.imp_right fun h => h.run hrun, hle.trans htip⟩)
    rw [hread, hread', committeeAddresses_sound hseat henv hread,
      committeeAddresses_sound hseat' henv' hread']

end Routes

/-! ### The end of epoch `0` -/

/-- The network of the two outputs. Epoch `e` is closed by block `e + 4`. -/
def twoSeatedChain : SeatedChain where
  __ := twoOutputChain
  header n := (steadyChain.block n).header
  hash n := BitVec.ofNat 256 (min n (2 ^ 64))
  registry n := ⟨n - 3, [BitVec.ofNat 160 (n - 3)]⟩
  closing e := e + 4
  registry_genesis := rfl
  registry_closing _ := rfl

theorem toNat_hash_twoSeatedChain (n : ℕ) :
    (twoSeatedChain.hash n).toNat = min n (2 ^ 64) := by
  simp only [twoSeatedChain, BitVec.toNat_ofNat]
  omega

/-- A node of that network. -/
def seatedNode (tip : ℕ) : CommitteeReads where
  sealedHeaderByHash hash := .ok <|
    if hash.toNat ≤ tip then some (twoSeatedChain.header hash.toNat) else none
  sealedHeaderByNumber _ := .ok (some (twoSeatedChain.header 0))
  epochStateAtHeader header := .ok (twoSeatedChain.registry header.number)

theorem serves_seatedNode {tip : ℕ} (h : tip < 2 ^ 64) :
    (seatedNode tip).Serves twoSeatedChain tip where
  byHash n := by
    simp only [seatedNode, toNat_hash_twoSeatedChain]
    by_cases hle : n ≤ tip
    · rw [if_pos (by omega), if_pos hle, Nat.min_eq_left (by omega)]
    · rw [if_neg (by omega), if_neg hle]
  genesis := rfl
  state _ _ := rfl

theorem honest_seatedNode {tip : ℕ} (h : tip < 2 ^ 64) :
    (seatedNode tip).Honest twoSeatedChain where
  byHash n header hread := by
    rw [(serves_seatedNode h).byHash] at hread
    split at hread
    · cases hread
      rfl
    · cases hread
  genesis header hread := by
    cases hread
    rfl
  state n state hread := by
    cases hread
    rfl

/-- The record of epoch `0`, with its closing block. -/
def closingRecord : EpochRecord :=
  { zeroRecord 2 with finalState := ⟨4, twoSeatedChain.hash 4⟩ }

/-- The store when the seeded record is replaced. -/
def closedStore : ConsensusStore :=
  { savedStore with
    records := fun e => if e = 0 then some closingRecord else savedStore.records e }

/-- The epoch database of a store. -/
def storeDb (s : ConsensusStore) : EpochDb where
  getEpochByNumber e := (s.records e).map fun record => (record, none)
  getCommitteeKeys _ := none

/-- A reader of the epochs, with the committees of a node and a store. -/
def committeeReader (tip : ℕ) (s : ConsensusStore) : EpochReader where
  headerByNumber _ := .ok none
  verifyEpochCertificate _ _ := .ok true
  committeeAddresses := committeeAddresses (seatedNode tip) s.records
  epochPackComplete _ := true
  epochLastCommitted _ := none
  epochFinalReputation _ := none

theorem reachable_closedStore : (recordSystem twoSeatedChain).Reachable savedStore ∧
    (recordSystem twoSeatedChain).run savedStore [.writeRecord closingRecord] =
      some closedStore := by
  have hinit : (recordSystem twoSeatedChain).init seededStore := by
    refine ⟨init_seededStore, fun e record h => ?_⟩
    simp only [seededStore] at h
    split at h
    · cases h
      rfl
    · cases h
  have hrun : (recordSystem twoSeatedChain).run seededStore saveTwo = some savedStore := rfl
  exact ⟨.trans_run (.init hinit) hrun, rfl⟩

/-- While the record is the seeded one the committee of epoch `1` is left out. With the real one it
is shown, and later answers have the same. -/
theorem committee_of_epoch_first :
    committeeAddresses (seatedNode 9) savedStore.records 1 = none ∧
    ∃ item, Api.epochByNumber (fun _ => "") (committeeReader 9 closedStore)
        (fun _ => storeDb closedStore) 1 "1" = .ok item ∧
      item.committeeAddresses = some [addrHex 1] ∧
      ∀ shown, DetailShows (fun _ => "") (committeeReader 12 closedStore)
        (fun _ => storeDb closedStore) 1 "1" shown → shown = some [addrHex 1] := by
  obtain ⟨hsaved, hwrite⟩ := reachable_closedStore
  have hitem : (Api.epochByNumber (fun _ => "") (committeeReader 9 closedStore)
      (fun _ => storeDb closedStore) 1 "1").map ApiEpoch.committeeAddresses =
        .ok (some [addrHex 1]) := by decide +kernel
  obtain ⟨item, hitem, haddresses⟩ := Fetch.map_eq_ok_iff.mp hitem
  refine ⟨by decide +kernel, item, hitem, haddresses, fun shown hshown => ?_⟩
  have hstays := (committee_of_epoch (hsaved.trans_run hwrite)
    (show (recordSystem twoSeatedChain).run closedStore [] = some closedStore from rfl) rfl rfl
    (show 1 < 2 ^ 32 by decide) (show 1 < 2 ^ 32 by decide)
    (show parseNumber "1" "epoch number" = .ok 1 by decide +kernel) (.epoch hitem) hshown
    (@honest_seatedNode 9 (by decide)) (@honest_seatedNode 12 (by decide))).2 9
    (serves_seatedNode (by decide))
  rw [haddresses] at hstays
  exact hstays.2 12 (by decide) (serves_seatedNode (by decide)) rfl

end ExplorerIndexer
