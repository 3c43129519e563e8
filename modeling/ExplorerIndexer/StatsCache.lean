import ExplorerIndexer.Library.Transition

/-!
# The cache of `/stats`

`/stats` answers from a cache for five seconds. A request that finds no fresh entry reads the node,
reads the committee, and overwrites the cache with what it read. Between these there are awaits:
requests run concurrently, the node executes blocks, and a slow request may write an entry that is
older than the one it replaces.

A snapshot of the node is one closure, but it reads the tip first and the transaction total last, so
these are two steps here. The instant that an entry is stamped with is taken before the write lock
is awaited. Gas prices stay in wei: the division by `10 ^ 9` is floating-point.

## Main definitions

* `StatsStage.step` — the steps of one request
* `statsSystem` — any number of requests, block executions and the clock, in any interleaving
* `KeepsNewer` — a step does not replace an entry by an older one

## Main results

* `StatsStage.effect_of_step` — where the numbers of a stage come from
* `StatsWorld.step_cases` — what a step of the service can do
* `stats_monotone` — while newer entries are kept, a later answer is never older
* `stats_goes_back` — otherwise it can be
-/

namespace ExplorerIndexer

/-- How long an entry is fresh: five seconds, in nanoseconds. -/
def STATS_TTL : ℕ := 5000000000

/-! ### One request -/

/-- What `/stats` reads of the node. -/
structure StatsNode where
  lastBlockNumber : ℕ
  totalTransactions : ℕ
  gasPrice : ℕ
  chainId : ℕ
  latestConsensusEpoch : ℕ
  /-- `get_committee_keys`: the size of the committee of an epoch, if a record seats it. -/
  committeeKeys : ℕ → Option ℕ
  /-- The number of validators of the registry. -/
  registryValidators : ℕ

/-- The reads of one closure. -/
structure StatsSnapshot where
  latestBlock : ℕ
  gasPriceWei : ℕ
  chainId : ℕ
  totalTxs : ℕ
  deriving DecidableEq, Repr

/-- The answer of `/stats`. -/
structure ApiStats where
  latestBlock : ℕ
  gasPriceWei : ℕ
  chainId : ℕ
  epochNumber : Option ℕ
  validatorCount : ℕ
  totalTxs : ℕ
  deriving DecidableEq, Repr

/-- The answer from a snapshot, an epoch and the size of its committee. -/
def apiStats (snapshot : StatsSnapshot) (epoch validatorCount : ℕ) : ApiStats where
  latestBlock := snapshot.latestBlock
  gasPriceWei := snapshot.gasPriceWei
  chainId := snapshot.chainId
  epochNumber := some epoch
  validatorCount
  totalTxs := snapshot.totalTxs

/-- The cache: when it was refreshed, and with what. -/
abbrev StatsCache := Option (ℕ × ApiStats)

/-- Where a request stands. -/
inductive StatsStage where
  | started
  /-- The cache has no fresh entry. -/
  | missed
  /-- The closure has read the tip. -/
  | tipRead (latestBlock : ℕ)
  | snapped (snapshot : StatsSnapshot)
  /-- The committee of the epoch is awaited. -/
  | epochRead (snapshot : StatsSnapshot) (epoch : ℕ)
  /-- No record seats the committee: the registry is awaited. -/
  | fallback (snapshot : StatsSnapshot) (epoch : ℕ)
  | counted (stats : ApiStats)
  /-- The instant is taken, and the write lock is awaited. -/
  | stamped (now : ℕ) (stats : ApiStats)
  | answering (stats : ApiStats)
  /-- The response is complete. -/
  | complete (stats : ApiStats)
  /-- An await returned an error, or the client went away. -/
  | failed
  deriving DecidableEq, Repr

/-- A step of a request. -/
inductive StatsAction where
  | checkCache
  | readTip
  | readTotals
  | readEpoch
  | readCommittee
  | readRegistry
  | stamp
  | write
  | respond
  | fail
  deriving DecidableEq, Repr

/-- One step of the handler, on the node, the clock and the cache as they are. -/
def StatsStage.step (node : StatsNode) (clock : ℕ) (cache : StatsCache) :
    StatsStage → StatsAction → Option (StatsCache × StatsStage)
  | .started, .checkCache =>
    match cache with
    | some (refreshedAt, cached) =>
      some (cache, if clock - refreshedAt < STATS_TTL then .answering cached else .missed)
    | none => some (cache, .missed)
  | .missed, .readTip => some (cache, .tipRead node.lastBlockNumber)
  | .tipRead latestBlock, .readTotals =>
    some (cache, .snapped ⟨latestBlock, node.gasPrice, node.chainId, node.totalTransactions⟩)
  | .snapped snapshot, .readEpoch => some (cache, .epochRead snapshot node.latestConsensusEpoch)
  | .epochRead snapshot epoch, .readCommittee =>
    match node.committeeKeys epoch with
    | some keys => some (cache, .counted (apiStats snapshot epoch keys))
    | none => some (cache, .fallback snapshot epoch)
  | .fallback snapshot epoch, .readRegistry =>
    some (cache, .counted (apiStats snapshot epoch node.registryValidators))
  | .counted stats, .stamp => some (cache, .stamped clock stats)
  | .stamped now stats, .write => some (some (now, stats), .answering stats)
  | .answering stats, .respond => some (cache, .complete stats)
  | .complete _, .fail | .failed, .fail => none
  | _, .fail => some (cache, .failed)
  | _, _ => none

/-- The tip a request has in hand. -/
def StatsStage.latestBlock? : StatsStage → Option ℕ
  | .started | .missed | .failed => none
  | .tipRead latestBlock => some latestBlock
  | .snapped snapshot | .epochRead snapshot _ | .fallback snapshot _ => some snapshot.latestBlock
  | .counted stats | .stamped _ stats | .answering stats | .complete stats =>
    some stats.latestBlock

/-- The transaction total a request has in hand. -/
def StatsStage.totalTxs? : StatsStage → Option ℕ
  | .started | .missed | .failed | .tipRead _ => none
  | .snapped snapshot | .epochRead snapshot _ | .fallback snapshot _ => some snapshot.totalTxs
  | .counted stats | .stamped _ stats | .answering stats | .complete stats => some stats.totalTxs

/-- The answer of a request, once it is decided. -/
def StatsStage.answer? : StatsStage → Option ApiStats
  | .answering stats | .complete stats => some stats
  | _ => none

/-- What a step of a request can do. -/
structure StatsStage.Effect (node : StatsNode) (cache : StatsCache) (stage : StatsStage)
    (action : StatsAction) (cache' : StatsCache) (stage' : StatsStage) : Prop where
  /-- The cache is written from a stamped stage only. -/
  written : cache' = cache ∨
    ∃ now stats, stage = .stamped now stats ∧ action = .write ∧ cache' = some (now, stats)
  /-- The tip in hand was in hand, or is the node's, or is the cached one. -/
  latestBlock : ∀ block ∈ stage'.latestBlock?, block ∈ stage.latestBlock? ∨
    block = node.lastBlockNumber ∨ ∃ entry ∈ cache, block = entry.2.latestBlock
  /-- So is the transaction total. -/
  totalTxs : ∀ total ∈ stage'.totalTxs?, total ∈ stage.totalTxs? ∨
    total = node.totalTransactions ∨ ∃ entry ∈ cache, total = entry.2.totalTxs
  /-- An answer that is decided is the cached entry. -/
  answer : ∀ stats ∈ stage'.answer?,
    stats ∈ stage.answer? ∧ cache' = cache ∨ ∃ now, cache' = some (now, stats)

/-- A stage without numbers in hand. -/
theorem StatsStage.Effect.of_none {node : StatsNode} {cache : StatsCache}
    {stage stage' : StatsStage} {action : StatsAction} (hblock : stage'.latestBlock? = none)
    (htotal : stage'.totalTxs? = none) (hanswer : stage'.answer? = none) :
    StatsStage.Effect node cache stage action cache stage' where
  written := Or.inl rfl
  latestBlock := by simp [hblock]
  totalTxs := by simp [htotal]
  answer := by simp [hanswer]

/-- A stage with the numbers of the one before. -/
theorem StatsStage.Effect.of_same {node : StatsNode} {cache : StatsCache}
    {stage stage' : StatsStage} {action : StatsAction}
    (hblock : stage'.latestBlock? = stage.latestBlock?)
    (htotal : stage'.totalTxs? = stage.totalTxs?)
    (hanswer : stage'.answer? = none ∨ stage'.answer? = stage.answer?) :
    StatsStage.Effect node cache stage action cache stage' where
  written := Or.inl rfl
  latestBlock block h := Or.inl (hblock ▸ h)
  totalTxs total h := Or.inl (htotal ▸ h)
  answer stats h := by
    rcases hanswer with hnone | hsame
    · rw [hnone] at h
      cases h
    · exact Or.inl ⟨hsame ▸ h, rfl⟩

/-- **Where the numbers of a stage come from.** -/
theorem StatsStage.effect_of_step {node : StatsNode} {clock : ℕ} {cache cache' : StatsCache}
    {stage stage' : StatsStage} {action : StatsAction}
    (h : stage.step node clock cache action = some (cache', stage')) :
    StatsStage.Effect node cache stage action cache' stage' := by
  unfold StatsStage.step at h
  split at h
  -- the cache check
  · split at h
    · next refreshedAt cached =>
      split at h <;> cases h
      · refine ⟨Or.inl rfl, ?_, ?_, ?_⟩
        · rintro _ ⟨⟩
          exact Or.inr (Or.inr ⟨_, rfl, rfl⟩)
        · rintro _ ⟨⟩
          exact Or.inr (Or.inr ⟨_, rfl, rfl⟩)
        · rintro _ ⟨⟩
          exact Or.inr ⟨refreshedAt, rfl⟩
      · exact .of_none rfl rfl rfl
    · cases h
      exact .of_none rfl rfl rfl
  -- the two reads of the snapshot
  · cases h
    refine ⟨Or.inl rfl, ?_, ?_, ?_⟩
    · rintro _ ⟨⟩
      exact Or.inr (Or.inl rfl)
    · rintro _ ⟨⟩
    · rintro _ ⟨⟩
  · cases h
    refine ⟨Or.inl rfl, fun _ hblock => Or.inl hblock, ?_, ?_⟩
    · rintro _ ⟨⟩
      exact Or.inr (Or.inl rfl)
    · rintro _ ⟨⟩
  -- the epoch, its committee and the instant
  · cases h
    exact .of_same rfl rfl (Or.inl rfl)
  · split at h <;> cases h <;> exact .of_same rfl rfl (Or.inl rfl)
  · cases h
    exact .of_same rfl rfl (Or.inl rfl)
  · cases h
    exact .of_same rfl rfl (Or.inl rfl)
  -- the write
  · next now stats =>
    cases h
    refine ⟨Or.inr ⟨now, stats, rfl, rfl, rfl⟩, fun _ hblock => Or.inl hblock,
      fun _ htotal => Or.inl htotal, ?_⟩
    rintro _ ⟨⟩
    exact Or.inr ⟨now, rfl⟩
  -- the response
  · cases h
    exact .of_same rfl rfl (Or.inr rfl)
  · cases h
  · cases h
  · cases h
    exact .of_none rfl rfl rfl
  · cases h

/-- The tip and the total in hand satisfy two predicates. -/
def StatsStage.Holds (P Q : ℕ → Prop) (stage : StatsStage) : Prop :=
  (∀ block ∈ stage.latestBlock?, P block) ∧ ∀ total ∈ stage.totalTxs?, Q total

theorem StatsStage.holds_started (P Q : ℕ → Prop) : StatsStage.started.Holds P Q := by
  constructor <;> rintro _ ⟨⟩

/-- What holds of the numbers of a stage, of the node and of the cache holds after a step. -/
theorem StatsStage.Effect.holds {node : StatsNode} {cache cache' : StatsCache}
    {stage stage' : StatsStage} {action : StatsAction} {P Q : ℕ → Prop}
    (h : StatsStage.Effect node cache stage action cache' stage') (hstage : stage.Holds P Q)
    (hnode : P node.lastBlockNumber ∧ Q node.totalTransactions)
    (hcache : ∀ entry ∈ cache, P entry.2.latestBlock ∧ Q entry.2.totalTxs) :
    stage'.Holds P Q := by
  refine ⟨fun block hblock => ?_, fun total htotal => ?_⟩
  · rcases h.latestBlock block hblock with hsame | rfl | ⟨entry, hentry, rfl⟩
    · exact hstage.1 block hsame
    · exact hnode.1
    · exact (hcache entry hentry).1
  · rcases h.totalTxs total htotal with hsame | rfl | ⟨entry, hentry, rfl⟩
    · exact hstage.2 total hsame
    · exact hnode.2
    · exact (hcache entry hentry).2

/-! ### Any number of requests -/

/-- The node, the clock, the cache and the requests in the order they came. -/
structure StatsWorld where
  node : StatsNode
  clock : ℕ
  cache : StatsCache
  requests : List StatsStage

/-- Blocks are executed or the consensus advances; time passes; a request comes; the request
number `k` takes a step. -/
inductive StatsLabel where
  | advance (node : StatsNode)
  | tick (elapsed : ℕ)
  | request
  | step (k : ℕ) (action : StatsAction)

/-- One node is not behind another: its tip and its transaction total only grow. -/
def StatsNode.Grows (node node' : StatsNode) : Prop :=
  node.lastBlockNumber ≤ node'.lastBlockNumber ∧
    node.totalTransactions ≤ node'.totalTransactions

instance (node node' : StatsNode) : Decidable (node.Grows node') :=
  inferInstanceAs (Decidable (_ ∧ _))

/-- Requests, block executions and the clock interleave in any order. -/
def StatsWorld.step (s : StatsWorld) : StatsLabel → Option StatsWorld
  | .advance node => if s.node.Grows node then some { s with node } else none
  | .tick elapsed => some { s with clock := s.clock + elapsed }
  | .request => some { s with requests := s.requests ++ [.started] }
  | .step k action => do
    let stage ← s.requests[k]?
    let (cache, stage) ← stage.step s.node s.clock s.cache action
    some { s with cache, requests := s.requests.set k stage }

/-- Runs of the service. The cache starts empty. -/
def statsSystem : TransitionSystem StatsWorld StatsLabel where
  init s := s.cache = none ∧ s.requests = []
  step := StatsWorld.step

/-- One answer is not newer than another. -/
def ApiStats.NotNewer (old new : ApiStats) : Prop :=
  old.latestBlock ≤ new.latestBlock ∧ old.totalTxs ≤ new.totalTxs

instance (old new : ApiStats) : Decidable (old.NotNewer new) :=
  inferInstanceAs (Decidable (_ ∧ _))

theorem ApiStats.NotNewer.refl (a : ApiStats) : a.NotNewer a := ⟨Nat.le_refl _, Nat.le_refl _⟩

theorem ApiStats.NotNewer.trans {a b c : ApiStats} (h : a.NotNewer b) (h' : b.NotNewer c) :
    a.NotNewer c :=
  ⟨Nat.le_trans h.1 h'.1, Nat.le_trans h.2 h'.2⟩

/-- The entry that a step would replace, and the one it would write. -/
def StatsWorld.overwrites (s : StatsWorld) : StatsLabel → Option (ApiStats × ApiStats)
  | .step k .write =>
    match s.requests[k]?, s.cache with
    | some (.stamped _ stats), some (_, cached) => some (cached, stats)
    | _, _ => none
  | _ => none

/-- A step does not replace an entry by an older one. -/
def KeepsNewer (s : StatsWorld) (label : StatsLabel) : Prop :=
  ∀ entries ∈ s.overwrites label, entries.1.NotNewer entries.2

instance (s : StatsWorld) (label : StatsLabel) : Decidable (KeepsNewer s label) :=
  inferInstanceAs (Decidable (∀ entries ∈ s.overwrites label, entries.1.NotNewer entries.2))

section Runs

variable {s t : StatsWorld} {label : StatsLabel}

/-- **What a step of the service can do.** -/
theorem StatsWorld.step_cases (h : s.step label = some t) :
    (∃ node, label = .advance node ∧ s.node.Grows node ∧ t = { s with node }) ∨
    (∃ elapsed, label = .tick elapsed ∧ t = { s with clock := s.clock + elapsed }) ∨
    (label = .request ∧ t = { s with requests := s.requests ++ [.started] }) ∨
    ∃ k action stage cache stage', label = .step k action ∧ s.requests[k]? = some stage ∧
      StatsStage.Effect s.node s.cache stage action cache stage' ∧
      t = { s with cache, requests := s.requests.set k stage' } := by
  cases label with
  | advance node =>
    rw [StatsWorld.step] at h
    split at h
    · next hgrows => exact Or.inl ⟨node, rfl, hgrows, (Option.some.inj h).symm⟩
    · cases h
  | tick elapsed => exact Or.inr (Or.inl ⟨elapsed, rfl, (Option.some.inj h).symm⟩)
  | request => exact Or.inr (Or.inr (Or.inl ⟨rfl, (Option.some.inj h).symm⟩))
  | step k action =>
    obtain ⟨stage, hstage, h⟩ := Option.bind_eq_some_iff.mp h
    obtain ⟨⟨cache, stage'⟩, hrun, h⟩ := Option.bind_eq_some_iff.mp h
    exact Or.inr (Or.inr (Or.inr ⟨k, action, stage, cache, stage', rfl, hstage,
      StatsStage.effect_of_step hrun, (Option.some.inj h).symm⟩))

/-- The cache a request leaves is not older than the one it found. -/
theorem cache_of_keepsNewer {k : ℕ} {action : StatsAction} {stage stage' : StatsStage}
    {cache : StatsCache} (hkeeps : KeepsNewer s (.step k action))
    (hstage : s.requests[k]? = some stage)
    (heffect : StatsStage.Effect s.node s.cache stage action cache stage') :
    ∀ entry ∈ s.cache, ∃ entry' ∈ cache, entry.2.NotNewer entry'.2 := by
  intro entry hentry
  rcases heffect.written with rfl | ⟨now, stats, rfl, rfl, rfl⟩
  · exact ⟨entry, hentry, .refl _⟩
  · refine ⟨(now, stats), rfl, hkeeps (entry.2, stats) ?_⟩
    rw [StatsWorld.overwrites, hstage, show s.cache = some entry from hentry]
    rfl

/-- Nothing is ahead of the node, and the cache is not behind an answer. -/
structure StatsInvariant (s : StatsWorld) : Prop where
  cache_le : ∀ entry ∈ s.cache, entry.2.latestBlock ≤ s.node.lastBlockNumber ∧
    entry.2.totalTxs ≤ s.node.totalTransactions
  stage_le : ∀ stage ∈ s.requests,
    stage.Holds (· ≤ s.node.lastBlockNumber) (· ≤ s.node.totalTransactions)
  answered : ∀ stage ∈ s.requests, ∀ stats ∈ stage.answer?,
    ∃ entry ∈ s.cache, stats.NotNewer entry.2

theorem StatsInvariant.of_init (h : statsSystem.init s) : StatsInvariant s := by
  obtain ⟨hcache, hrequests⟩ := h
  refine ⟨?_, ?_, ?_⟩
  · rw [hcache]
    rintro _ ⟨⟩
  · rw [hrequests]
    exact List.forall_mem_nil _
  · rw [hrequests]
    exact List.forall_mem_nil _

theorem StatsInvariant.advanced (h : StatsInvariant s) {node : StatsNode}
    (hgrows : s.node.Grows node) : StatsInvariant { s with node } where
  cache_le entry hentry :=
    ⟨Nat.le_trans (h.cache_le entry hentry).1 hgrows.1,
      Nat.le_trans (h.cache_le entry hentry).2 hgrows.2⟩
  stage_le stage hstage :=
    ⟨fun block hblock => Nat.le_trans ((h.stage_le stage hstage).1 block hblock) hgrows.1,
      fun total htotal => Nat.le_trans ((h.stage_le stage hstage).2 total htotal) hgrows.2⟩
  answered := h.answered

theorem StatsInvariant.requested (h : StatsInvariant s) :
    StatsInvariant { s with requests := s.requests ++ [.started] } where
  cache_le := h.cache_le
  stage_le := List.forall_mem_append.mpr ⟨h.stage_le,
    List.forall_mem_singleton.mpr (StatsStage.holds_started _ _)⟩
  answered := List.forall_mem_append.mpr ⟨h.answered, by simp [StatsStage.answer?]⟩

theorem StatsInvariant.stepped (h : StatsInvariant s) {k : ℕ} {action : StatsAction}
    {stage stage' : StatsStage} {cache : StatsCache} (hkeeps : KeepsNewer s (.step k action))
    (hstage : s.requests[k]? = some stage)
    (heffect : StatsStage.Effect s.node s.cache stage action cache stage') :
    StatsInvariant { s with cache, requests := s.requests.set k stage' } := by
  have hmem := List.mem_of_getElem? hstage
  have hkept : ∀ stats : ApiStats, (∃ entry ∈ s.cache, stats.NotNewer entry.2) →
      ∃ entry ∈ cache, stats.NotNewer entry.2 := by
    rintro stats ⟨entry, hentry, hle⟩
    obtain ⟨entry', hentry', hle'⟩ := cache_of_keepsNewer hkeeps hstage heffect entry hentry
    exact ⟨entry', hentry', hle.trans hle'⟩
  refine ⟨?_, fun other hother => ?_, fun other hother stats hstats => ?_⟩
  · rcases heffect.written with rfl | ⟨now, stats, rfl, -, rfl⟩
    · exact h.cache_le
    · rintro _ ⟨⟩
      exact ⟨(h.stage_le _ hmem).1 _ rfl, (h.stage_le _ hmem).2 _ rfl⟩
  · rcases List.mem_or_eq_of_mem_set hother with hother | rfl
    · exact h.stage_le other hother
    · exact heffect.holds (h.stage_le stage hmem) ⟨Nat.le_refl _, Nat.le_refl _⟩ h.cache_le
  · rcases List.mem_or_eq_of_mem_set hother with hother | rfl
    · exact hkept stats (h.answered other hother stats hstats)
    · rcases heffect.answer stats hstats with ⟨hsame, -⟩ | ⟨now, rfl⟩
      · exact hkept stats (h.answered stage hmem stats hsame)
      · exact ⟨(now, stats), rfl, .refl _⟩

theorem StatsInvariant.step (h : StatsInvariant s) (hkeeps : KeepsNewer s label)
    (hstep : s.step label = some t) : StatsInvariant t := by
  obtain ⟨node, rfl, hgrows, rfl⟩ | ⟨elapsed, rfl, rfl⟩ | ⟨rfl, rfl⟩ |
    ⟨k, action, stage, cache, stage', rfl, hstage, heffect, rfl⟩ := StatsWorld.step_cases hstep
  · exact h.advanced hgrows
  · exact ⟨h.cache_le, h.stage_le, h.answered⟩
  · exact h.requested
  · exact h.stepped hkeeps hstage heffect

/-- Nothing that the requests from number `n` on may use is older than `first`. -/
structure Floor (first : ApiStats) (n : ℕ) (s : StatsWorld) : Prop where
  node : first.latestBlock ≤ s.node.lastBlockNumber ∧
    first.totalTxs ≤ s.node.totalTransactions
  cache : ∃ entry ∈ s.cache, first.NotNewer entry.2
  stage : ∀ k stage, n ≤ k → s.requests[k]? = some stage →
    stage.Holds (first.latestBlock ≤ ·) (first.totalTxs ≤ ·)

/-- A complete answer is a floor for the requests to come. -/
theorem StatsInvariant.floor (h : StatsInvariant s) {i : ℕ} {first : ApiStats}
    (hfirst : s.requests[i]? = some (.complete first)) :
    Floor first s.requests.length s where
  node := by
    have hle := h.stage_le _ (List.mem_of_getElem? hfirst)
    exact ⟨hle.1 _ rfl, hle.2 _ rfl⟩
  cache := h.answered _ (List.mem_of_getElem? hfirst) first rfl
  stage k stage hk hstage := by
    rw [List.getElem?_eq_none hk] at hstage
    cases hstage

theorem Floor.stepped {first : ApiStats} {n : ℕ} (h : Floor first n s) {k : ℕ}
    {action : StatsAction} {stage stage' : StatsStage} {cache : StatsCache}
    (hkeeps : KeepsNewer s (.step k action)) (hstage : s.requests[k]? = some stage)
    (heffect : StatsStage.Effect s.node s.cache stage action cache stage') :
    Floor first n { s with cache, requests := s.requests.set k stage' } := by
  obtain ⟨entry, hentry, hle⟩ := h.cache
  have hcached : ∀ other ∈ s.cache, first.NotNewer other.2 := by
    intro other hother
    obtain rfl : entry = other := Option.mem_unique hentry hother
    exact hle
  refine ⟨h.node, ?_, fun k' other hk' hother => ?_⟩
  · obtain ⟨entry', hentry', hle'⟩ := cache_of_keepsNewer hkeeps hstage heffect entry hentry
    exact ⟨entry', hentry', hle.trans hle'⟩
  · by_cases hkk : k = k'
    · subst hkk
      obtain rfl : stage' = other := by
        rw [List.getElem?_set_self (List.getElem?_eq_some_iff.mp hstage).1] at hother
        exact Option.some.inj hother
      exact heffect.holds (h.stage k stage hk' hstage) h.node hcached
    · rw [List.getElem?_set_ne hkk] at hother
      exact h.stage k' other hk' hother

theorem Floor.requested {first : ApiStats} {n : ℕ} (h : Floor first n s) :
    Floor first n { s with requests := s.requests ++ [.started] } := by
  refine ⟨h.node, h.cache, fun k stage hk hstage => ?_⟩
  rcases Nat.lt_or_ge k s.requests.length with hlt | hge
  · rw [List.getElem?_append_left hlt] at hstage
    exact h.stage k stage hk hstage
  · rw [List.getElem?_append_right hge] at hstage
    rw [List.mem_singleton.mp (List.mem_of_getElem? hstage)]
    exact StatsStage.holds_started _ _

theorem Floor.step {first : ApiStats} {n : ℕ} (h : Floor first n s)
    (hkeeps : KeepsNewer s label) (hstep : s.step label = some t) : Floor first n t := by
  obtain ⟨node, rfl, hgrows, rfl⟩ | ⟨elapsed, rfl, rfl⟩ | ⟨rfl, rfl⟩ |
    ⟨k, action, stage, cache, stage', rfl, hstage, heffect, rfl⟩ := StatsWorld.step_cases hstep
  · exact ⟨⟨Nat.le_trans h.node.1 hgrows.1, Nat.le_trans h.node.2 hgrows.2⟩, h.cache, h.stage⟩
  · exact ⟨h.node, h.cache, h.stage⟩
  · exact h.requested
  · exact h.stepped hkeeps hstage heffect

/-- **While newer entries are kept, a later answer is never older.** In every run in which no write
replaces an entry by an older one: when a response is complete before another request comes, the
later response has no smaller tip and no smaller transaction total. -/
theorem stats_monotone {init : StatsWorld} {before after : List StatsLabel}
    (hinit : statsSystem.init init) (hbefore : statsSystem.run init before = some s)
    (hafter : statsSystem.run s after = some t)
    (hkeeps : statsSystem.AllSteps KeepsNewer init before)
    (hkeeps' : statsSystem.AllSteps KeepsNewer s after) {i j : ℕ} {first later : ApiStats}
    (hfirst : s.requests[i]? = some (.complete first)) (hnew : s.requests[j]? = none)
    (hlater : t.requests[j]? = some (.complete later)) :
    first.latestBlock ≤ later.latestBlock ∧ first.totalTxs ≤ later.totalTxs := by
  have hinv : StatsInvariant s := hkeeps.invariant
    (fun _ _ _ h hkeeps hstep => h.step hkeeps hstep) hbefore (.of_init hinit)
  have hfloor : Floor first s.requests.length t := hkeeps'.invariant
    (fun _ _ _ h hkeeps hstep => h.step hkeeps hstep) hafter (hinv.floor hfirst)
  have hholds := hfloor.stage j _ (List.getElem?_eq_none_iff.mp hnew) hlater
  exact ⟨hholds.1 _ rfl, hholds.2 _ rfl⟩

end Runs

/-! ### A slow refresh -/

/-- A node at block `n` with ten transactions in each block. -/
def busyNode (n : ℕ) : StatsNode := ⟨n, 10 * n, 7, 2017, 1, fun _ => some 4, 4⟩

/-- Before the first request. -/
def quietWorld : StatsWorld := ⟨busyNode 5, 0, none, []⟩

/-- The steps of a request that reads the node and its committee. -/
def refresh (k : ℕ) : List StatsLabel :=
  [.step k .checkCache, .step k .readTip, .step k .readTotals, .step k .readEpoch]

/-- The rest of its steps. -/
def publish (k : ℕ) : List StatsLabel :=
  [.step k .readCommittee, .step k .stamp, .step k .write, .step k .respond]

/-- The first request reads the node and waits for its committee; a block is executed; the second
request refreshes the cache and is answered. -/
def overtaken : List StatsLabel :=
  [.request] ++ refresh 0 ++ [.advance (busyNode 6), .request] ++ refresh 1 ++ publish 1

/-- Then the first request publishes what it has, and a third one is answered from the cache. -/
def overwritten : List StatsLabel :=
  publish 0 ++ [.request, .step 2 .checkCache, .step 2 .respond]

/-- **An answer can go back in time.** The second response shows block 6. It is complete before the
third request comes, which is shown block 5. -/
theorem stats_goes_back :
    (∃ s t, statsSystem.run quietWorld overtaken = some s ∧
      statsSystem.run s overwritten = some t ∧
      s.requests[1]? = some (.complete ⟨6, 7, 2017, some 1, 4, 60⟩) ∧ s.requests[2]? = none ∧
      t.requests[2]? = some (.complete ⟨5, 7, 2017, some 1, 4, 50⟩)) ∧
    ¬ ∀ (init s t : StatsWorld) (before after : List StatsLabel) (i j : ℕ)
        (first later : ApiStats), statsSystem.init init →
      statsSystem.run init before = some s → statsSystem.run s after = some t →
      s.requests[i]? = some (.complete first) → s.requests[j]? = none →
      t.requests[j]? = some (.complete later) →
      first.latestBlock ≤ later.latestBlock ∧ first.totalTxs ≤ later.totalTxs := by
  have hrun : ∃ s t, statsSystem.run quietWorld overtaken = some s ∧
      statsSystem.run s overwritten = some t ∧
      s.requests[1]? = some (.complete ⟨6, 7, 2017, some 1, 4, 60⟩) ∧ s.requests[2]? = none ∧
      t.requests[2]? = some (.complete ⟨5, 7, 2017, some 1, 4, 50⟩) :=
    ⟨_, _, rfl, rfl, rfl, rfl, rfl⟩
  refine ⟨hrun, fun hall => ?_⟩
  obtain ⟨s, t, hbefore, hafter, hfirst, hnew, hlater⟩ := hrun
  have hle := (hall quietWorld s t overtaken overwritten 1 2 _ _ ⟨rfl, rfl⟩ hbefore hafter hfirst
    hnew hlater).1
  exact absurd hle (by decide)

/-- After one request, answered at block 5. -/
def answeredWorld : StatsWorld where
  node := busyNode 5
  clock := 0
  cache := some (0, ⟨5, 7, 2017, some 1, 4, 50⟩)
  requests := [.complete ⟨5, 7, 2017, some 1, 4, 50⟩]

/-- A block later the entry has expired, and the next request reads the node. -/
theorem stats_monotone_two : ∃ t later,
    statsSystem.run answeredWorld ([.advance (busyNode 6), .tick STATS_TTL, .request] ++
      refresh 1 ++ publish 1) = some t ∧ t.requests[1]? = some (.complete later) ∧
    5 ≤ later.latestBlock ∧ 50 ≤ later.totalTxs := by
  obtain ⟨t, hafter, hlater⟩ : ∃ t,
      statsSystem.run answeredWorld ([.advance (busyNode 6), .tick STATS_TTL, .request] ++
        refresh 1 ++ publish 1) = some t ∧
      t.requests[1]? = some (.complete ⟨6, 7, 2017, some 1, 4, 60⟩) := ⟨_, rfl, rfl⟩
  have hbefore : statsSystem.run quietWorld ([.request] ++ refresh 0 ++ publish 0) =
      some answeredWorld := rfl
  exact ⟨t, _, hafter, hlater, stats_monotone (i := 0) (j := 1) ⟨rfl, rfl⟩ hbefore hafter
    (by decide) (by decide) rfl rfl hlater⟩

end ExplorerIndexer
