import ExplorerIndexer.Epochs
import ExplorerIndexer.Library.Tiling
import Mathlib.Data.Nat.SuccPred

/-!
# The ranges of the epochs

The rows of `/consensus/epochs` and of `/epochs` give each epoch a range of execution blocks, and
those of the former a range of consensus outputs. When the database holds the record of every epoch
below the current one, the ranges tile the blocks from `0` on and the outputs from `1` on. The
record of the current epoch may appear at any read: no row shows it.

## Main definitions

* `HoldsRecords`, `RecordsAscend` — what is assumed of the records
* `TilesFrom` — closed ranges and an open one that cover every number once
* `EpochSummary` — what both feeds say of an epoch

## Main results

* `tilesFrom_epochRange` — the ranges between ascending numbers tile
* `consensusEpoch_eq`, `epochByNumber_eq` — the detail routes say what the feeds say
* `epoch_feeds_tile` — the feeds list every epoch once, with ranges that tile, and agree
* `epoch_feeds_overlap` — an epoch that ends with the largest block number
-/

namespace ExplorerIndexer

/-! ### Ranges that tile -/

/-- A number lies in a range. -/
instance : Membership ℕ ApiRange where
  mem r n := ∃ first, r.first = some first ∧ first ≤ n ∧ ∀ last, r.last = some last → n ≤ last

theorem ApiRange.mem_iff {r : ApiRange} {n : ℕ} :
    n ∈ r ↔ ∃ first, r.first = some first ∧ first ≤ n ∧ ∀ last, r.last = some last → n ≤ last :=
  Iff.rfl

/-- The range is closed and not empty. -/
def ApiRange.Closed (range : ApiRange) : Prop :=
  ∃ first last, range = ⟨some first, some last⟩ ∧ first ≤ last

/-- The ranges of the epochs up to the current one tile the numbers from `start` on. Only the range
of epoch `0` may be empty. -/
structure TilesFrom (start current : ℕ) (range : ℕ → ApiRange) : Prop where
  /-- The first range starts at `start`. -/
  start_eq : (range 0).first = some start
  /-- A range below the current one is closed, and after epoch `0` it is not empty. -/
  closed : ∀ e < current, 0 < e → (range e).Closed
  /-- The current one is open. -/
  last_current : ∃ first, range current = ⟨some first, none⟩
  /-- A range starts right after the end of the one before. -/
  adjacent : ∀ e < current, ∃ last,
    (range e).last = some last ∧ (range (e + 1)).first = some (last + 1)
  /-- Each number lies in one range. -/
  covers : ∀ n, start ≤ n → ∃! e, e ≤ current ∧ n ∈ range e

/-- The range of an epoch, from the last numbers of the epochs that are over. -/
def epochRange (start : ℕ) (final : ℕ → ℕ) (current e : ℕ) : ApiRange :=
  ⟨some (Tiling.first start final e), if e = current then none else some (final e)⟩

section Ranges

variable {start : ℕ} {final : ℕ → ℕ} {current : ℕ}

theorem mem_epochRange_iff {e n : ℕ} (he : e ≤ current) :
    n ∈ epochRange start final current e ↔
      Tiling.first start final e ≤ n ∧ (e < current → n ≤ final e) := by
  simp only [ApiRange.mem_iff, epochRange, Option.some.injEq, exists_eq_left']
  refine and_congr_right fun _ => ?_
  rcases Nat.lt_or_eq_of_le he with hlt | rfl
  · simp [hlt, hlt.ne]
  · simp

/-- **The ranges between ascending numbers tile.** -/
theorem tilesFrom_epochRange (h : Tiling.Ascends start final current) :
    TilesFrom start current (epochRange start final current) where
  start_eq := rfl
  closed e he hpos := ⟨_, _, by rw [epochRange, if_neg he.ne], Tiling.first_le_final h hpos he⟩
  last_current := ⟨_, by rw [epochRange, if_pos rfl]⟩
  adjacent e he := ⟨final e, by rw [epochRange, if_neg he.ne], rfl⟩
  covers n hn := by
    obtain ⟨e, he, hunique⟩ := Tiling.existsUnique_covers h hn
    refine ⟨e, ⟨he.1, (mem_epochRange_iff he.1).mpr he.2⟩, fun e' he' => ?_⟩
    exact hunique e' ⟨he'.1, (mem_epochRange_iff he'.1).mp he'.2⟩

/-- The range of epoch `0` is not empty when it ends with the start or later. -/
theorem closed_epochRange_zero (hpos : 0 < current) (h : start ≤ final 0) :
    (epochRange start final current 0).Closed :=
  ⟨_, _, by rw [epochRange, if_neg hpos.ne]; rfl, h⟩

end Ranges

/-! ### The records -/

/-- The database holds the records of the epochs below the current one. Nothing is said of the
record of the current one. -/
def HoldsRecords (records : ℕ → EpochRecord) (current : ℕ) (db : EpochDb) : Prop :=
  ∀ e < current, db.recordByEpoch e = some (records e)

/-- The last block of an epoch that is over. -/
def finalStateOf (records : ℕ → EpochRecord) (e : ℕ) : ℕ := (records e).finalState.number

/-- The last output of an epoch that is over. -/
def finalConsensusOf (records : ℕ → EpochRecord) (e : ℕ) : ℕ := (records e).finalConsensus.number

/-- The execution range of an epoch. -/
def execRangeOf (records : ℕ → EpochRecord) : ℕ → ℕ → ApiRange :=
  epochRange 0 (finalStateOf records)

/-- The consensus range of an epoch. -/
def consensusRangeOf (records : ℕ → EpochRecord) : ℕ → ℕ → ApiRange :=
  epochRange 1 (finalConsensusOf records)

/-- What both feeds say of an epoch. -/
structure EpochSummary where
  epoch : ℕ
  isCurrent : Bool
  execRange : ApiRange
  record : Option ApiEpochRecord
  deriving DecidableEq, Repr

/-- A row of `/epochs`, without what only this feed says. -/
def ApiEpoch.summary (row : ApiEpoch) : EpochSummary :=
  ⟨row.epoch, row.isCurrent, ⟨some row.startBlock, row.endBlock⟩, row.record⟩

/-- A row of `/consensus/epochs`, without what only this feed says. -/
def ApiConsensusEpoch.summary (row : ApiConsensusEpoch) : EpochSummary :=
  ⟨row.epoch, row.isCurrent, row.execRange, row.record⟩

/-- What the records say of an epoch. -/
def summaryOf (bs58Of : B256 → String) (records : ℕ → EpochRecord) (current e : ℕ) :
    EpochSummary :=
  ⟨e, e = current, execRangeOf records current e,
    if e = current then none else some (buildEpochRecord bs58Of (records e))⟩

section Rows

variable {bs58Of : B256 → String} {reader : EpochReader} {records : ℕ → EpochRecord}
  {view : ℕ → EpochDb} {current e : ℕ}

theorem shownRecord_eq (hview : HoldsRecords records current (view 0)) (he : e ≤ current) :
    shownRecord view e current = if e = current then none else some (records e) := by
  rw [shownRecord]
  split
  · rfl
  · next hne => exact hview e (Nat.lt_of_le_of_ne he hne)

/-- The record of the epoch before. -/
theorem epochRecordPair_snd (hview : HoldsRecords records current (view 1)) (he : e ≤ current) :
    (epochRecordPair view e).2 = if e = 0 then none else some (records (e - 1)) := by
  rw [epochRecordPair]
  split
  · rfl
  · next hne => exact hview (e - 1) (by omega)

/-- A range starts one past the number in the record before it, if that is not the largest. -/
theorem first_eq {start : ℕ} {number : EpochRecord → ℕ}
    (hview : HoldsRecords records current (view 1))
    (hlt : ∀ e < current, number (records e) + 1 < 2 ^ 64) (he : e ≤ current) :
    (if e = 0 then some start else
      (epochRecordPair view e).2.map fun previous => saturatingAdd (number previous) 1) =
      some (Tiling.first start (fun e => number (records e)) e) := by
  rw [epochRecordPair_snd hview he]
  cases e with
  | zero => rfl
  | succ e => exact congrArg some (saturatingAdd_eq (hlt e he))

/-- A range ends where the record that is shown says. -/
theorem last_eq {β : Type} {number : EpochRecord → β}
    (hview : HoldsRecords records current (view 0)) (he : e ≤ current) :
    (shownRecord view e current).map number =
      if e = current then none else some (number (records e)) := by
  rw [shownRecord_eq hview he]
  split <;> rfl

/-- **A row of `/consensus/epochs` is what the records say.** -/
theorem consensusEpochRow_eq {detail : Bool} {row : ApiConsensusEpoch}
    (hview : ∀ j, HoldsRecords records current (view j))
    (hstate : ∀ e < current, finalStateOf records e + 1 < 2 ^ 64)
    (hconsensus : ∀ e < current, finalConsensusOf records e + 1 < 2 ^ 64) (he : e ≤ current)
    (h : consensusEpochRow bs58Of reader view e current detail = .ok row) :
    row.summary = summaryOf bs58Of records current e ∧
      row.consensusRange = consensusRangeOf records current e := by
  obtain ⟨hepoch, hcurrent, hcons, hexec, hrecord⟩ := consensusEpochRow_spec h
  rw [first_eq (hview 1) hconsensus he, last_eq (hview 0) he] at hcons
  rw [first_eq (hview 1) hstate he, last_eq (hview 0) he] at hexec
  rw [last_eq (hview 0) he] at hrecord
  refine ⟨?_, hcons⟩
  rw [ApiConsensusEpoch.summary, hepoch, hcurrent, hexec, hrecord]
  rfl

/-- **A row of `/epochs` is what the records say.** -/
theorem epochRow_eq {verify : Bool} {row : ApiEpoch}
    (hview : ∀ j, HoldsRecords records current (view j))
    (hstate : ∀ e < current, finalStateOf records e + 1 < 2 ^ 64) (hlt : e < 2 ^ 32)
    (he : e ≤ current) (h : epochRow bs58Of reader view e current verify = .ok row) :
    row.summary = summaryOf bs58Of records current e := by
  obtain ⟨hepoch, hcurrent, hstart, hend, hrecord⟩ := epochRow_spec hlt h
  have hfirst : row.startBlock = Tiling.first 0 (finalStateOf records) e := by
    rw [hstart, epochRecordPair_snd (hview 1) he]
    cases e with
    | zero => rfl
    | succ e => exact saturatingAdd_eq (hstate e he)
  rw [last_eq (hview 0) he] at hend
  rw [last_eq (hview 0) he] at hrecord
  rw [ApiEpoch.summary, hepoch, hcurrent, hfirst, hend, hrecord]
  rfl

/-- **The detail route of an epoch says what its row of the feed says.** Epochs past the current one
are not found. -/
theorem consensusEpoch_eq {raw : String} {row : ApiConsensusEpoch} (hcurrent : current < 2 ^ 32)
    (hview : ∀ j, HoldsRecords records current (view j))
    (hstate : ∀ e < current, finalStateOf records e + 1 < 2 ^ 64)
    (hconsensus : ∀ e < current, finalConsensusOf records e + 1 < 2 ^ 64)
    (h : Api.consensusEpoch bs58Of reader view current raw = .ok row) :
    ∃ e ≤ current, parseNumber raw "epoch number" = .ok e ∧
      row.summary = summaryOf bs58Of records current e ∧
      row.consensusRange = consensusRangeOf records current e := by
  obtain ⟨e, he, h⟩ := Fetch.bind_eq_ok_iff.mp h
  dsimp only at h
  split at h
  · cases h
  · next hle =>
    obtain ⟨item, hitem, h⟩ := Fetch.bind_eq_ok_iff.mp h
    obtain ⟨times, -, h⟩ := Fetch.bind_eq_ok_iff.mp h
    cases h
    rw [epochU32_eq (by omega)] at hitem
    obtain ⟨hsummary, hrange⟩ :=
      consensusEpochRow_eq hview hstate hconsensus (not_lt.mp hle) hitem
    exact ⟨e, not_lt.mp hle, he, hsummary, hrange⟩

theorem epochByNumber_eq {raw : String} {row : ApiEpoch} (hcurrent : current < 2 ^ 32)
    (hview : ∀ j, HoldsRecords records current (view j))
    (hstate : ∀ e < current, finalStateOf records e + 1 < 2 ^ 64)
    (h : Api.epochByNumber bs58Of reader view current raw = .ok row) :
    ∃ e ≤ current, parseNumber raw "epoch number" = .ok e ∧
      row.summary = summaryOf bs58Of records current e := by
  obtain ⟨e, he, h⟩ := Fetch.bind_eq_ok_iff.mp h
  dsimp only at h
  split at h
  · cases h
  · next hle =>
    obtain ⟨item, hitem, h⟩ := Fetch.bind_eq_ok_iff.mp h
    obtain ⟨times, -, h⟩ := Fetch.bind_eq_ok_iff.mp h
    cases h
    have hsummary : item.summary = summaryOf bs58Of records current e :=
      epochRow_eq hview hstate (by omega) (not_lt.mp hle) hitem
    exact ⟨e, not_lt.mp hle, he, hsummary⟩

end Rows

/-! ### The feeds -/

section Feeds

variable {bs58Of : B256 → String} {reader : EpochReader} {records : ℕ → EpochRecord}
  {views : ℕ → ℕ → EpochDb} {current : ℕ}

/-- The epochs up to the current one, newest first. -/
def epochsDesc (current : ℕ) : List ℕ := (List.range (current + 1)).reverse

theorem mem_epochsDesc {e : ℕ} : e ∈ epochsDesc current ↔ e ≤ current := by
  rw [epochsDesc, List.mem_reverse, List.mem_range, Nat.lt_succ_iff]

/-- The epochs of a page. -/
def epochPage (current : ℕ) (query : PageQuery) : List ℕ :=
  Page.slice (clampPerPage query.perPage) (query.page.getD 0 * clampPerPage query.perPage)
    (epochsDesc current)

theorem le_of_mem_epochPage {query : PageQuery} {e : ℕ} (h : e ∈ epochPage current query) :
    e ≤ current :=
  mem_epochsDesc.mp (Page.mem_of_mem_slice h)

theorem descPageItems_epochs (hcurrent : current < 2 ^ 32) (query : PageQuery) :
    descPageItems (saturatingAdd current 1) (query.page.getD 0) (clampPerPage query.perPage) =
      .ok (epochPage current query) := by
  rw [saturatingAdd_eq (by omega)]
  exact descPageItems_eq (by omega) (clampPerPage_pos _) _

/-- **A page of `/consensus/epochs` is what the records say of its epochs.** -/
theorem consensusEpochsList_eq {query : PageQuery} {page : Envelope ApiConsensusEpoch}
    (hcurrent : current < 2 ^ 32) (hviews : ∀ i j, HoldsRecords records current (views i j))
    (hstate : ∀ e < current, finalStateOf records e + 1 < 2 ^ 64)
    (hconsensus : ∀ e < current, finalConsensusOf records e + 1 < 2 ^ 64)
    (h : Api.consensusEpochsList bs58Of reader views current query = .ok page) :
    page.items.map (fun row => (row.summary, row.consensusRange)) =
      (epochPage current query).map
        fun e => (summaryOf bs58Of records current e, consensusRangeOf records current e) := by
  obtain ⟨numbers, hnumbers, h⟩ := Fetch.bind_eq_ok_iff.mp h
  rw [liftNode_eq_ok_iff, descPageItems_epochs hcurrent] at hnumbers
  cases hnumbers
  obtain ⟨items, hitems, h⟩ := Fetch.bind_eq_ok_iff.mp h
  obtain ⟨times, -, h⟩ := Fetch.bind_eq_ok_iff.mp h
  cases h
  rw [List.map_map]
  refine Fetch.map_of_mapM_zipIdx (f := fun i e => consensusEpochRow bs58Of reader (views i)
    (epochU32 e) current false) hitems fun e hmem i row hrow => ?_
  have he := le_of_mem_epochPage hmem
  rw [epochU32_eq (by omega)] at hrow
  obtain ⟨hsummary, hrange⟩ := consensusEpochRow_eq (hviews i) hstate hconsensus he hrow
  exact Prod.ext hsummary hrange

/-- **A page of `/epochs` is what the records say of its epochs.** -/
theorem epochsList_eq {query : PageQuery} {page : Envelope ApiEpoch}
    (hcurrent : current < 2 ^ 32) (hviews : ∀ i j, HoldsRecords records current (views i j))
    (hstate : ∀ e < current, finalStateOf records e + 1 < 2 ^ 64)
    (h : Api.epochsList bs58Of reader views current query = .ok page) :
    page.items.map ApiEpoch.summary =
      (epochPage current query).map (summaryOf bs58Of records current) := by
  obtain ⟨numbers, hnumbers, h⟩ := Fetch.bind_eq_ok_iff.mp h
  rw [liftNode_eq_ok_iff, descPageItems_epochs hcurrent] at hnumbers
  cases hnumbers
  obtain ⟨items, hitems, h⟩ := Fetch.bind_eq_ok_iff.mp h
  obtain ⟨times, -, h⟩ := Fetch.bind_eq_ok_iff.mp h
  cases h
  rw [List.map_map]
  refine Fetch.map_of_mapM_zipIdx (f := fun i e => epochRow bs58Of reader (views i) e current
    false) hitems fun e hmem i row hrow => ?_
  have he := le_of_mem_epochPage hmem
  have hsummary : row.summary = summaryOf bs58Of records current e :=
    epochRow_eq (hviews i) hstate (by omega) he hrow
  exact hsummary

/-- The lists answer when the headers can be read. -/
theorem exists_consensusEpochsList (hcurrent : current < 2 ^ 32)
    (hheaders : ∀ n, ∃ header, reader.headerByNumber n = .ok header) (query : PageQuery) :
    ∃ page, Api.consensusEpochsList bs58Of reader views current query = .ok page := by
  choose header hheader using hheaders
  obtain ⟨items, hitems⟩ := Fetch.exists_mapM_iff.mpr
    fun (entry : ℕ × ℕ) (_ : entry ∈ (epochPage current query).zipIdx) =>
      @exists_consensusEpochRow bs58Of reader (views entry.2) (epochU32 entry.1) current
  obtain ⟨times, htimes, -⟩ := @endTimes_spec reader header
    (items.map (ApiRange.last ∘ ApiConsensusEpoch.execRange)) fun n _ => hheader n
  have hnumbers := liftNode_eq_ok_iff.mpr (descPageItems_epochs hcurrent query)
  exact ⟨_, Fetch.bind_eq_ok_iff.mpr ⟨_, hnumbers,
    Fetch.bind_eq_ok_iff.mpr ⟨_, hitems, Fetch.bind_eq_ok_iff.mpr ⟨_, htimes, rfl⟩⟩⟩⟩

theorem exists_epochsList (hcurrent : current < 2 ^ 32)
    (hheaders : ∀ n, ∃ header, reader.headerByNumber n = .ok header) (query : PageQuery) :
    ∃ page, Api.epochsList bs58Of reader views current query = .ok page := by
  choose header hheader using hheaders
  obtain ⟨items, hitems⟩ := Fetch.exists_mapM_iff.mpr
    fun (entry : ℕ × ℕ) (_ : entry ∈ (epochPage current query).zipIdx) =>
      @exists_epochRow bs58Of reader (views entry.2) entry.1 current
  obtain ⟨times, htimes, -⟩ := @endTimes_spec reader header
    (items.map ApiEpoch.endBlock) fun n _ => hheader n
  have hnumbers := liftNode_eq_ok_iff.mpr (descPageItems_epochs hcurrent query)
  exact ⟨_, Fetch.bind_eq_ok_iff.mpr ⟨_, hnumbers,
    Fetch.bind_eq_ok_iff.mpr ⟨_, hitems, Fetch.bind_eq_ok_iff.mpr ⟨_, htimes, rfl⟩⟩⟩⟩

/-- All pages of a feed, from the first on. -/
def allPages {α : Type} (n : ℕ) (perPage : Option ℕ)
    (list : ℕ → PageQuery → Except ApiError (Envelope α)) : Except ApiError (List (Envelope α)) :=
  (List.range n).mapM fun p => list p ⟨some p, perPage⟩

/-- The rows of all pages, when each page is a slice of the epochs. -/
theorem rows_of_pages {α β : Type} {n : ℕ} {perPage : Option ℕ}
    {list : ℕ → PageQuery → Except ApiError (Envelope α)} {pages : List (Envelope α)}
    {f : α → β} {g : ℕ → β} (hn : current + 1 ≤ n * clampPerPage perPage)
    (hlist : ∀ p query page, list p query = .ok page →
      page.items.map f = (epochPage current query).map g)
    (h : allPages n perPage list = .ok pages) :
    (pages.flatMap Envelope.items).map f = (epochsDesc current).map g := by
  have hpages : pages.map (fun page => page.items.map f) =
      (List.range n).map fun p => (epochPage current ⟨some p, perPage⟩).map g :=
    Fetch.map_of_mapM h fun p _ page hpage => hlist p _ page hpage
  rw [List.map_flatMap, List.flatMap_def, hpages, ← List.flatMap_def, ← List.map_flatMap]
  simp only [epochPage, Option.getD_some]
  rw [Page.flatMap_slice, List.take_of_length_le]
  rwa [epochsDesc, List.length_reverse, List.length_range]

/-- **The epoch ranges tile the chain on both feeds.** The records of the epochs below the current
one are there at every read, their numbers ascend, and none is the largest of 64 bits; nothing is
assumed of the record of the current epoch. Then the pages of `/consensus/epochs` list every epoch
once, newest first; the execution ranges tile the blocks from `0` on and the consensus ranges the
outputs from `1` on, with the current epoch open; no closed range is empty, the consensus range of
epoch `0` if it ends with output `1` or later; and `/epochs` says the same of every epoch. -/
theorem epoch_feeds_tile (bs58Of : B256 → String) (reader : EpochReader)
    (records : ℕ → EpochRecord) {current : ℕ} (hcurrent : current < 2 ^ 32)
    (hstate : ∀ e, e + 1 < current → finalStateOf records e < finalStateOf records (e + 1))
    (hconsensus : ∀ e, e + 1 < current →
      finalConsensusOf records e < finalConsensusOf records (e + 1))
    (hmax : ∀ e < current,
      finalStateOf records e < 2 ^ 64 - 1 ∧ finalConsensusOf records e < 2 ^ 64 - 1)
    {views views' : ℕ → ℕ → ℕ → EpochDb}
    (hviews : ∀ p i j, HoldsRecords records current (views p i j))
    (hviews' : ∀ p i j, HoldsRecords records current (views' p i j))
    {n : ℕ} {perPage : Option ℕ} (hn : current + 1 ≤ n * clampPerPage perPage) :
    let consensusEpochs := allPages n perPage fun p =>
      Api.consensusEpochsList bs58Of reader (views p) current
    let epochs := allPages n perPage fun p => Api.epochsList bs58Of reader (views' p) current
    (TilesFrom 0 current (execRangeOf records current) ∧
      (0 < current → (execRangeOf records current 0).Closed)) ∧
    (TilesFrom 1 current (consensusRangeOf records current) ∧
      (0 < current → 1 ≤ finalConsensusOf records 0 →
        (consensusRangeOf records current 0).Closed)) ∧
    (∀ pages, consensusEpochs = .ok pages →
      (pages.flatMap Envelope.items).map (fun row => (row.summary, row.consensusRange)) =
        (epochsDesc current).map
          fun e => (summaryOf bs58Of records current e, consensusRangeOf records current e)) ∧
    (∀ pages, epochs = .ok pages → (pages.flatMap Envelope.items).map ApiEpoch.summary =
      (epochsDesc current).map (summaryOf bs58Of records current)) ∧
    ((∀ number, ∃ header, reader.headerByNumber number = .ok header) →
      (∃ pages, consensusEpochs = .ok pages) ∧ ∃ pages, epochs = .ok pages) := by
  have hstate' : ∀ e < current, finalStateOf records e + 1 < 2 ^ 64 := fun e he => by
    have := (hmax e he).1
    omega
  have hconsensus' : ∀ e < current, finalConsensusOf records e + 1 < 2 ^ 64 := fun e he => by
    have := (hmax e he).2
    omega
  refine ⟨⟨tilesFrom_epochRange ⟨fun _ => Nat.zero_le _, hstate⟩, fun hpos =>
      closed_epochRange_zero hpos (Nat.zero_le _)⟩,
    ⟨tilesFrom_epochRange ⟨fun _ => Nat.succ_le_succ (Nat.zero_le _), hconsensus⟩, fun hpos hone =>
      closed_epochRange_zero hpos hone⟩,
    fun pages hpages => ?_, fun pages hpages => ?_, fun hheaders => ⟨?_, ?_⟩⟩
  · exact rows_of_pages hn (fun p query page =>
      consensusEpochsList_eq hcurrent (hviews p) hstate' hconsensus') hpages
  · exact rows_of_pages hn (fun p query page => epochsList_eq hcurrent (hviews' p) hstate') hpages
  · exact Fetch.exists_mapM_iff.mpr fun p _ => exists_consensusEpochsList hcurrent hheaders _
  · exact Fetch.exists_mapM_iff.mpr fun p _ => exists_epochsList hcurrent hheaders _

end Feeds

/-- Epochs of ten blocks and five outputs. -/
def tenBlockRecord (e : ℕ) : EpochRecord where
  epoch := e
  committee := []
  nextCommittee := []
  parentHash := 0
  finalState := ⟨10 * e + 9, 0⟩
  finalConsensus := ⟨5 * e + 5, 0⟩
  digest := 0
  superQuorum := 1

/-- A database with the records of the epochs up to `last`. -/
def dbUpTo (records : ℕ → EpochRecord) (last : ℕ) : EpochDb where
  getEpochByNumber e := if e ≤ last then some (records e, none) else none
  getCommitteeKeys _ := none

/-- A node without headers. -/
def headlessReader : EpochReader where
  headerByNumber _ := .ok none
  verifyEpochCertificate _ _ := .ok true
  committeeAddresses _ := none
  epochPackComplete _ := true
  epochLastCommitted _ := none
  epochFinalReputation _ := none

theorem holdsRecords_dbUpTo (records : ℕ → EpochRecord) {current last : ℕ}
    (h : current ≤ last + 1) : HoldsRecords records current (dbUpTo records last) := fun e he => by
  have hle : e ≤ last := by omega
  simp [EpochDb.recordByEpoch, dbUpTo, hle]

/-- Three epochs on two pages. The record of the current epoch is written between the pages. -/
theorem epoch_feeds_tile_three : ∃ pages,
    allPages 2 (some 2) (fun p => Api.consensusEpochsList (fun _ => "") headlessReader
      (fun _ _ => dbUpTo tenBlockRecord (p + 1)) 2) = .ok pages ∧
    (pages.flatMap Envelope.items).map
        (fun row => (row.summary.epoch, row.summary.execRange, row.consensusRange)) =
      [(2, ⟨some 20, none⟩, ⟨some 11, none⟩), (1, ⟨some 10, some 19⟩, ⟨some 6, some 10⟩),
        (0, ⟨some 0, some 9⟩, ⟨some 1, some 5⟩)] := by
  obtain ⟨-, -, hrows, -, hpages⟩ :=
    @epoch_feeds_tile (fun _ => "") headlessReader tenBlockRecord 2 (by decide)
      (fun e _ => by simp only [finalStateOf, tenBlockRecord]; omega)
      (fun e _ => by simp only [finalConsensusOf, tenBlockRecord]; omega)
      (fun e he => by simp only [finalStateOf, finalConsensusOf, tenBlockRecord]; omega)
      (fun p _ _ => dbUpTo tenBlockRecord (p + 1)) (fun p _ _ => dbUpTo tenBlockRecord (p + 1))
      (fun p _ _ => holdsRecords_dbUpTo _ (by omega))
      (fun p _ _ => holdsRecords_dbUpTo _ (by omega)) 2 (some 2) (by decide)
  obtain ⟨pages, hpages⟩ := (hpages fun _ => ⟨none, rfl⟩).1
  refine ⟨pages, hpages, ?_⟩
  have h := congrArg (List.map fun row : EpochSummary × ApiRange =>
    (row.1.epoch, row.1.execRange, row.2)) (hrows pages hpages)
  rw [List.map_map, List.map_map] at h
  exact h.trans (by decide)

/-- The record of an epoch that ends with the largest block number. -/
def lastBlockRecord (e : ℕ) : EpochRecord :=
  { tenBlockRecord e with finalState := ⟨2 ^ 64 - 1, 0⟩ }

/-- **After the largest block number the ranges overlap**: the next epoch starts at the block that
the one before it ends with. -/
theorem epoch_feeds_overlap : HoldsRecords lastBlockRecord 1 (dbUpTo lastBlockRecord 0) ∧
    1 ≤ finalConsensusOf lastBlockRecord 0 ∧ finalStateOf lastBlockRecord 0 < 2 ^ 64 ∧
    ∃ page, Api.consensusEpochsList (fun _ => "") headlessReader
        (fun _ _ => dbUpTo lastBlockRecord 0) 1 ⟨none, none⟩ = .ok page ∧
      page.items.map ApiConsensusEpoch.execRange =
        [⟨some (2 ^ 64 - 1), none⟩, ⟨some 0, some (2 ^ 64 - 1)⟩] ∧
      ¬ ∃ range, TilesFrom 0 1 range ∧
        range 0 = ⟨some 0, some (2 ^ 64 - 1)⟩ ∧ range 1 = ⟨some (2 ^ 64 - 1), none⟩ := by
  refine ⟨holdsRecords_dbUpTo _ (by omega), by decide, by decide, _, rfl, rfl, ?_⟩
  rintro ⟨range, htiles, hzero, hone⟩
  obtain ⟨last, hlast, hfirst⟩ := htiles.adjacent 0 (by decide)
  rw [hzero, Option.some.injEq] at hlast
  rw [hone, Option.some.injEq] at hfirst
  omega

end ExplorerIndexer
