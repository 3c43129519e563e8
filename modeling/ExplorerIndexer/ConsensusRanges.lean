import ExplorerIndexer.ConsensusBatches
import ExplorerIndexer.Library.SortedMap
import Mathlib.Order.Bounds.Basic

/-!
# Ranges of consensus outputs, in any order of arrival

Every block names the output that produced it, and `consensus_blocks` keeps one row for each output,
whose range widens as blocks of the output are applied. The writer applies blocks in ascending
order, but the range does not rest on it: whatever the order of the rows, and however often one is
repeated, the table comes out the same.

## Main definitions

* `applyRanges` — the upserts of a list of rows
* `Spans` — what a set of rows of one output leaves in the table
* `consensusRangesByDigests` — the ranges of a page of outputs

## Main results

* `spans_applyRanges` — after any list of rows, the row of an output spans the rows that name it
* `applyRanges_confluent` — the table depends on which rows were applied, and on nothing else
* `find?_consensusRangesByDigests` — a page reads the range of each of its outputs
-/

namespace ExplorerIndexer

open Script (Triple)

/-! ### The functions of the source -/

/-- The upserts of a list of rows, in its order. -/
def applyRanges (blocks : Table ConsensusBlock.digest) (rows : List ConsensusRow) :
    Table ConsensusBlock.digest :=
  rows.foldl (fun blocks row => blocks.upsert widenRange (.ofRow row)) blocks

/-- The ranges of a list of outputs; an output without a row is absent. -/
def consensusRangesByDigests (db : Db) (digests : List B256) : SortedMap B256 ConsensusRange :=
  digests.foldl (fun out digest =>
    match consensusRangeByDigest db digest with
    | some range => out.insert digest range
    | none => out) .empty

@[simp] theorem applyRanges_cons (blocks : Table ConsensusBlock.digest) (row : ConsensusRow)
    (rows : List ConsensusRow) : applyRanges blocks (row :: rows) =
      applyRanges (blocks.upsert widenRange (.ofRow row)) rows := rfl

theorem applyRanges_append (blocks : Table ConsensusBlock.digest) (rows rows' : List ConsensusRow) :
    applyRanges blocks (rows ++ rows') = applyRanges (applyRanges blocks rows) rows' := by
  rw [applyRanges, List.foldl_append, applyRanges, applyRanges]

/-- A block that is applied upserts its row. -/
theorem consensusBlocks_applied (db : Db) (extracted : ExtractedBlock)
    (tokenRows : List TokenRow) : (db.applied extracted tokenRows).consensusBlocks =
      applyRanges db.consensusBlocks extracted.consensus.toList := rfl

/-- Statements that return apply their rows. -/
theorem forM_upsertConsensus_spec (rows : List ConsensusRow) (db : Db) :
    Triple (· = db) (rows.forM upsertConsensus)
      (fun _ db' => db' = { db with consensusBlocks := applyRanges db.consensusBlocks rows })
      (fun _ _ => ∃ row ∈ rows, ¬ row.blockNumber < 2 ^ 63) fun _ => True := by
  refine (Triple.forM_foldl (fun row hrow st => (upsertConsensus_spec row st).conseq
    (fun _ h => h) (fun _ _ h => h) (fun _ _ h => ⟨row, hrow, h⟩) fun _ h => h) db).conseq
    (fun _ h => h) (fun _ _ h => ?_) (fun _ _ h => h) fun _ h => h
  rw [h, foldl_upsertConsensus, applyRanges]

/-! ### What the rows of an output leave -/

/-- The rows that name an output. -/
def naming (rows : List ConsensusRow) (d : B256) : Set ConsensusRow :=
  {row | row ∈ rows ∧ row.digest = d}

@[simp] theorem mem_naming {rows : List ConsensusRow} {d : B256} {row : ConsensusRow} :
    row ∈ naming rows d ↔ row ∈ rows ∧ row.digest = d := Iff.rfl

@[simp] theorem naming_nil (d : B256) : naming [] d = ∅ :=
  Set.eq_empty_of_forall_notMem fun _ h => List.not_mem_nil h.1

/-- The stored row has the epoch and the round of one of the rows, and reaches from the lowest of
their blocks to the highest. -/
structure Spans (named : Set ConsensusRow) (block : ConsensusBlock) : Prop where
  epoch_round : ∃ row ∈ named, row.epoch = block.epoch ∧ row.round = block.round
  first_block : IsLeast (Set.image ConsensusRow.blockNumber named) block.firstBlock
  last_block : IsGreatest (Set.image ConsensusRow.blockNumber named) block.lastBlock

/-- What the table says of an output that a set of rows names. -/
def SpansOption (named : Set ConsensusRow) : Option ConsensusBlock → Prop
  | none => named = ∅
  | some block => Spans named block

/-- Rows of one output agree on its epoch and its round. -/
def OutputsAgree (rows : List ConsensusRow) : Prop :=
  ∀ row ∈ rows, ∀ row' ∈ rows, row.digest = row'.digest →
    row.epoch = row'.epoch ∧ row.round = row'.round

/-- A first row is its own range. -/
theorem Spans.of_row (row : ConsensusRow) : Spans {row} (.ofRow row) where
  epoch_round := ⟨row, rfl, rfl, rfl⟩
  first_block := by
    rw [Set.image_singleton]
    exact isLeast_singleton
  last_block := by
    rw [Set.image_singleton]
    exact isGreatest_singleton

/-- A further row widens the range. -/
theorem Spans.insert {named : Set ConsensusRow} {block : ConsensusBlock} (h : Spans named block)
    (row : ConsensusRow) :
    Spans (insert row named) (widenRange.update block (.ofRow row)) where
  epoch_round := by
    obtain ⟨row', hrow', heq⟩ := h.epoch_round
    exact ⟨row', Set.mem_insert_of_mem _ hrow', heq⟩
  first_block := by
    rw [Set.image_insert_eq]
    have hmin := h.first_block.insert row.blockNumber
    rwa [min_comm] at hmin
  last_block := by
    rw [Set.image_insert_eq]
    have hmax := h.last_block.insert row.blockNumber
    rwa [max_comm] at hmax

/-- **Rows that agree leave one range.** -/
theorem SpansOption.unique {rows : List ConsensusRow} (hagree : OutputsAgree rows) {d : B256}
    {found found' : Option ConsensusBlock} (hfound : SpansOption (naming rows d) found)
    (hfound' : SpansOption (naming rows d) found')
    (hdigest : ∀ block ∈ found, ∀ block' ∈ found', block.digest = block'.digest) :
    found = found' := by
  cases found with
  | none =>
    cases found' with
    | none => rfl
    | some block' =>
      obtain ⟨row, hrow, -⟩ := hfound'.epoch_round
      rw [show naming rows d = ∅ from hfound] at hrow
      exact absurd hrow (Set.notMem_empty row)
  | some block =>
    cases found' with
    | none =>
      obtain ⟨row, hrow, -⟩ := hfound.epoch_round
      rw [show naming rows d = ∅ from hfound'] at hrow
      exact absurd hrow (Set.notMem_empty row)
    | some block' =>
      obtain ⟨row, hrow, hepoch, hround⟩ := hfound.epoch_round
      obtain ⟨row', hrow', hepoch', hround'⟩ := hfound'.epoch_round
      obtain ⟨he, hr⟩ := hagree row hrow.1 row' hrow'.1 (hrow.2.trans hrow'.2.symm)
      have hfirst := hfound.first_block.unique hfound'.first_block
      have hlast := hfound.last_block.unique hfound'.last_block
      have hd := hdigest block rfl block' rfl
      cases block; cases block'
      simp_all

/-! ### A run of upserts -/

theorem naming_append_singleton_self (rows : List ConsensusRow) (row : ConsensusRow) :
    naming (rows ++ [row]) row.digest = insert row (naming rows row.digest) := by
  ext row'
  simp only [mem_naming, List.mem_append, List.mem_singleton, Set.mem_insert_iff]
  grind

theorem naming_append_singleton_of_ne (rows : List ConsensusRow) {row : ConsensusRow} {d : B256}
    (h : row.digest ≠ d) : naming (rows ++ [row]) d = naming rows d := by
  ext row'
  simp only [mem_naming, List.mem_append, List.mem_singleton]
  grind

/-- One upsert: the row of its output spans one more row, the others are untouched. -/
theorem spansOption_upsert {blocks : Table ConsensusBlock.digest} {rows : List ConsensusRow}
    {d : B256} (h : SpansOption (naming rows d) (blocks.find? (digestHex d)))
    (row : ConsensusRow) :
    SpansOption (naming (rows ++ [row]) d)
      ((blocks.upsert widenRange (.ofRow row)).find? (digestHex d)) := by
  by_cases hd : row.digest = d
  · subst hd
    have hkey : digestHex row.digest = (ConsensusBlock.ofRow row).digest := rfl
    rw [hkey, Table.find?_upsert_self, ← hkey, naming_append_singleton_self]
    cases hfound : blocks.find? (digestHex row.digest) with
    | none =>
      rw [hfound] at h
      rw [show naming rows row.digest = ∅ from h, insert_empty_eq]
      exact Spans.of_row row
    | some block =>
      rw [hfound] at h
      exact Spans.insert h row
  · have hkey : digestHex d ≠ (ConsensusBlock.ofRow row).digest :=
      fun hc => hd (digestHex_injective hc).symm
    rw [Table.find?_upsert_of_ne widenRange blocks hkey, naming_append_singleton_of_ne rows hd]
    exact h

/-- **After any list of rows, the row of an output spans the rows that name it**: those applied
before and those applied now. -/
theorem spans_applyRanges {blocks : Table ConsensusBlock.digest} {before : List ConsensusRow}
    {d : B256} (h : SpansOption (naming before d) (blocks.find? (digestHex d)))
    (rows : List ConsensusRow) :
    SpansOption (naming (before ++ rows) d) ((applyRanges blocks rows).find? (digestHex d)) := by
  induction rows generalizing blocks before with
  | nil => rwa [List.append_nil]
  | cons row rows ih =>
    have hrest := ih (spansOption_upsert h row)
    rwa [List.append_assoc] at hrest

theorem spans_applyRanges_empty (rows : List ConsensusRow) (d : B256) :
    SpansOption (naming rows d) ((applyRanges .empty rows).find? (digestHex d)) :=
  @spans_applyRanges .empty [] d (naming_nil d) rows

/-- The table has the keys of its rows. -/
theorem isSome_find?_applyRanges (blocks : Table ConsensusBlock.digest) (rows : List ConsensusRow)
    (key : String) : ((applyRanges blocks rows).find? key).isSome ↔
      (blocks.find? key).isSome ∨ ∃ row ∈ rows, digestHex row.digest = key := by
  induction rows generalizing blocks with
  | nil => simp [applyRanges]
  | cons row rows ih =>
    rw [applyRanges_cons, ih, Table.isSome_find?_upsert]
    simp only [ConsensusBlock.ofRow, List.mem_cons, exists_eq_or_imp]
    grind

/-- Upserts of other outputs leave a row as it is. -/
theorem find?_applyRanges_of_forall_ne (blocks : Table ConsensusBlock.digest)
    {rows : List ConsensusRow} {d : B256} (h : ∀ row ∈ rows, row.digest ≠ d) :
    (applyRanges blocks rows).find? (digestHex d) = blocks.find? (digestHex d) := by
  induction rows generalizing blocks with
  | nil => rfl
  | cons row rows ih =>
    have hkey : digestHex d ≠ (ConsensusBlock.ofRow row).digest :=
      fun hc => h row (List.mem_cons_self ..) (digestHex_injective hc).symm
    rw [applyRanges_cons, ih _ fun r hr => h r (List.mem_cons_of_mem _ hr),
      Table.find?_upsert_of_ne widenRange blocks hkey]

/-- Lists of the same rows leave the same lookups. -/
theorem find?_applyRanges_eq {rows rows' : List ConsensusRow} (hagree : OutputsAgree rows)
    (hsame : ∀ row, row ∈ rows ↔ row ∈ rows') (key : String) :
    (applyRanges .empty rows).find? key = (applyRanges .empty rows').find? key := by
  by_cases hkey : ∃ row ∈ rows, digestHex row.digest = key
  · obtain ⟨row, -, rfl⟩ := hkey
    have hnaming : naming rows' row.digest = naming rows row.digest := by
      ext row'
      simp only [mem_naming, hsame]
    have hspans := spans_applyRanges_empty rows' row.digest
    rw [hnaming] at hspans
    exact (spans_applyRanges_empty rows row.digest).unique hagree hspans fun block hb block' hb' =>
      (Table.key_of_find? hb).trans (Table.key_of_find? hb').symm
  · have hnone : (applyRanges .empty rows).find? key = none := by
      rw [← Option.not_isSome_iff_eq_none, isSome_find?_applyRanges]
      simpa using hkey
    have hnone' : (applyRanges .empty rows').find? key = none := by
      rw [← Option.not_isSome_iff_eq_none, isSome_find?_applyRanges]
      simpa [← hsame] using hkey
    rw [hnone, hnone']

/-- **The table depends on which rows were applied, and on nothing else.** From a table built by
any rows, two lists with the same members, in whatever order and with whatever repetitions, leave
the same rows; the row of an output has the lowest and the highest block over all rows applied so
far that name it; and an output that none of the new rows names keeps its row. -/
theorem applyRanges_confluent {before rows rows' : List ConsensusRow}
    (hagree : OutputsAgree (before ++ rows)) (hsame : ∀ row, row ∈ rows ↔ row ∈ rows') :
    (∀ key, (applyRanges (applyRanges .empty before) rows).find? key =
      (applyRanges (applyRanges .empty before) rows').find? key) ∧
    (applyRanges (applyRanges .empty before) rows).rows.Perm
      (applyRanges (applyRanges .empty before) rows').rows ∧
    (∀ d, SpansOption (naming (before ++ rows) d)
      ((applyRanges (applyRanges .empty before) rows).find? (digestHex d))) ∧
    ∀ d, (∀ row ∈ rows, row.digest ≠ d) →
      (applyRanges (applyRanges .empty before) rows).find? (digestHex d) =
        (applyRanges .empty before).find? (digestHex d) := by
  have hfind : ∀ key, (applyRanges (applyRanges .empty before) rows).find? key =
      (applyRanges (applyRanges .empty before) rows').find? key := by
    intro key
    rw [← applyRanges_append, ← applyRanges_append]
    exact find?_applyRanges_eq hagree (fun row => by simp only [List.mem_append, hsame]) key
  refine ⟨hfind, Table.perm_of_find?_eq hfind, fun d => ?_, fun d hd => ?_⟩
  · exact spans_applyRanges (spans_applyRanges_empty before d) rows
  · exact find?_applyRanges_of_forall_ne _ hd

/-- Three blocks of an output, last first and one of them twice. -/
theorem applyRanges_confluent_three :
    (applyRanges (applyRanges .empty [⟨1, 3, 40, 9⟩]) [⟨2, 3, 41, 12⟩, ⟨2, 3, 41, 10⟩]).rows.Perm
      (applyRanges (applyRanges .empty [⟨1, 3, 40, 9⟩])
        [⟨2, 3, 41, 10⟩, ⟨2, 3, 41, 12⟩, ⟨2, 3, 41, 10⟩]).rows := by
  have hagree : OutputsAgree ([⟨1, 3, 40, 9⟩] ++ [⟨2, 3, 41, 12⟩, ⟨2, 3, 41, 10⟩]) := by
    simp [OutputsAgree]
  refine (applyRanges_confluent hagree fun row => ?_).2.1
  simp only [List.mem_cons]
  grind

/-! ### Reading the ranges -/

/-- **A page reads the range of each of its outputs**, and nothing else. -/
theorem find?_consensusRangesByDigests (db : Db) (digests : List B256) (d : B256) :
    (consensusRangesByDigests db digests).find? d =
      if d ∈ digests then consensusRangeByDigest db d else none := by
  suffices h : ∀ out : SortedMap B256 ConsensusRange,
      (digests.foldl (fun out digest =>
        match consensusRangeByDigest db digest with
        | some range => out.insert digest range
        | none => out) out).find? d =
      if d ∈ digests then (consensusRangeByDigest db d).or (out.find? d) else out.find? d by
    rw [consensusRangesByDigests, h]
    simp [SortedMap.find?, SortedMap.empty]
  induction digests with
  | nil => simp
  | cons digest digests ih =>
    intro out
    rw [List.foldl_cons, ih]
    cases hrange : consensusRangeByDigest db digest with
    | none =>
      by_cases hd : d = digest
      · subst hd
        simp [hrange]
      · simp [hd]
    | some range =>
      by_cases hd : d = digest
      · subst hd
        simp [hrange, SortedMap.find?_insert]
      · simp [hd, SortedMap.find?_insert]

end ExplorerIndexer
