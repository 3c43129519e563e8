import ExplorerIndexer.Migrate
import ExplorerIndexer.Library.Transition

/-!
# Runs of the writer

Sequences of `Writer::open` and `index_block` on one file, with any chain ids, any extracted blocks
and any calls cut short at any statement.

## Main definitions

* `WriterState`, `writerSystem` — the file, the open handle and a log of the commits
* `StartFile` — the files a first open can meet

## Main results

* `writer_invariant` — a file is rebuildable, or it belongs to one chain for good
* `migrate_isolates` — the first open that returns keeps an intact file as it is or leaves an empty
  index, a failing open changes nothing, and every commit was made under the stored chain id
-/

namespace ExplorerIndexer

open Script (Triple)

/-- A file between the calls on it. -/
structure WriterState where
  file : File
  /-- The chain id of the open writer. -/
  writer : Option UInt64
  /-- Some open has returned. -/
  opened : Bool
  /-- The chain ids of the writers that committed a block, in order. -/
  committers : List UInt64

/-- A call. `budget` is the number of statements after which it is cut. -/
inductive WriterCall where
  | opening (chainId : UInt64) (budget : Option ℕ)
  | indexing (extracted : ExtractedBlock) (tokenRows : List TokenRow) (budget : Option ℕ)

/-- Open the file: a writer exists when the migration returns. -/
def WriterState.open (s : WriterState) (chainId : UInt64) (budget : Option ℕ) : WriterState :=
  let r := migrate chainId ⟨s.file, budget⟩
  match r.1 with
  | .ok () => { s with file := r.2.store, writer := some chainId, opened := true }
  | .error _ => { s with file := r.2.store, writer := none }

/-- Index a block through the open writer. -/
def WriterState.index (s : WriterState) (chainId : UInt64) (db : Db) (extracted : ExtractedBlock)
    (tokenRows : List TokenRow) (budget : Option ℕ) : WriterState :=
  let r := indexBlock extracted tokenRows ⟨db, budget⟩
  match r.1 with
  | .ok true => { s with file := r.2.store.toFile, committers := s.committers ++ [chainId] }
  | .ok false | .error _ => { s with file := r.2.store.toFile }

/-- The calls on a file. A block is indexed through an open writer only. -/
def WriterState.step (s : WriterState) : WriterCall → Option WriterState
  | .opening chainId budget => some (s.open chainId budget)
  | .indexing extracted tokenRows budget => do
    let chainId ← s.writer
    let db ← s.file.toDb
    some (s.index chainId db extracted tokenRows budget)

/-- Runs that start from a given file. -/
def writerSystem (f : File) : TransitionSystem WriterState WriterCall where
  init s := s = ⟨f, none, false, []⟩
  step := WriterState.step

/-- The files a first open can meet. -/
inductive StartFile : File → Prop where
  /-- No file yet. -/
  | empty : StartFile File.empty
  /-- A file of this version, as opens and block writes leave it. -/
  | left {chainId : UInt64} {f : File} (h : Intact chainId f) : StartFile f
  /-- A `meta` without this version, next to any tables. -/
  | outdated {f : File} {m : Table MetaRow.key} (hm : f.metadata = some m)
      (hversion : readMeta m "schema_version" ≠ some SCHEMA_VERSION) : StartFile f
  /-- A table of v1, next to any tables. -/
  | v1 {f : File} (h : f.blocks.isSome ∨ f.transactions.isSome) : StartFile f

theorem StartFile.rebuildable_or_intact {f : File} (h : StartFile f) :
    Rebuildable f ∨ ∃ chainId, Intact chainId f := by
  cases h with
  | empty => exact Or.inl (Or.inr (Or.inl rfl))
  | left h => exact Or.inr ⟨_, h⟩
  | outdated hm hversion => exact Or.inl (Or.inl (Or.inl ⟨_, hm, hversion⟩))
  | v1 h => exact Or.inl (Or.inl (Or.inr h))

/-! ### What a call does to a file -/

/-- A block write keeps the version and the chain. -/
theorem Intact.applied {chainId : UInt64} {db : Db} (h : Intact chainId db.toFile)
    (extracted : ExtractedBlock) (tokenRows : List TokenRow) :
    Intact chainId (db.applied extracted tokenRows).toFile := by
  obtain ⟨db', hdb', hversion, hid⟩ := h
  cases Db.toFile_injective hdb'
  refine ⟨_, rfl, ?_, ?_⟩
  · rw [readMeta_applied, if_neg (by decide), hversion]
  · rw [readMeta_applied, if_neg (by decide), hid]

theorem Intact.indexBlock {chainId : UInt64} {db : Db} (h : Intact chainId db.toFile)
    (extracted : ExtractedBlock) (tokenRows : List TokenRow) (budget : Option ℕ) :
    Intact chainId (indexBlock extracted tokenRows ⟨db, budget⟩).2.store.toFile := by
  rcases store_indexBlock extracted tokenRows ⟨db, budget⟩ with ⟨heq, -⟩ | heq
  · rw [heq]
    exact h.applied extracted tokenRows
  · rw [heq]
    exact h

/-- An open of a rebuildable file returns with the empty index, or leaves a rebuildable file. -/
theorem open_rebuildable {s : WriterState} (h : Rebuildable s.file) (chainId : UInt64)
    (budget : Option ℕ) :
    s.open chainId budget = ⟨(freshDb chainId).toFile, some chainId, true, s.committers⟩ ∨
      ∃ f, Rebuildable f ∧ s.open chainId budget = ⟨f, none, s.opened, s.committers⟩ := by
  have hspec := migrate_rebuildable chainId h ⟨s.file, budget⟩ rfl
  rw [WriterState.open]
  match hrun : migrate chainId ⟨s.file, budget⟩ with
  | (.ok (), s') => rw [hrun] at hspec; exact Or.inl (by simp only [hspec.1])
  | (.error (.failed e), s') => rw [hrun] at hspec; exact hspec.elim
  | (.error .cut, s') => rw [hrun] at hspec; exact Or.inr ⟨_, hspec.1, rfl⟩

/-- An open of an intact file changes no file, and returns under its chain id only. -/
theorem open_intact {s : WriterState} {stored : UInt64} (h : Intact stored s.file)
    (chainId : UInt64) (budget : Option ℕ) :
    (s.open chainId budget = ⟨s.file, some chainId, true, s.committers⟩ ∧ chainId = stored) ∨
      s.open chainId budget = ⟨s.file, none, s.opened, s.committers⟩ := by
  have hspec := migrate_intact chainId h ⟨s.file, budget⟩ rfl
  rw [WriterState.open]
  match hrun : migrate chainId ⟨s.file, budget⟩ with
  | (.ok (), s') =>
    rw [hrun] at hspec
    exact Or.inl ⟨by simp only [hspec.1.1], hspec.1.2⟩
  | (.error (.failed e), s') => rw [hrun] at hspec; exact Or.inr (by simp only [hspec.1])
  | (.error .cut, s') => rw [hrun] at hspec; exact Or.inr (by simp only [hspec.1])

/-! ### The invariant -/

/-- A file is rebuildable until an open returns; after that it belongs to one chain, and writers
and commits are of that chain. A file that was intact from the start has not changed before the
first open. -/
def WriterInvariant (f : File) (s : WriterState) : Prop :=
  (Rebuildable f ∧ Rebuildable s.file ∧ s.writer = none ∧ s.opened = false ∧ s.committers = []) ∨
    ∃ chainId, Intact chainId s.file ∧ (∀ w ∈ s.writer, w = chainId) ∧
      (∀ c ∈ s.committers, c = chainId) ∧ (s.opened = false → s.writer = none ∧ s.file = f)

theorem WriterInvariant.open {f : File} {s : WriterState} (h : WriterInvariant f s)
    (chainId : UInt64) (budget : Option ℕ) : WriterInvariant f (s.open chainId budget) := by
  rcases h with ⟨hf, hs, hwriter, hopened, hcommitters⟩ | ⟨stored, hs, hwriter, hcommitters, hfirst⟩
  · rcases open_rebuildable hs chainId budget with heq | ⟨f', hf', heq⟩
    · rw [heq]
      exact Or.inr ⟨chainId, intact_freshDb chainId, by simp, by simp [hcommitters], by simp⟩
    · rw [heq]
      exact Or.inl ⟨hf, hf', rfl, hopened, hcommitters⟩
  · rcases open_intact hs chainId budget with ⟨heq, rfl⟩ | heq
    · rw [heq]
      exact Or.inr ⟨chainId, hs, by simp, hcommitters, by simp⟩
    · rw [heq]
      exact Or.inr ⟨stored, hs, by simp, hcommitters, fun ho => ⟨rfl, (hfirst ho).2⟩⟩

theorem WriterInvariant.index {f : File} {s : WriterState} (h : WriterInvariant f s)
    {chainId : UInt64} {db : Db} (hwriter : s.writer = some chainId) (hdb : s.file.toDb = some db)
    (extracted : ExtractedBlock) (tokenRows : List TokenRow) (budget : Option ℕ) :
    WriterInvariant f (s.index chainId db extracted tokenRows budget) := by
  rcases h with ⟨-, -, hnone, -⟩ | ⟨stored, hs, hall, hcommitters, hfirst⟩
  · rw [hwriter] at hnone
    cases hnone
  obtain rfl : chainId = stored := hall chainId hwriter
  rw [File.toDb_eq_some_iff.mp hdb] at hs
  have hnext := hs.indexBlock extracted tokenRows budget
  have hopened : s.opened = false → False := fun ho => by
    have := (hfirst ho).1
    rw [hwriter] at this
    cases this
  simp only [WriterState.index]
  split
  · refine Or.inr ⟨chainId, hnext, hall, fun c hc => ?_, fun ho => (hopened ho).elim⟩
    rcases List.mem_append.mp hc with hc | hc
    · exact hcommitters c hc
    · exact List.mem_singleton.mp hc
  · exact Or.inr ⟨chainId, hnext, hall, hcommitters, fun ho => (hopened ho).elim⟩
  · exact Or.inr ⟨chainId, hnext, hall, hcommitters, fun ho => (hopened ho).elim⟩

theorem WriterInvariant.step {f : File} {s t : WriterState} {call : WriterCall}
    (h : WriterInvariant f s) (ht : s.step call = some t) : WriterInvariant f t := by
  cases call with
  | opening chainId budget =>
    cases ht
    exact h.open chainId budget
  | indexing extracted tokenRows budget =>
    obtain ⟨chainId, hwriter, ht⟩ := Option.bind_eq_some_iff.mp ht
    obtain ⟨db, hdb, ht⟩ := Option.bind_eq_some_iff.mp ht
    cases ht
    exact h.index hwriter hdb extracted tokenRows budget

/-- **A file is rebuildable, or it belongs to one chain for good.** -/
theorem writer_invariant {f : File} (hf : StartFile f) {s : WriterState}
    (hs : (writerSystem f).Reachable s) : WriterInvariant f s := by
  induction hs with
  | init h =>
    cases h
    rcases hf.rebuildable_or_intact with hf | ⟨chainId, hf⟩
    · exact Or.inl ⟨hf, hf, rfl, rfl, rfl⟩
    · exact Or.inr ⟨chainId, hf, by simp, by simp, fun _ => ⟨rfl, rfl⟩⟩
  | step _ ht ih => exact ih.step ht

/-- What the calls leave behind an open writer is a file of its chain. -/
theorem intact_of_writer {f : File} (hf : StartFile f) {s : WriterState}
    (hs : (writerSystem f).Reachable s) {chainId : UInt64} (hwriter : s.writer = some chainId) :
    Intact chainId s.file := by
  rcases writer_invariant hf hs with ⟨-, -, hnone, -⟩ | ⟨stored, hs, hall, -⟩
  · rw [hwriter] at hnone
    cases hnone
  · obtain rfl := hall chainId hwriter
    exact hs

/-- **Crash-safe migration and chain isolation.** From any start file and after any calls: the first
open that returns leaves an intact file as it was, rows and cursor included, or turns a rebuildable
one into the empty index of its chain; a migration that fails leaves the file as it was; and every
block was committed under the chain id the file stores, and the file stores no other. -/
theorem migrate_isolates {f : File} (hf : StartFile f) {s : WriterState}
    (hs : (writerSystem f).Reachable s) :
    (∀ chainId budget, s.opened = false → (s.open chainId budget).writer = some chainId →
      (Intact chainId f ∧ (s.open chainId budget).file = f) ∨
      (Rebuildable f ∧ (s.open chainId budget).file = (freshDb chainId).toFile)) ∧
    (∀ chainId budget e session,
      migrate chainId ⟨s.file, budget⟩ = (.error (.failed e), session) →
        session.store = s.file) ∧
    ∀ chainId ∈ s.committers,
      Intact chainId s.file ∧ ∀ other, Intact other s.file → other = chainId := by
  have hinv := writer_invariant hf hs
  refine ⟨fun chainId budget hopened hwriter => ?_, fun chainId budget e session hrun => ?_,
    fun chainId hc => ?_⟩
  · rcases hinv with ⟨hf, hs, -⟩ | ⟨stored, hs, -, -, hfirst⟩
    · rcases open_rebuildable hs chainId budget with heq | ⟨f', -, heq⟩
      · exact Or.inr ⟨hf, by rw [heq]⟩
      · rw [heq] at hwriter
        cases hwriter
    · have hfile := (hfirst hopened).2
      rcases open_intact hs chainId budget with ⟨heq, rfl⟩ | heq
      · exact Or.inl ⟨hfile ▸ hs, by rw [heq, hfile]⟩
      · rw [heq] at hwriter
        cases hwriter
  · rcases hinv with ⟨-, hs, -⟩ | ⟨stored, hs, -⟩
    · exact ((migrate_rebuildable chainId hs).failed rfl hrun).elim
    · exact ((migrate_intact chainId hs).failed rfl hrun).1
  · rcases hinv with ⟨-, -, -, -, hnone⟩ | ⟨stored, hs, -, hall, -⟩
    · rw [hnone] at hc
      cases hc
    · obtain rfl := hall chainId hc
      exact ⟨hs, fun other hother => hother.chainId_unique hs⟩

/-- A file of v1 whose `meta` claims this version and a cursor. -/
def leftoverFile : File :=
  { File.empty with
    metadata := some (versionMeta.insertIgnore ⟨"last_indexed", "41"⟩)
    blocks := some ⟨["number", "hash"], [["0", "0x00"]]⟩ }

/-- An open of that file killed after ten statements, and then an open that returns. -/
theorem migrate_isolates_leftover :
    (Intact 7 leftoverFile ∧
      ((WriterState.open ⟨leftoverFile, none, false, []⟩ 7 (some 10)).open 7 none).file =
        leftoverFile) ∨
      (Rebuildable leftoverFile ∧
        ((WriterState.open ⟨leftoverFile, none, false, []⟩ 7 (some 10)).open 7 none).file =
          (freshDb 7).toFile) := by
  have hstart : (writerSystem leftoverFile).Reachable ⟨leftoverFile, none, false, []⟩ := .init rfl
  have hkilled := hstart.step (a := .opening 7 (some 10)) rfl
  exact (migrate_isolates (StartFile.v1 (Or.inl rfl)) hkilled).1 7 none (by decide +kernel)
    (by decide +kernel)

end ExplorerIndexer
