import ExplorerIndexer.Queries
import ExplorerIndexer.WriterRuns

/-!
# Type counters

`tx_type_counts` holds one running total per transaction type. It is never recomputed: each block
adds the number of rows its inserts stored. The totals stay exact because the loop counts what
`INSERT OR IGNORE` reports, the upsert adds, and a call that does not commit changes neither table.

## Main definitions

* `CountsExact` — every total is the number of rows of its type
* `File.CountsExact` — the same of a file, where a missing table holds no rows

## Main results

* `CountsExact.applied` — a block keeps the totals exact, whatever its rows are
* `countTxType_exact` — they are exact after every call of every run
-/

namespace ExplorerIndexer

open Script (Triple)

/-- Every total is the number of rows of its type. -/
def CountsExact (db : Db) : Prop :=
  ∀ t, countTxType db t = db.txTypes.rows.countP (·.txType = t)

/-- The total a table of counters holds for a type. -/
def storedCount (counts : Table TypeCount.txType) (t : ℕ) : ℕ :=
  ((counts.find? t).map TypeCount.count).getD 0

theorem storedCount_upsert (counts : Table TypeCount.txType) (entry : ℕ × ℕ) (t : ℕ) :
    storedCount (counts.upsert addCount ⟨entry.1, entry.2⟩) t =
      storedCount counts t + if entry.1 = t then entry.2 else 0 := by
  unfold storedCount
  rw [Table.find?_upsert]
  by_cases h : t = entry.1
  · subst h
    cases counts.find? entry.1 <;> simp [addCount]
  · simp [h, Ne.symm h]

theorem storedCount_addTotals (counts : Table TypeCount.txType) (inserted : List (ℕ × ℕ)) (t : ℕ) :
    storedCount (addTotals counts inserted) t = storedCount counts t + totalFor t inserted := by
  induction inserted generalizing counts with
  | nil => rfl
  | cons entry inserted ih =>
    have hstep := ih (counts.upsert addCount ⟨entry.1, entry.2⟩)
    rw [storedCount_upsert] at hstep
    rw [totalFor_cons, ← Nat.add_assoc, ← hstep]
    rfl

/-- **A block keeps the totals exact**, whatever its rows are. -/
theorem CountsExact.applied {db : Db} (h : CountsExact db) (extracted : ExtractedBlock)
    (tokenRows : List TokenRow) : CountsExact (db.applied extracted tokenRows) := by
  intro t
  have hrows := countP_add_totalFor t extracted.txTypes [] db.txTypes
  rw [totalFor_nil, Nat.add_zero] at hrows
  calc countTxType (db.applied extracted tokenRows) t
      = storedCount db.txTypeCounts t + totalFor t (insertedCounts db.txTypes extracted.txTypes) :=
        storedCount_addTotals _ _ t
    _ = db.txTypes.rows.countP (·.txType = t) +
          totalFor t (insertedCounts db.txTypes extracted.txTypes) := by rw [← h t]; rfl
    _ = _ := hrows.symm

theorem CountsExact.indexBlock {db : Db} (h : CountsExact db) (extracted : ExtractedBlock)
    (tokenRows : List TokenRow) (budget : Option ℕ) :
    CountsExact (indexBlock extracted tokenRows ⟨db, budget⟩).2.store := by
  rcases store_indexBlock extracted tokenRows ⟨db, budget⟩ with ⟨heq, -⟩ | heq
  · rw [heq]
    exact h.applied extracted tokenRows
  · rw [heq]
    exact h

theorem countsExact_emptyDb (metadata : Table MetaRow.key) : CountsExact (emptyDb metadata) :=
  fun _ => rfl

/-! ### Files in the middle of a migration -/

/-- The rows of a table in the v3 shape; a missing table has none. -/
def currentRows {ρ κ : Type} {key : ρ → κ} : Option (Stored (Table key)) → Table key
  | some (.current t) => t
  | _ => .empty

/-- Every total a file holds is the number of rows of its type. -/
def File.CountsExact (f : File) : Prop :=
  ∀ t, storedCount (currentRows f.txTypeCounts) t =
    (currentRows f.txTypes).rows.countP (·.txType = t)

theorem countsExact_toFile {db : Db} : db.toFile.CountsExact ↔ CountsExact db := Iff.rfl

theorem Unwritten.currentRows {ρ κ : Type} {key : ρ → κ} {t : Option (Stored (Table key))}
    (h : Unwritten t) : currentRows t = .empty := by
  cases t with
  | none => rfl
  | some s => rw [h s rfl]; rfl

theorem File.Vacant.countsExact {f : File} (h : f.Vacant) : f.CountsExact := by
  intro t
  rw [h.txTypes.currentRows, h.txTypeCounts.currentRows]
  rfl

/-! ### Runs -/

/-- The totals are exact in a file that belongs to a chain. A run that started from no file has not
met type rows before its file belongs to one. -/
def CountsInvariant (f : File) (s : WriterState) : Prop :=
  (∀ chainId, Intact chainId s.file → s.file.CountsExact) ∧
    (f = File.empty → s.file.Vacant ∨ ∃ chainId, Intact chainId s.file)

theorem CountsInvariant.open {f : File} {s : WriterState} (h : CountsInvariant f s)
    (hw : WriterInvariant f s) (chainId : UInt64) (budget : Option ℕ) :
    CountsInvariant f (s.open chainId budget) := by
  have hstore : (s.open chainId budget).file = (migrate chainId ⟨s.file, budget⟩).2.store := by
    simp only [WriterState.open]
    split <;> rfl
  rcases hw with ⟨-, hs, -⟩ | ⟨stored, hs, -⟩
  · constructor
    · intro id hid
      rcases open_rebuildable hs chainId budget with heq | ⟨f', hf', heq⟩
      · rw [heq]
        exact countsExact_toFile.mpr (countsExact_emptyDb _)
      · rw [heq] at hid
        exact absurd hid (not_intact_of_rebuildable id hf')
    · intro hf
      refine Or.inl ?_
      rw [hstore]
      rcases h.2 hf with hnone | ⟨id, hid⟩
      · exact hnone.migrate chainId budget
      · exact absurd hid (not_intact_of_rebuildable id hs)
  · have hsame : (s.open chainId budget).file = s.file := by
      rcases open_intact hs chainId budget with ⟨heq, -⟩ | heq <;> rw [heq]
    rw [CountsInvariant]
    rw [hsame]
    exact h

theorem CountsInvariant.index {f : File} {s : WriterState} {chainId : UInt64} {db : Db}
    (h : CountsInvariant f s) (hs : Intact chainId s.file) (hdb : s.file.toDb = some db)
    (extracted : ExtractedBlock) (tokenRows : List TokenRow) (budget : Option ℕ) :
    CountsInvariant f (s.index chainId db extracted tokenRows budget) := by
  have hfile : (s.index chainId db extracted tokenRows budget).file =
      (indexBlock extracted tokenRows ⟨db, budget⟩).2.store.toFile := by
    simp only [WriterState.index]
    split <;> rfl
  have hexact := h.1 chainId hs
  rw [File.toDb_eq_some_iff.mp hdb] at hs hexact
  rw [CountsInvariant]
  rw [hfile]
  exact ⟨fun _ _ => countsExact_toFile.mpr
    ((countsExact_toFile.mp hexact).indexBlock extracted tokenRows budget),
    fun _ => Or.inr ⟨chainId, hs.indexBlock extracted tokenRows budget⟩⟩

theorem counts_invariant {f : File} (hf : StartFile f)
    (hexact : ∀ chainId, Intact chainId f → f.CountsExact) {s : WriterState}
    (hs : (writerSystem f).Reachable s) : CountsInvariant f s := by
  induction hs with
  | init h =>
    cases h
    refine ⟨hexact, ?_⟩
    rintro rfl
    exact Or.inl vacant_empty
  | @step s t call hs ht ih =>
    have hw := writer_invariant hf hs
    cases call with
    | opening chainId budget =>
      cases ht
      exact ih.open hw chainId budget
    | indexing extracted tokenRows budget =>
      obtain ⟨chainId, hwriter, ht⟩ := Option.bind_eq_some_iff.mp ht
      obtain ⟨db, hdb, ht⟩ := Option.bind_eq_some_iff.mp ht
      cases ht
      exact ih.index (intact_of_writer hf hs hwriter) hdb extracted tokenRows budget

/-- **Exact type counters.** After every call of a run that starts from no file, every total is the
number of rows of its type. From any other start file the same holds as long as a writer is open:
an outdated file is rebuilt, and the totals of one of this version, exact when the program left it,
stay so. -/
theorem countTxType_exact {f : File} (hf : StartFile f)
    (hexact : ∀ chainId, Intact chainId f → f.CountsExact) {s : WriterState}
    (hs : (writerSystem f).Reachable s) :
    (f = File.empty → s.file.CountsExact) ∧
      (∀ chainId, s.writer = some chainId → ∃ db, s.file = db.toFile ∧
        ∀ t, countTxType db t = db.txTypes.rows.countP (·.txType = t)) := by
  have hinv := counts_invariant hf hexact hs
  constructor
  · intro hempty
    rcases hinv.2 hempty with hnone | ⟨chainId, hid⟩
    · exact hnone.countsExact
    · exact hinv.1 chainId hid
  · intro chainId hwriter
    have hid := intact_of_writer hf hs hwriter
    have hcounts := hinv.1 chainId hid
    obtain ⟨db, hdb, -⟩ := hid
    refine ⟨db, hdb, ?_⟩
    rw [hdb] at hcounts
    exact hcounts

/-- A block whose type rows repeat and name other blocks. -/
def repeatingBlock : ExtractedBlock :=
  ⟨5, [], [⟨2, 5, 0⟩, ⟨2, 5, 0⟩, ⟨0, 9, 9⟩, ⟨2, 5, 0⟩], [], [], none⟩

/-- An open killed in the middle of the DDL, an open that returns, and a block with repeated
rows. -/
theorem countTxType_exact_repeating :
    ∃ s, (writerSystem File.empty).run ⟨File.empty, none, false, []⟩
      [.opening 7 (some 8), .opening 7 none, .indexing repeatingBlock [] none] = some s ∧
        s.file.CountsExact := by
  have hrun : ((writerSystem File.empty).run ⟨File.empty, none, false, []⟩
      [.opening 7 (some 8), .opening 7 none, .indexing repeatingBlock [] none]).isSome := by
    decide +kernel
  obtain ⟨s, hs⟩ := Option.isSome_iff_exists.mp hrun
  exact ⟨s, hs, (countTxType_exact StartFile.empty
    (fun id h => absurd h (not_intact_of_rebuildable id (Or.inr (Or.inl rfl))))
    ((TransitionSystem.Reachable.init rfl).trans_run hs)).1 rfl⟩

end ExplorerIndexer
