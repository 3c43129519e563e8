import Mathlib.Data.List.Nodup
import Mathlib.Data.List.Perm.Basic

/-!
# Tables with a primary key

A table is a list of rows whose keys are distinct. The primary-key constraint is a field of the
structure, so no statement about a table has to carry it as a hypothesis, and the two writes below
cannot build a table that violates it.

The order of the list is the order of insertion. No lemma here lets a reader depend on it: rows
are found by key (`find?`), tested by membership, or counted.

## Main definitions

* `Table.find?` — the row with a given key
* `Table.insertIgnore` — insert a row unless its key is taken
* `Table.upsert` — insert a row, or update the stored one by an `OnConflict` clause
* `Table.insertAll` — a run of `insertIgnore`

## Main results

* `Table.mem_iff_find?` — membership and lookup say the same thing
* `Table.mem_insertAll_iff` — what a run of inserts leaves, when the rows agree on their keys
* `Table.countP_insertIgnore` — a count moves by exactly the reported number of changes
* `Table.find?_upsert` — an upsert is a point update of the lookup function
-/

variable {ρ κ : Type*}

/-- Rows with distinct keys. -/
structure Table (key : ρ → κ) where
  /-- The rows, in order of insertion. -/
  rows : List ρ
  /-- The primary-key constraint. -/
  nodup : (rows.map key).Nodup

/-- What an upsert does to the stored row when the key is taken: `update old excluded`. The
clause may not move the row to another key. -/
structure OnConflict (key : ρ → κ) where
  /-- The stored row after the conflict. -/
  update : ρ → ρ → ρ
  /-- The key stays. -/
  key_update : ∀ old new, key old = key new → key (update old new) = key new

namespace Table

variable {key : ρ → κ}

@[ext] theorem ext {t u : Table key} (h : t.rows = u.rows) : t = u := by
  cases t; cases u; simpa using h

instance [DecidableEq ρ] : DecidableEq (Table key) := fun t u =>
  decidable_of_iff (t.rows = u.rows) ⟨ext, congrArg rows⟩

/-- The table without rows. -/
def empty : Table key := ⟨[], List.nodup_nil⟩

@[simp] theorem rows_empty : (empty : Table key).rows = [] := rfl

theorem nodup_rows (t : Table key) : t.rows.Nodup := t.nodup.of_map

/-- Two stored rows with one key are one row. -/
theorem eq_of_key_eq (t : Table key) {r s : ρ} (hr : r ∈ t.rows) (hs : s ∈ t.rows)
    (h : key r = key s) : r = s :=
  List.inj_on_of_nodup_map t.nodup hr hs h

variable [DecidableEq κ]

/-- The row with key `k`, if there is one. -/
def find? (t : Table key) (k : κ) : Option ρ := t.rows.find? fun r => decide (key r = k)

@[simp] theorem find?_empty (k : κ) : (empty : Table key).find? k = none := rfl

theorem key_of_find? {t : Table key} {k : κ} {r : ρ} (h : t.find? k = some r) : key r = k := by
  simpa using List.find?_some h

theorem mem_of_find? {t : Table key} {k : κ} {r : ρ} (h : t.find? k = some r) : r ∈ t.rows :=
  List.mem_of_find?_eq_some h

theorem find?_eq_none_iff {t : Table key} {k : κ} :
    t.find? k = none ↔ ∀ r ∈ t.rows, key r ≠ k := by
  simp [find?]

/-- A key has a row when the lookup finds one. -/
theorem isSome_find?_iff {t : Table key} {k : κ} :
    (t.find? k).isSome ↔ ∃ r ∈ t.rows, key r = k := by
  rw [Option.isSome_iff_ne_none, ne_eq, find?_eq_none_iff]
  simp

/-- **Membership and lookup agree.** -/
theorem mem_iff_find? {t : Table key} {r : ρ} : r ∈ t.rows ↔ t.find? (key r) = some r := by
  refine ⟨fun hr => ?_, mem_of_find?⟩
  cases h : t.find? (key r) with
  | none => exact absurd rfl (find?_eq_none_iff.mp h r hr)
  | some s => rw [t.eq_of_key_eq (mem_of_find? h) hr (key_of_find? h)]

/-- A lookup depends only on which rows are there. -/
theorem find?_congr {t t' : Table key} (h : ∀ r, r ∈ t.rows ↔ r ∈ t'.rows) (k : κ) :
    t.find? k = t'.find? k := by
  cases hrow : t'.find? k with
  | none =>
    rw [find?_eq_none_iff] at hrow ⊢
    exact fun r hr => hrow r ((h r).mp hr)
  | some r =>
    have hfind := mem_iff_find?.mp ((h r).mpr (mem_of_find? hrow))
    rwa [key_of_find? hrow] at hfind

/-- Two tables that answer every lookup alike hold the same rows. -/
theorem perm_of_find?_eq {t u : Table key} (h : ∀ k, t.find? k = u.find? k) :
    t.rows.Perm u.rows := by
  rw [List.perm_ext_iff_of_nodup t.nodup_rows u.nodup_rows]
  intro r
  rw [mem_iff_find?, mem_iff_find?, h]

/-! ### Insert or ignore -/

/-- Insert `r` unless its key is taken. -/
def insertIgnore (t : Table key) (r : ρ) : Table key :=
  match h : t.find? (key r) with
  | some _ => t
  | none =>
    { rows := t.rows ++ [r]
      nodup := by
        have hfresh := find?_eq_none_iff.mp h
        rw [List.map_append, List.nodup_append]
        refine ⟨t.nodup, by simp, fun k hk k' hk' => ?_⟩
        obtain ⟨s, hs, rfl⟩ := List.mem_map.mp hk
        have hk'' : k' = key r := by simpa using hk'
        rw [hk'']
        exact hfresh s hs }

/-- The number of rows `insertIgnore` stores: `0` for an ignored row. -/
def changes (t : Table key) (r : ρ) : ℕ := if (t.find? (key r)).isSome then 0 else 1

theorem insertIgnore_of_some {t : Table key} {r s : ρ} (h : t.find? (key r) = some s) :
    t.insertIgnore r = t := by
  rw [insertIgnore]
  split
  · rfl
  · simp_all

theorem rows_insertIgnore_of_none {t : Table key} {r : ρ} (h : t.find? (key r) = none) :
    (t.insertIgnore r).rows = t.rows ++ [r] := by
  rw [insertIgnore]
  split
  · simp_all
  · rfl

theorem mem_insertIgnore {t : Table key} {r s : ρ} :
    s ∈ (t.insertIgnore r).rows ↔ s ∈ t.rows ∨ (s = r ∧ t.find? (key r) = none) := by
  cases h : t.find? (key r) with
  | none => simp [rows_insertIgnore_of_none h]
  | some u => simp [insertIgnore_of_some h]

theorem mem_insertIgnore_of_mem {t : Table key} {r s : ρ} (h : s ∈ t.rows) :
    s ∈ (t.insertIgnore r).rows :=
  mem_insertIgnore.mpr (Or.inl h)

theorem find?_insertIgnore (t : Table key) (r : ρ) (k : κ) :
    (t.insertIgnore r).find? k =
      (t.find? k).or (if key r = k then some r else none) := by
  cases h : t.find? (key r) with
  | none =>
    unfold find?
    rw [rows_insertIgnore_of_none h, List.find?_append]
    simp [List.find?_cons]
    split <;> simp_all
  | some u =>
    rw [insertIgnore_of_some h]
    split
    · next hk => rw [← hk, h]; rfl
    · simp

/-- A predicate's count moves by what the insert reports, when the row satisfies it. -/
theorem countP_insertIgnore (t : Table key) (r : ρ) (p : ρ → Bool) :
    (t.insertIgnore r).rows.countP p = t.rows.countP p + if p r then t.changes r else 0 := by
  rw [changes]
  cases h : t.find? (key r) with
  | none => rw [rows_insertIgnore_of_none h]; simp [List.countP_append, List.countP_singleton]
  | some u => rw [insertIgnore_of_some h]; simp

/-! ### A run of inserts -/

/-- Insert every row of a list, ignoring those whose key is taken. -/
def insertAll (t : Table key) (rs : List ρ) : Table key := rs.foldl insertIgnore t

@[simp] theorem insertAll_nil (t : Table key) : t.insertAll [] = t := rfl

@[simp] theorem insertAll_cons (t : Table key) (r : ρ) (rs : List ρ) :
    t.insertAll (r :: rs) = (t.insertIgnore r).insertAll rs := rfl

theorem mem_insertAll_of_mem {t : Table key} {s : ρ} (rs : List ρ) (h : s ∈ t.rows) :
    s ∈ (t.insertAll rs).rows := by
  induction rs generalizing t with
  | nil => exact h
  | cons r rs ih => exact ih (mem_insertIgnore_of_mem h)

theorem mem_or_mem_of_mem_insertAll {t : Table key} {rs : List ρ} {s : ρ}
    (h : s ∈ (t.insertAll rs).rows) : s ∈ t.rows ∨ s ∈ rs := by
  induction rs generalizing t with
  | nil => exact Or.inl h
  | cons r rs ih =>
    rcases ih h with h | h
    · rcases mem_insertIgnore.mp h with h | ⟨rfl, -⟩
      · exact Or.inl h
      · exact Or.inr (List.mem_cons_self ..)
    · exact Or.inr (List.mem_cons_of_mem _ h)

/-- A run of inserts appends some of its rows. -/
theorem rows_insertAll (t : Table key) (rs : List ρ) :
    ∃ added, (t.insertAll rs).rows = t.rows ++ added ∧ ∀ a ∈ added, a ∈ rs := by
  induction rs generalizing t with
  | nil => exact ⟨[], by simp, by simp⟩
  | cons r rs ih =>
    obtain ⟨added, hrows, hadded⟩ := ih (t.insertIgnore r)
    cases h : t.find? (key r) with
    | none =>
      refine ⟨r :: added, ?_, List.forall_mem_cons.mpr ⟨List.mem_cons_self .., fun a ha =>
        List.mem_cons_of_mem _ (hadded a ha)⟩⟩
      rw [insertAll_cons, hrows, rows_insertIgnore_of_none h, List.append_assoc]
      rfl
    | some s =>
      refine ⟨added, ?_, fun a ha => List.mem_cons_of_mem _ (hadded a ha)⟩
      rw [insertAll_cons, hrows, insertIgnore_of_some h]

/-- Every inserted key is present afterwards. -/
theorem exists_mem_insertAll {t : Table key} {rs : List ρ} {r : ρ} (h : r ∈ rs) :
    ∃ s ∈ (t.insertAll rs).rows, key s = key r := by
  induction rs generalizing t with
  | nil => cases h
  | cons r' rs ih =>
    rcases List.mem_cons.mp h with rfl | h
    · cases hf : t.find? (key r) with
      | none =>
        have hr : r ∈ (t.insertIgnore r).rows := mem_insertIgnore.mpr (Or.inr ⟨rfl, hf⟩)
        exact ⟨r, mem_insertAll_of_mem rs hr, rfl⟩
      | some s =>
        have hs : s ∈ (t.insertIgnore r).rows := mem_insertIgnore_of_mem (mem_of_find? hf)
        exact ⟨s, mem_insertAll_of_mem rs hs, key_of_find? hf⟩
    · exact ih h

/-- **What a run of inserts leaves.** When rows with one key are one row, among the stored and the
inserted rows together, nothing is lost to the conflict rule: the table holds exactly both. -/
theorem mem_insertAll_iff {t : Table key} {rs : List ρ}
    (hagree : ∀ r s, (r ∈ t.rows ∨ r ∈ rs) → (s ∈ t.rows ∨ s ∈ rs) → key r = key s → r = s)
    {s : ρ} : s ∈ (t.insertAll rs).rows ↔ s ∈ t.rows ∨ s ∈ rs := by
  refine ⟨mem_or_mem_of_mem_insertAll, ?_⟩
  rintro (h | h)
  · exact mem_insertAll_of_mem rs h
  · obtain ⟨u, hu, hk⟩ := exists_mem_insertAll (t := t) h
    rwa [← hagree u s (mem_or_mem_of_mem_insertAll hu) (Or.inr h) hk]

/-! ### Upsert -/

/-- Insert `r`, or update the stored row with its key by the conflict clause. -/
def upsert (c : OnConflict key) (t : Table key) (r : ρ) : Table key :=
  match h : t.find? (key r) with
  | none => t.insertIgnore r
  | some old =>
    { rows := t.rows.map fun s => if key s = key r then c.update old r else s
      nodup := by
        have hmap : (t.rows.map fun s => if key s = key r then c.update old r else s).map key =
            t.rows.map key := by
          rw [List.map_map]
          refine List.map_congr_left fun s _ => ?_
          by_cases hs : key s = key r
          · simp [hs, c.key_update old r (key_of_find? h)]
          · simp [hs]
        rw [hmap]
        exact t.nodup }

theorem upsert_of_none {c : OnConflict key} {t : Table key} {r : ρ}
    (h : t.find? (key r) = none) : t.upsert c r = t.insertIgnore r := by
  rw [upsert]
  split
  · rfl
  · simp_all

theorem rows_upsert_of_some {c : OnConflict key} {t : Table key} {r old : ρ}
    (h : t.find? (key r) = some old) :
    (t.upsert c r).rows = t.rows.map fun s => if key s = key r then c.update old r else s := by
  rw [upsert]
  split
  · simp_all
  · simp_all

/-- **An upsert is a point update of the lookup function.** -/
theorem find?_upsert (c : OnConflict key) (t : Table key) (r : ρ) (k : κ) :
    (t.upsert c r).find? k =
      if k = key r then some (((t.find? k).map fun old => c.update old r).getD r)
      else t.find? k := by
  cases h : t.find? (key r) with
  | none =>
    rw [upsert_of_none h, find?_insertIgnore]
    by_cases hk : k = key r
    · subst hk; simp [h]
    · simp [hk, Ne.symm hk]
  | some old =>
    have hold : key (c.update old r) = key r := c.key_update old r (key_of_find? h)
    by_cases hk : k = key r
    · subst hk
      have hmem : c.update old r ∈ (t.upsert c r).rows := by
        rw [rows_upsert_of_some h]
        exact List.mem_map.mpr ⟨old, mem_of_find? h, by simp [key_of_find? h]⟩
      rw [← hold, mem_iff_find?.mp hmem, hold, h]
      simp
    · rw [if_neg hk]
      unfold find?
      rw [rows_upsert_of_some h, List.find?_map]
      have hcomp : ((fun s => decide (key s = k)) ∘
          fun s => if key s = key r then c.update old r else s) = fun s => decide (key s = k) := by
        funext s
        by_cases hs : key s = key r
        · simp [hs, hold, Ne.symm hk]
        · simp [hs]
      rw [hcomp]
      cases hf : t.rows.find? fun s => decide (key s = k) with
      | none => rfl
      | some s =>
        have hs : key s = k := by simpa using List.find?_some hf
        have : ¬ key s = key r := fun hc => hk (hs.symm.trans hc)
        simp [this]

theorem find?_upsert_self (c : OnConflict key) (t : Table key) (r : ρ) :
    (t.upsert c r).find? (key r) =
      some (((t.find? (key r)).map fun old => c.update old r).getD r) := by
  rw [find?_upsert, if_pos rfl]

theorem find?_upsert_of_ne (c : OnConflict key) (t : Table key) {r : ρ} {k : κ} (h : k ≠ key r) :
    (t.upsert c r).find? k = t.find? k := by
  rw [find?_upsert, if_neg h]

/-- An upsert adds the key of its row and no other. -/
theorem isSome_find?_upsert (c : OnConflict key) (t : Table key) (r : ρ) (k : κ) :
    ((t.upsert c r).find? k).isSome ↔ k = key r ∨ (t.find? k).isSome := by
  rw [find?_upsert]
  split <;> simp_all

/-- `INSERT OR REPLACE`: the new row wins. -/
def replace (t : Table key) (r : ρ) : Table key := t.upsert ⟨fun _ new => new, fun _ _ _ => rfl⟩ r

theorem find?_replace (t : Table key) (r : ρ) (k : κ) :
    (t.replace r).find? k = if k = key r then some r else t.find? k := by
  rw [replace, find?_upsert]
  split
  · cases t.find? k <;> rfl
  · rfl

end Table
