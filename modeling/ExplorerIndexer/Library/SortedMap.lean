import Mathlib.Algebra.BigOperators.Group.List.Lemmas
import Mathlib.Algebra.GroupWithZero.Nat
import Mathlib.Data.List.Dedup

/-!
# Maps in key order

A map as its entries in the order of their keys. The order is a field of the structure; in
particular no key has two entries. A lookup sees the last write to its key, and iterating the map
gives the entries in order.

## Main definitions

* `SortedMap.find?`, `SortedMap.update`, `SortedMap.insert` — a lookup and the two writes
* `SortedMap.tally` — how often each key occurs in a list

## Main results

* `mem_entries_iff` — iterating and looking up say the same thing
* `find?_update`, `find?_insert` — a write is a point update of the lookup function
* `find?_foldl_insert` — of a list of writes, a lookup sees the last one to its key
* `find?_tally`, `sum_tally` — a tally holds the number of occurrences of every key that occurs, and
  the numbers add up to the length of the list
-/

variable {κ ν : Type*}

/-- Entries with strictly ascending keys. -/
structure SortedMap (κ ν : Type*) [LT κ] where
  entries : List (κ × ν)
  /-- The keys ascend. -/
  sorted : entries.Pairwise fun e e' => e.1 < e'.1

namespace SortedMap

/-- The map without entries. -/
def empty [LT κ] : SortedMap κ ν := ⟨[], List.Pairwise.nil⟩

/-- The value at `k`. -/
def find? [LT κ] [DecidableEq κ] (m : SortedMap κ ν) (k : κ) : Option ν :=
  (m.entries.find? fun e => decide (e.1 = k)).map Prod.snd

/-- Replace the value at `k`, or give `k` its first one. -/
def updateEntries [LT κ] [DecidableLT κ] [DecidableEq κ] (k : κ) (f : Option ν → ν) :
    List (κ × ν) → List (κ × ν)
  | [] => [(k, f none)]
  | e :: es =>
    if k < e.1 then (k, f none) :: e :: es
    else if e.1 = k then (k, f (some e.2)) :: es
    else e :: updateEntries k f es

theorem mem_updateEntries_key [LT κ] [DecidableLT κ] [DecidableEq κ] {k : κ} {f : Option ν → ν}
    {es : List (κ × ν)} {e : κ × ν}
    (h : e ∈ updateEntries k f es) : e.1 = k ∨ e ∈ es := by
  induction es with
  | nil => simp_all [updateEntries]
  | cons e' es ih =>
    rw [updateEntries] at h
    split at h
    · rcases List.mem_cons.mp h with rfl | h
      · exact Or.inl rfl
      · exact Or.inr h
    · split at h
      · rcases List.mem_cons.mp h with rfl | h
        · exact Or.inl rfl
        · exact Or.inr (List.mem_cons_of_mem _ h)
      · rcases List.mem_cons.mp h with rfl | h
        · exact Or.inr (List.mem_cons_self ..)
        · exact (ih h).imp_right (List.mem_cons_of_mem _)

variable [LE κ] [LT κ] [Std.LawfulOrderLT κ]

/-- No key has two entries. -/
theorem nodup_keys (m : SortedMap κ ν) : (m.entries.map Prod.fst).Nodup := by
  refine List.pairwise_map.mpr (m.sorted.imp fun {e e'} h heq => ?_)
  rw [heq] at h
  exact Std.lt_irrefl h

variable [DecidableEq κ]

/-- **Iterating and looking up agree.** -/
theorem mem_entries_iff {m : SortedMap κ ν} {k : κ} {v : ν} :
    (k, v) ∈ m.entries ↔ m.find? k = some v := by
  constructor
  · intro h
    have hsome : (m.entries.find? fun e => decide (e.1 = k)).isSome :=
      List.find?_isSome.mpr ⟨(k, v), h, by simp⟩
    obtain ⟨e, he⟩ := Option.isSome_iff_exists.mp hsome
    have hkey : e.1 = k := by simpa using List.find?_some he
    have heq : e = (k, v) :=
      List.inj_on_of_nodup_map m.nodup_keys (List.mem_of_find?_eq_some he) h hkey
    rw [find?, he, heq]
    rfl
  · intro h
    obtain ⟨e, he, hv⟩ := Option.map_eq_some_iff.mp h
    have hkey : e.1 = k := by simpa using List.find?_some he
    have heq : e = (k, v) := Prod.ext hkey hv
    exact heq ▸ List.mem_of_find?_eq_some he

variable [DecidableLT κ] [Std.IsLinearOrder κ]

theorem sorted_updateEntries (k : κ) (f : Option ν → ν) {es : List (κ × ν)}
    (h : es.Pairwise fun e e' => e.1 < e'.1) :
    (updateEntries k f es).Pairwise fun e e' => e.1 < e'.1 := by
  induction es with
  | nil => exact List.pairwise_singleton _ _
  | cons e es ih =>
    obtain ⟨hhead, htail⟩ := List.pairwise_cons.mp h
    rw [updateEntries]
    split
    · next hlt =>
      refine List.pairwise_cons.mpr ⟨fun e' he' => ?_, h⟩
      rcases List.mem_cons.mp he' with rfl | he'
      · exact hlt
      · exact Std.lt_trans hlt (hhead e' he')
    · next hge =>
      split
      · next heq => exact List.pairwise_cons.mpr ⟨fun e' he' => heq ▸ hhead e' he', htail⟩
      · next hne =>
        refine List.pairwise_cons.mpr ⟨fun e' he' => ?_, ih htail⟩
        rcases mem_updateEntries_key he' with hk | he'
        · rw [hk]
          rcases Std.lt_trichotomy k e.1 with hlt | heq | hgt
          · exact absurd hlt hge
          · exact absurd heq.symm hne
          · exact hgt
        · exact hhead e' he'

/-- Replace the value at `k`, or give `k` its first one. -/
def update (m : SortedMap κ ν) (k : κ) (f : Option ν → ν) : SortedMap κ ν :=
  ⟨updateEntries k f m.entries, sorted_updateEntries k f m.sorted⟩

/-- Store `v` at `k`. -/
def insert (m : SortedMap κ ν) (k : κ) (v : ν) : SortedMap κ ν := m.update k fun _ => v

theorem find?_updateEntries (k : κ) (f : Option ν → ν) {es : List (κ × ν)}
    (h : es.Pairwise fun e e' => e.1 < e'.1) (k' : κ) :
    ((updateEntries k f es).find? fun e => decide (e.1 = k')).map Prod.snd =
      if k' = k then some (f ((es.find? fun e => decide (e.1 = k)).map Prod.snd))
      else (es.find? fun e => decide (e.1 = k')).map Prod.snd := by
  induction es with
  | nil =>
    by_cases hk : k' = k
    · simp [updateEntries, hk]
    · simp [updateEntries, hk, Ne.symm hk]
  | cons e es ih =>
    obtain ⟨hhead, htail⟩ := List.pairwise_cons.mp h
    rw [updateEntries]
    split
    · next hlt =>
      -- every stored key is above `k`
      have hfresh : (e :: es).find? (fun e => decide (e.1 = k)) = none := by
        refine List.find?_eq_none.mpr fun e' he' => ?_
        have hlt' : k < e'.1 := by
          rcases List.mem_cons.mp he' with rfl | he'
          · exact hlt
          · exact Std.lt_trans hlt (hhead e' he')
        simpa using fun heq : e'.1 = k => Std.lt_irrefl (heq ▸ hlt')
      rw [hfresh]
      by_cases hk : k' = k
      · simp [hk]
      · rw [List.find?_cons_of_neg (by simpa using Ne.symm hk), if_neg hk]
    · split
      · next heq =>
        subst heq
        by_cases hk : k' = e.1
        · simp [hk]
        · rw [List.find?_cons_of_neg (by simpa using Ne.symm hk), if_neg hk,
            List.find?_cons_of_neg (by simpa using Ne.symm hk)]
      · next hne =>
        have hskip : (e :: es).find? (fun e => decide (e.1 = k)) =
            es.find? fun e => decide (e.1 = k) :=
          List.find?_cons_of_neg (by simpa using hne)
        rw [hskip]
        by_cases hk' : e.1 = k'
        · have hk : k' ≠ k := fun hc => hne (hk'.trans hc)
          rw [List.find?_cons_of_pos (by simpa using hk'), if_neg hk,
            List.find?_cons_of_pos (by simpa using hk')]
        · rw [List.find?_cons_of_neg (by simpa using hk'), ih htail,
            List.find?_cons_of_neg (by simpa using hk')]

/-- **An update is a point update of the lookup function.** -/
theorem find?_update (m : SortedMap κ ν) (k : κ) (f : Option ν → ν) (k' : κ) :
    (m.update k f).find? k' = if k' = k then some (f (m.find? k)) else m.find? k' :=
  find?_updateEntries k f m.sorted k'

theorem find?_insert (m : SortedMap κ ν) (k : κ) (v : ν) (k' : κ) :
    (m.insert k v).find? k' = if k' = k then some v else m.find? k' :=
  find?_update m k _ k'

/-- **Values stored under their keys, one after the other**: a lookup sees the last with its key. -/
theorem find?_foldl_insert (key : ν → κ) (vs : List ν) (m : SortedMap κ ν) (k : κ) :
    (vs.foldl (fun m v => m.insert (key v) v) m).find? k =
      (vs.reverse.find? fun v => key v = k).or (m.find? k) := by
  induction vs generalizing m with
  | nil => rfl
  | cons v vs ih =>
    rw [List.foldl_cons, ih, find?_insert, List.reverse_cons, List.find?_append, Option.or_assoc]
    by_cases hk : key v = k
    · rw [List.find?_cons_of_pos (by simpa using hk), if_pos hk.symm, Option.some_or]
    · rw [List.find?_cons_of_neg (by simpa using hk), if_neg (Ne.symm hk), List.find?_nil,
        Option.none_or]

/-! ### Tallies -/

/-- Count one occurrence of `k`. -/
def increment (m : SortedMap κ ℕ) (k : κ) : SortedMap κ ℕ := m.update k fun n => n.getD 0 + 1

/-- The number of occurrences of every key of a list. -/
def tally (ks : List κ) : SortedMap κ ℕ := ks.foldl increment empty

theorem find?_foldl_increment (ks : List κ) (m : SortedMap κ ℕ) (k : κ) :
    (ks.foldl increment m).find? k =
      if k ∈ ks then some ((m.find? k).getD 0 + ks.count k) else m.find? k := by
  induction ks generalizing m with
  | nil => simp
  | cons k' ks ih =>
    rw [List.foldl_cons, ih, increment, find?_update]
    by_cases hk : k = k'
    · subst hk
      by_cases hmem : k ∈ ks
      · simp [hmem]
        omega
      · simp [hmem, List.count_eq_zero_of_not_mem hmem]
    · by_cases hmem : k ∈ ks <;> simp [hk, hmem, Ne.symm hk]

/-- **A tally counts the keys that occur.** -/
theorem find?_tally (ks : List κ) (k : κ) :
    (tally ks).find? k = if k ∈ ks then some (ks.count k) else none := by
  rw [tally, find?_foldl_increment]
  simp [find?, empty]

theorem mem_tally_iff {ks : List κ} {k : κ} {n : ℕ} :
    (k, n) ∈ (tally ks).entries ↔ k ∈ ks ∧ n = ks.count k := by
  rw [mem_entries_iff, find?_tally]
  split <;> simp_all [eq_comm]

/-- The keys of a tally are the keys that occur. -/
theorem perm_keys_tally (ks : List κ) : ((tally ks).entries.map Prod.fst).Perm ks.dedup := by
  rw [List.perm_ext_iff_of_nodup (nodup_keys _) (List.nodup_dedup ks)]
  intro k
  simp [List.mem_map, mem_tally_iff]

/-- **A tally loses nothing**: its numbers add up to the length of the list. -/
theorem sum_tally (ks : List κ) : ((tally ks).entries.map Prod.snd).sum = ks.length := by
  have hvalues : (tally ks).entries.map Prod.snd =
      ((tally ks).entries.map Prod.fst).map fun k => ks.count k := by
    rw [List.map_map]
    exact List.map_congr_left fun e he => (mem_tally_iff.mp he).2
  rw [hvalues, ((perm_keys_tally ks).map _).sum_eq, List.sum_map_count_dedup_eq_length]

end SortedMap
