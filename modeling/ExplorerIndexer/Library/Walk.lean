import ExplorerIndexer.Library.Page

/-!
# Walking a feed that grows

A client reads the pages of a feed one after the other, each at its own moment. In between, rows
come in front of the feed, and every row that was there moves on by as many places. So the client
can read a row twice, but it cannot miss one: a row that is not on the page at hand, nor on one
before, is still ahead.

## Main definitions

* `Page.Grows` — each feed is the one before, with rows in front
* `Page.Ends` — a page reaches the end of its feed

## Main results

* `Page.Grows.read_or_ahead` — the invariant of a walk
* `Page.Grows.exists_page` — a walk to the end has read every row that was there when it began
* `Page.suffix_of_sorted` — a sorted feed that gets rows that sort first grows in front
-/

namespace Page

variable {α : Type*}

/-- Each feed is the one before, with rows in front. -/
def Grows (feeds : ℕ → List α) : Prop := ∀ p, feeds p <:+ feeds (p + 1)

/-- Page `p` of size `k` reaches the end: it is not full, or the feed is not longer than the pages
up to this one. -/
def Ends (k p : ℕ) (feed : List α) : Prop :=
  (slice k (p * k) feed).length < k ∨ feed.length ≤ (p + 1) * k

theorem Ends.length_le {k p : ℕ} {feed : List α} (h : Ends k p feed) :
    feed.length ≤ (p + 1) * k := by
  rcases h with hshort | hle
  · rw [length_slice] at hshort
    rw [Nat.add_mul, Nat.one_mul]
    omega
  · exact hle

theorem mem_slice_of_getElem? {limit offset i : ℕ} {l : List α} {a : α} (h : l[i]? = some a)
    (hlow : offset ≤ i) (hhigh : i < offset + limit) : a ∈ slice limit offset l := by
  refine List.mem_of_getElem? (i := i - offset) ?_
  rw [slice, List.getElem?_take_of_lt (by omega), List.getElem?_drop, Nat.add_sub_cancel' hlow]
  exact h

section Walk

variable {feeds : ℕ → List α} {k n : ℕ} {a : α}

/-- Every feed is what is left of the later ones without some rows in front. -/
theorem Grows.suffix (h : Grows feeds) {p : ℕ} (hp : p ≤ n) : feeds p <:+ feeds n := by
  induction n, hp using Nat.le_induction with
  | base => exact List.suffix_rfl
  | succ n _ ih => exact ih.trans (h n)

/-- **A row is read or still ahead**, after every page of a walk. -/
theorem Grows.read_or_ahead (h : Grows feeds) (ha : a ∈ feeds 0) (n : ℕ) :
    (∃ p ≤ n, a ∈ slice k (p * k) (feeds p)) ∨
      ∃ i, (n + 1) * k ≤ i ∧ (feeds n)[i]? = some a := by
  induction n with
  | zero =>
    obtain ⟨i, hi⟩ := List.mem_iff_getElem?.mp ha
    by_cases hlt : i < k
    · exact .inl ⟨0, Nat.le_refl 0, mem_slice_of_getElem? hi (by omega) (by omega)⟩
    · exact .inr ⟨i, by omega, hi⟩
  | succ n ih =>
    rcases ih with ⟨p, hp, hread⟩ | ⟨i, hi, hget⟩
    · exact .inl ⟨p, Nat.le_succ_of_le hp, hread⟩
    · obtain ⟨new, hnew⟩ := h n
      have hmoved : (feeds (n + 1))[new.length + i]? = some a := by
        rw [← hnew, List.getElem?_append_right (Nat.le_add_right _ _), Nat.add_sub_cancel_left]
        exact hget
      have hpage : (n + 1 + 1) * k = (n + 1) * k + k := Nat.succ_mul _ _
      by_cases hlt : new.length + i < (n + 1) * k + k
      · exact .inl ⟨n + 1, Nat.le_refl _, mem_slice_of_getElem? hmoved (by omega) hlt⟩
      · exact .inr ⟨new.length + i, by omega, hmoved⟩

/-- **A walk to the end has read every row that was there when it began.** -/
theorem Grows.exists_page (h : Grows feeds) (hend : Ends k n (feeds n)) (ha : a ∈ feeds 0) :
    ∃ p ≤ n, a ∈ slice k (p * k) (feeds p) := by
  rcases h.read_or_ahead (k := k) ha n with hread | ⟨i, hi, hget⟩
  · exact hread
  · obtain ⟨hlt, -⟩ := List.getElem?_eq_some_iff.mp hget
    have := hend.length_le
    omega

end Walk

/-! ### Entries and rows -/

/-- Each row has an entry. -/
theorem exists_entry_of_mem {β : Type*} {r : α → β → Prop} {l : List α} {l' : List β}
    (h : List.Forall₂ r l l') {a : α} (ha : a ∈ l) : ∃ b ∈ l', r a b := by
  induction h with
  | nil => exact absurd ha List.not_mem_nil
  | @cons a' b l l' hab _ ih =>
    rcases List.mem_cons.mp ha with rfl | ha
    · exact ⟨b, List.mem_cons_self, hab⟩
    · obtain ⟨b', hb', hrel⟩ := ih ha
      exact ⟨b', List.mem_cons_of_mem b hb', hrel⟩

/-- Each entry has a row. -/
theorem exists_row_of_mem {β : Type*} {r : α → β → Prop} {l : List α} {l' : List β}
    (h : List.Forall₂ r l l') {b : β} (hb : b ∈ l') : ∃ a ∈ l, r a b :=
  exists_entry_of_mem h.flip hb

/-! ### Sorted feeds -/

/-- A sorted feed that gets rows that sort first grows in front. -/
theorem suffix_of_sorted {r : α → α → Prop} {l l' : List α}
    (hanti : ∀ a ∈ l', ∀ b ∈ l', r a b → r b a → a = b) (hl : l.Pairwise r) (hl' : l'.Pairwise r)
    (hnodup : l.Nodup) (hnodup' : l'.Nodup) (hsub : ∀ a ∈ l, a ∈ l')
    (hnew : ∀ a ∈ l', a ∉ l → ∀ b ∈ l, r a b) : l <:+ l' := by
  classical
  refine ⟨l'.filter (· ∉ l), ?_⟩
  have hmem : ∀ a ∈ l'.filter (· ∉ l), a ∈ l' ∧ a ∉ l := fun a ha => by
    simpa using List.mem_filter.mp ha
  have hperm : (l'.filter (· ∉ l) ++ l).Perm l' := by
    refine (List.perm_ext_iff_of_nodup ?_ hnodup').mpr fun a => ?_
    · exact (hnodup'.filter _).append hnodup fun a ha ha' => (hmem a ha).2 ha'
    · rw [List.mem_append, List.mem_filter, decide_eq_true_eq]
      exact ⟨fun h => h.elim And.left (hsub a),
        fun h => (em (a ∈ l)).symm.imp_left fun h' => ⟨h, h'⟩⟩
  refine hperm.eq_of_pairwise (fun a b ha hb => hanti a (hperm.mem_iff.mp ha) b hb) ?_ hl'
  rw [List.pairwise_append]
  exact ⟨hl'.filter _, hl, fun a ha b hb => hnew a (hmem a ha).1 (hmem a ha).2 b hb⟩

end Page
