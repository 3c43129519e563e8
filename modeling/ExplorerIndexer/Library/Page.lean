import ExplorerIndexer.Library.Fetch
import Mathlib.Data.List.Forall2
import Mathlib.Data.List.Sort
import Mathlib.Data.List.Nodup

/-!
# Pages of a sorted feed

A page is what `LIMIT limit OFFSET offset` leaves of a list. The list is a sorted feed: the rows a
query selects, in an order in which no two of them tie.

## Main definitions

* `Page.slice` — `LIMIT` and `OFFSET`

## Main results

* `flatMap_slice`, `exists_pages` — consecutive pages, concatenated, are a prefix of the feed
* `slice_append_eq_iff` — when rows are put in front of a feed, a page changes unless it is past
  the end
* `insertionSort_eq_of_perm`, `filter_insertionSort`, `insertionSort_append` — the sorted feed is
  determined by its rows, and sorting commutes with selecting and with putting newer rows in front
-/

namespace Page

variable {α : Type*}

/-- `LIMIT limit OFFSET offset`. -/
def slice (limit offset : ℕ) (l : List α) : List α := (l.drop offset).take limit

theorem length_slice (limit offset : ℕ) (l : List α) :
    (slice limit offset l).length = min limit (l.length - offset) := by
  rw [slice, List.length_take, List.length_drop]

theorem mem_of_mem_slice {limit offset : ℕ} {l : List α} {a : α} (h : a ∈ slice limit offset l) :
    a ∈ l :=
  List.mem_of_mem_drop (List.mem_of_mem_take h)

theorem slice_eq_nil {limit offset : ℕ} {l : List α} (h : l.length ≤ offset) :
    slice limit offset l = [] := by
  rw [slice, List.drop_eq_nil_of_le h, List.take_nil]

theorem map_slice {β : Type*} (f : α → β) (limit offset : ℕ) (l : List α) :
    (slice limit offset l).map f = slice limit offset (l.map f) := by
  rw [slice, slice, List.map_take, List.map_drop]

/-- Entry by entry related feeds have related pages. -/
theorem forall₂_slice {β : Type*} {r : α → β → Prop} {l : List α} {l' : List β}
    (h : List.Forall₂ r l l') (limit offset : ℕ) :
    List.Forall₂ r (slice limit offset l) (slice limit offset l') :=
  List.forall₂_take _ (List.forall₂_drop _ h)

/-- A page counted from the end is the range `low ..= high` of indices, backwards. -/
theorem slice_reverse {limit offset low high : ℕ} {l : List α} (hlimit : 0 < limit)
    (hhigh : high + 1 + offset = l.length) (hlow : low = high - (limit - 1)) :
    slice limit offset l.reverse = (slice (high + 1 - low) low l).reverse := by
  have hm : l.length - offset = high + 1 := by omega
  have hlen : (l.take (high + 1)).length = high + 1 := by rw [List.length_take]; omega
  rw [slice, List.drop_reverse, hm, List.take_reverse, hlen, List.drop_take, slice, hlow]
  congr 3 <;> omega

/-- An entry of a feed stands on the page that its index says. -/
theorem mem_slice_div {k i : ℕ} {l : List α} {a : α} (hk : 0 < k) (h : l[i]? = some a) :
    a ∈ slice k (i / k * k) l := by
  have hget : (slice k (i / k * k) l)[i % k]? = some a := by
    rw [slice, List.getElem?_take_of_lt (Nat.mod_lt i hk), List.getElem?_drop, Nat.div_add_mod', h]
  exact List.mem_of_getElem? hget

/-- **Consecutive pages are a prefix of the feed.** -/
theorem flatMap_slice (k n : ℕ) (l : List α) :
    ((List.range n).flatMap fun p => slice k (p * k) l) = l.take (n * k) := by
  induction n with
  | zero => simp
  | succ n ih =>
    rw [List.range_succ, List.flatMap_append, ih, List.flatMap_singleton, Nat.add_mul, Nat.one_mul,
      List.take_add, slice]

/-- Pages that are read one by one, concatenated. -/
theorem exists_pages {ε : Type*} {α : Type*} {page : ℕ → Except ε (List α)} {k n : ℕ} {l : List α}
    (hpage : ∀ p < n, page p = .ok (slice k (p * k) l)) :
    ∃ pages, (List.range n).mapM page = .ok pages ∧ pages.flatten = l.take (n * k) := by
  refine ⟨_, Fetch.mapM_eq_ok_map fun p hp => hpage p (List.mem_range.mp hp), ?_⟩
  rw [← List.flatMap_def, flatMap_slice]

/-- **A page of a feed survives new rows in front of it only past the end.** -/
theorem slice_append_eq_iff {limit offset : ℕ} {new old : List α} (hnew : new ≠ [])
    (hnodup : (new ++ old).Nodup) (hlimit : 0 < limit) :
    slice limit offset old = slice limit offset (new ++ old) ↔
      (new ++ old).length ≤ offset := by
  constructor
  · intro h
    by_contra hlt
    rw [not_le] at hlt
    have hhead : (slice limit offset (new ++ old))[0]? = some (new ++ old)[offset] := by
      rw [slice, List.getElem?_take_of_lt hlimit, List.getElem?_drop, Nat.add_zero,
        List.getElem?_eq_getElem hlt]
    rw [← h, slice, List.getElem?_take_of_lt hlimit, List.getElem?_drop, Nat.add_zero] at hhead
    obtain ⟨hold, hget⟩ := List.getElem?_eq_some_iff.mp hhead
    -- The same row would stand at two places of the longer feed.
    have hlt' : new.length + offset < (new ++ old).length := by rw [List.length_append]; omega
    have hshift : (new ++ old)[new.length + offset] = (new ++ old)[offset] := by
      rw [List.getElem_append_right (by omega), ← hget]
      congr 1
      omega
    have hlen := List.length_pos_iff.mpr hnew
    have := (hnodup.getElem_inj_iff).mp hshift
    omega
  · intro hle
    have hold : old.length ≤ offset := by rw [List.length_append] at hle; omega
    rw [slice_eq_nil hle, slice_eq_nil hold]

/-! ### Sorted feeds -/

/-- The entries of a list stand in the order of their indices. -/
theorem pairwise_zipIdx (l : List α) : l.zipIdx.Pairwise fun e f => e.2 < f.2 := by
  rw [← List.pairwise_map (f := Prod.snd), List.zipIdx_map_snd]
  exact List.pairwise_lt_range'

variable (r : α → α → Prop) [DecidableRel r] [Std.Total r] [IsTrans α r]

/-- **The sorted feed is determined by its rows.** -/
theorem insertionSort_eq_of_perm {l₁ l₂ : List α}
    (hanti : ∀ a ∈ l₁, ∀ b ∈ l₁, r a b → r b a → a = b) (h : l₁.Perm l₂) (hsorted : l₂.Pairwise r) :
    l₁.insertionSort r = l₂ :=
  ((l₁.perm_insertionSort r).trans h).eq_of_pairwise
    (fun a b ha hb => hanti a ((List.mem_insertionSort r).mp ha) b (h.mem_iff.mpr hb))
    (List.pairwise_insertionSort r l₁) hsorted

theorem insertionSort_congr {l₁ l₂ : List α}
    (hanti : ∀ a ∈ l₁, ∀ b ∈ l₁, r a b → r b a → a = b) (h : l₁.Perm l₂) :
    l₁.insertionSort r = l₂.insertionSort r :=
  insertionSort_eq_of_perm r hanti (h.trans (l₂.perm_insertionSort r).symm)
    (List.pairwise_insertionSort r l₂)

/-- Sorting commutes with selecting. -/
theorem filter_insertionSort (p : α → Bool) {l : List α}
    (hanti : ∀ a ∈ l, ∀ b ∈ l, r a b → r b a → a = b) :
    (l.insertionSort r).filter p = (l.filter p).insertionSort r := by
  refine (insertionSort_eq_of_perm r ?_ ((l.perm_insertionSort r).filter p).symm
    ((List.pairwise_insertionSort r l).filter p)).symm
  exact fun a ha b hb => hanti a (List.mem_filter.mp ha).1 b (List.mem_filter.mp hb).1

/-- Newer rows come in front, wherever the table has them. -/
theorem insertionSort_append {old new : List α}
    (hanti : ∀ a ∈ old ++ new, ∀ b ∈ old ++ new, r a b → r b a → a = b)
    (hnew : ∀ a ∈ new, ∀ b ∈ old, r a b) :
    (old ++ new).insertionSort r = new.insertionSort r ++ old.insertionSort r := by
  refine insertionSort_eq_of_perm r hanti (List.perm_append_comm.trans
    ((new.perm_insertionSort r).append (old.perm_insertionSort r)).symm) ?_
  rw [List.pairwise_append]
  refine ⟨List.pairwise_insertionSort r new, List.pairwise_insertionSort r old, fun a ha b hb => ?_⟩
  exact hnew a ((List.mem_insertionSort r).mp ha) b ((List.mem_insertionSort r).mp hb)

end Page
