import ExplorerIndexer.NodeReads

/-!
# Pages by arithmetic

Blocks, epochs and consensus outputs are numbered densely, so their lists are paged by arithmetic:
page `p` of `total` items is a range of indices, newest first. An operation that would leave the
64-bit range panics in the source and is an error here.

## Main definitions

* `descPageItems`, `consensusPageNumbers`, `consensusNumberStored` — the functions of the source

## Main results

* `descPageItems_eq` — a page is a slice of the indices, newest first
* `pages_partition` — the pages partition the range
-/

namespace ExplorerIndexer

/-- `+` on 64-bit numbers, which panics past the range. -/
def rawAdd (a b : ℕ) : Except Report ℕ :=
  if a + b < 2 ^ 64 then .ok (a + b) else .error "attempt to add with overflow"

/-- The item indices of a descending page, newest first. -/
def descPageItems (total page perPage : ℕ) : Except Report (List ℕ) := do
  match ← descPageBounds total page perPage with
  | some (low, high) => return (List.range' low (high + 1 - low)).reverse
  | none => return []

/-- The consensus output numbers of a descending page, newest first: outputs are numbered from
`1`. -/
def consensusPageNumbers (total page perPage : ℕ) : Except Report (List ℕ) := do
  (← descPageItems total page perPage).mapM (rawAdd · 1)

/-- Whether a number can name a stored consensus output: number `0` is the anchor before genesis. -/
def consensusNumberStored (number latest : ℕ) : Bool := number ≠ 0 && number ≤ latest

/-- The numbers of the stored outputs, newest first. -/
def storedNumbers (latest : ℕ) : List ℕ := (List.range latest).reverse.map (· + 1)

theorem mem_storedNumbers {number latest : ℕ} :
    number ∈ storedNumbers latest ↔ consensusNumberStored number latest = true := by
  simp only [storedNumbers, consensusNumberStored, List.mem_map, List.mem_reverse, List.mem_range,
    Bool.and_eq_true, decide_eq_true_eq]
  constructor
  · rintro ⟨index, hlt, rfl⟩
    exact ⟨Nat.succ_ne_zero index, hlt⟩
  · rintro ⟨hne, hle⟩
    exact ⟨number - 1, by omega, by omega⟩

theorem pairwise_storedNumbers (latest : ℕ) : (storedNumbers latest).Pairwise (· > ·) := by
  rw [storedNumbers, List.pairwise_map, List.pairwise_reverse]
  exact List.pairwise_lt_range.imp Nat.succ_lt_succ

section Pages

variable {total perPage : ℕ}

theorem slice_range {low count total : ℕ} (h : low + count ≤ total) :
    Page.slice count low (List.range total) = List.range' low count := by
  rw [Page.slice, List.range_eq_range', List.drop_range', Nat.zero_add, Nat.mul_one,
    List.take_range'_of_length_ge (by omega)]

/-- **A page is a slice of the indices, newest first.** -/
theorem descPageItems_eq (htotal : total < 2 ^ 64) (hpos : 1 ≤ perPage) (page : ℕ) :
    descPageItems total page perPage =
      .ok (Page.slice perPage (page * perPage) (List.range total).reverse) := by
  rw [descPageItems, descPageBounds_eq htotal]
  by_cases hpast : total ≤ page * perPage
  · rw [if_pos hpast, Page.slice_eq_nil (by rwa [List.length_reverse, List.length_range])]
    rfl
  · have hhigh : total - 1 - page * perPage + 1 + page * perPage = (List.range total).length := by
      rw [List.length_range]
      omega
    rw [if_neg hpast, Page.slice_reverse hpos hhigh rfl, slice_range (by omega)]
    rfl

/-- The numbers of a page are its indices, shifted. -/
theorem consensusPageNumbers_eq (htotal : total < 2 ^ 64) (hpos : 1 ≤ perPage) (page : ℕ) :
    consensusPageNumbers total page perPage =
      .ok (Page.slice perPage (page * perPage) (storedNumbers total)) := by
  rw [consensusPageNumbers, descPageItems_eq htotal hpos, storedNumbers, ← Page.map_slice]
  refine Fetch.mapM_eq_ok_map fun index hindex => ?_
  have hlt := List.mem_range.mp (List.mem_reverse.mp (Page.mem_of_mem_slice hindex))
  rw [rawAdd, if_pos (by omega)]

/-- **The pages partition the range.** For every total and page size: no operation leaves the 64-bit
range; the pages, concatenated, are the indices from `total - 1` down to `0`; a page has at most
`perPage` items, it is empty exactly past the end, and a shorter one is the last; and the pages of
consensus numbers, concatenated, are the numbers the detail route accepts, in descending order. -/
theorem pages_partition (htotal : total < 2 ^ 64) (hpos : 1 ≤ perPage) :
    (∀ n, ∃ pages, (List.range n).mapM (descPageItems total · perPage) = .ok pages ∧
      pages.flatten = (List.range total).reverse.take (n * perPage)) ∧
    (∀ page, ∃ items, descPageItems total page perPage = .ok items ∧ items.length ≤ perPage ∧
      (items = [] ↔ total ≤ page * perPage) ∧
      (items.length < perPage → ∀ later, page < later →
        descPageItems total later perPage = .ok [])) ∧
    (∀ n, ∃ pages, (List.range n).mapM (consensusPageNumbers total · perPage) = .ok pages ∧
      pages.flatten = (storedNumbers total).take (n * perPage)) ∧
    (∀ number, number ∈ storedNumbers total ↔ consensusNumberStored number total = true) ∧
    (storedNumbers total).Pairwise (· > ·) := by
  refine ⟨fun n => Page.exists_pages fun p _ => descPageItems_eq htotal hpos p, fun page => ?_,
    fun n => Page.exists_pages fun p _ => consensusPageNumbers_eq htotal hpos p,
    fun _ => mem_storedNumbers, pairwise_storedNumbers total⟩
  have hlength : (Page.slice perPage (page * perPage) (List.range total).reverse).length =
      min perPage (total - page * perPage) := by
    rw [Page.length_slice, List.length_reverse, List.length_range]
  refine ⟨_, descPageItems_eq htotal hpos page, by omega, ?_, fun hshort later hlater => ?_⟩
  · rw [← List.length_eq_zero_iff, hlength]
    omega
  · rw [descPageItems_eq htotal hpos, Page.slice_eq_nil]
    have hmul := Nat.mul_le_mul_right perPage (Nat.succ_le_of_lt hlater)
    rw [Nat.succ_mul] at hmul
    rw [List.length_reverse, List.length_range]
    omega

/-- Five items on pages of two, the last of them short. -/
theorem pages_partition_five : ∃ pages, (List.range 3).mapM (descPageItems 5 · 2) = .ok pages ∧
    pages.flatten = [4, 3, 2, 1, 0] ∧ ∀ later, 2 < later → descPageItems 5 later 2 = .ok [] := by
  obtain ⟨hflatten, hpages, -⟩ := @pages_partition 5 2 (by decide) (by decide)
  obtain ⟨pages, hrun, hflatten⟩ := hflatten 3
  obtain ⟨items, hitems, -, -, hlast⟩ := hpages 2
  refine ⟨pages, hrun, hflatten, hlast ?_⟩
  have heq : items = [0] := Except.ok.inj (hitems.symm.trans (by decide +kernel))
  rw [heq]
  decide

end Pages

end ExplorerIndexer
