import ExplorerIndexer.Library.Telescope
import ExplorerIndexer.NodeReads
import Mathlib.Algebra.Order.BigOperators.Group.List
import Mathlib.Algebra.Order.Group.Nat

/-!
# The split of a block's gas

A receipt carries the gas its block has used so far; a transaction shows the gas it used itself.
`own_gas_used` takes the difference of two receipts, saturating at zero, so a wrong index would go
unnoticed. Over receipts in the order of their cumulative gas it is an exact split.

## Main definitions

* `gasUsedFromCumulative` — the own gas of every receipt of a block
* `gasThrough` — the gas of a block's first transactions, read off the receipts

## Main results

* `gasUsedFromCumulative_eq` — the own gas is the difference of consecutive totals
* `ownGasUsed_exact` — the own gas of the first transactions adds up to their receipts' cumulative
  gas, no subtraction saturates, and the receipts' totals come back from the split
* `pairwise_cumulativeGasUsed`, `gasUsedFromCumulative_chain` — the receipts of a chain are in that
  order, and their split is the gas each transaction used
-/

namespace ExplorerIndexer

open Telescope

/-- The own gas of every receipt. -/
def gasUsedFromCumulative (receipts : List Receipt) : List ℕ :=
  (List.range receipts.length).map (ownGasUsed receipts)

/-- The gas of the first `k` transactions: the cumulative gas of receipt `k - 1`, and nothing for
none. -/
def gasThrough (receipts : List Receipt) : ℕ → ℕ
  | 0 => 0
  | i + 1 => (receipts[i]?.map Receipt.cumulativeGasUsed).getD 0

/-- The own gas of a receipt with one before it. -/
theorem ownGasUsed_succ {receipts : List Receipt} {i : ℕ} {prev this : Receipt}
    (hprev : receipts[i]? = some prev) (hthis : receipts[i + 1]? = some this) :
    ownGasUsed receipts (i + 1) = this.cumulativeGasUsed - prev.cumulativeGasUsed := by
  simp [ownGasUsed, checkedSub, hprev, hthis]

theorem ownGasUsed_zero {receipts : List Receipt} {this : Receipt}
    (hthis : receipts[0]? = some this) : ownGasUsed receipts 0 = this.cumulativeGasUsed := by
  simp [ownGasUsed, checkedSub, hthis]

/-- **The own gas is the difference of consecutive totals**, the first of them above zero. -/
theorem gasUsedFromCumulative_eq (receipts : List Receipt) :
    gasUsedFromCumulative receipts =
      differences 0 (receipts.map Receipt.cumulativeGasUsed) := by
  refine List.ext_getElem (by simp [gasUsedFromCumulative]) fun i hi _ => ?_
  have hlen : i < receipts.length := by simpa [gasUsedFromCumulative] using hi
  have hthis := List.getElem?_eq_getElem hlen
  cases i with
  | zero => simp [gasUsedFromCumulative, differences, ownGasUsed_zero hthis]
  | succ i =>
    have hprev : receipts[i]? = some receipts[i] := List.getElem?_eq_getElem (by omega)
    simp [gasUsedFromCumulative, differences, ownGasUsed_succ hprev hthis]

/-- The gas of the first transactions is a total, above zero. -/
theorem getElem?_zero_cons_totals {receipts : List Receipt} {k : ℕ} (hk : k ≤ receipts.length) :
    (0 :: receipts.map Receipt.cumulativeGasUsed)[k]? = some (gasThrough receipts k) := by
  cases k with
  | zero => rfl
  | succ i =>
    have hthis : receipts[i]? = some receipts[i] := List.getElem?_eq_getElem hk
    rw [List.getElem?_cons_succ, List.getElem?_map, gasThrough, hthis]
    rfl

theorem sum_ownGasUsed_take {receipts : List Receipt} {k : ℕ} (hk : k ≤ receipts.length) :
    ((List.range k).map (ownGasUsed receipts)).sum =
      ((gasUsedFromCumulative receipts).take k).sum := by
  rw [gasUsedFromCumulative, ← List.map_take, List.take_range, Nat.min_eq_left hk]

/-- **Own gas is an exact split of the block's gas.** Over receipts with non-decreasing cumulative
gas, the own gas of the first `k` transactions adds up to the cumulative gas of receipt `k - 1`; no
subtraction saturates; all of it adds up to the gas of the block; and the running totals of the
split are the receipts' totals. -/
theorem ownGasUsed_exact {receipts : List Receipt}
    (hmono : receipts.Pairwise fun r r' => r.cumulativeGasUsed ≤ r'.cumulativeGasUsed) :
    (∀ k ≤ receipts.length,
      ((List.range k).map (ownGasUsed receipts)).sum = gasThrough receipts k) ∧
    (∀ i prev this, receipts[i]? = some prev → receipts[i + 1]? = some this →
      checkedSub this.cumulativeGasUsed prev.cumulativeGasUsed =
        some (ownGasUsed receipts (i + 1))) ∧
    (gasUsedFromCumulative receipts).sum =
      (receipts.getLast?.map Receipt.cumulativeGasUsed).getD 0 ∧
    runningTotals 0 (gasUsedFromCumulative receipts) =
      receipts.map Receipt.cumulativeGasUsed := by
  have htotals : (0 :: receipts.map Receipt.cumulativeGasUsed).Pairwise (· ≤ ·) :=
    List.pairwise_cons.mpr ⟨fun _ _ => Nat.zero_le _, List.pairwise_map.mpr hmono⟩
  have hsum : ∀ k ≤ receipts.length,
      ((List.range k).map (ownGasUsed receipts)).sum = gasThrough receipts k := by
    intro k hk
    have htele := getElem?_totals htotals (k := k) (by rwa [List.length_map])
    rw [getElem?_zero_cons_totals hk, Nat.zero_add, Option.some.injEq] at htele
    rw [sum_ownGasUsed_take hk, gasUsedFromCumulative_eq, htele]
  refine ⟨hsum, fun i prev this hprev hthis => ?_, ?_, ?_⟩
  · have hlt : i + 1 < receipts.length := (List.getElem?_eq_some_iff.mp hthis).1
    have hle : prev.cumulativeGasUsed ≤ this.cumulativeGasUsed := by
      obtain ⟨_, rfl⟩ := List.getElem?_eq_some_iff.mp hprev
      obtain ⟨_, rfl⟩ := List.getElem?_eq_some_iff.mp hthis
      exact List.pairwise_iff_getElem.mp hmono i (i + 1) (by omega) hlt (Nat.lt_succ_self i)
    rw [checkedSub, if_pos hle, ownGasUsed_succ hprev hthis]
  · have hall := hsum receipts.length (Nat.le_refl _)
    rw [gasUsedFromCumulative, hall]
    cases hlen : receipts.length with
    | zero =>
      obtain rfl : receipts = [] := List.length_eq_zero_iff.mp hlen
      rfl
    | succ n => rw [gasThrough, List.getLast?_eq_getElem?, hlen, Nat.add_sub_cancel]
  · rw [gasUsedFromCumulative_eq, runningTotals_differences htotals]

/-- The split of a block with two transactions. -/
theorem ownGasUsed_exact_two :
    ((List.range 1).map (ownGasUsed [⟨true, 21000, []⟩, ⟨true, 74000, []⟩])).sum = 21000 ∧
      (gasUsedFromCumulative [⟨true, 21000, []⟩, ⟨true, 74000, []⟩]).sum = 74000 := by
  have h := @ownGasUsed_exact [⟨true, 21000, []⟩, ⟨true, 74000, []⟩] (by simp)
  exact ⟨h.1 1 (by decide), h.2.2.1⟩

example : gasUsedFromCumulative [⟨true, 21000, []⟩, ⟨true, 74000, []⟩, ⟨true, 74100, []⟩] =
    [21000, 53000, 100] := by decide

/-- The receipts of a chain are in the order of their cumulative gas. -/
theorem pairwise_cumulativeGasUsed (chain : NodeChain) (n : ℕ) :
    (chain.receipts n).Pairwise fun r r' => r.cumulativeGasUsed ≤ r'.cumulativeGasUsed := by
  refine List.pairwise_iff_getElem.mpr fun i j hi hj hij => ?_
  rw [chain.cumulative n i _ (List.getElem?_eq_getElem hi),
    chain.cumulative n j _ (List.getElem?_eq_getElem hj), ← List.sum_eq_foldl,
    ← List.sum_eq_foldl]
  exact (List.take_sublist_take_left (Nat.succ_le_succ hij.le)).sum_le_sum
    fun _ _ => Nat.zero_le _

/-- On a chain the split is the gas each transaction used. -/
theorem gasUsedFromCumulative_chain (chain : NodeChain) (n : ℕ) :
    gasUsedFromCumulative (chain.receipts n) = chain.gasUsed n := by
  refine List.ext_getElem (by simp [gasUsedFromCumulative, chain.length_gasUsed]) ?_
  intro i _ hi
  simp [gasUsedFromCumulative, NodeChain.ownGasUsed_eq (List.getElem?_eq_getElem hi)]

end ExplorerIndexer
