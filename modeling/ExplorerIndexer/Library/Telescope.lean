import Mathlib.Algebra.BigOperators.Group.List.Basic
import Mathlib.Algebra.Order.Sub.Basic

/-!
# Running totals and their differences

A list of amounts has a list of running totals, and a non-decreasing list of totals splits into
the amounts between one total and the next. The subtraction is truncated, so the order of the
totals is what makes the split exact.

## Main definitions

* `Telescope.differences` — what each total adds to the one before it
* `Telescope.runningTotals` — the totals of a list of amounts

## Main results

* `getElem?_totals` — a total is the base and the sum of the differences up to it
* `runningTotals_differences` — the totals are recovered from their differences
-/

namespace Telescope

variable {α : Type*}

/-- What each total adds to the one before it, starting above `base`. -/
def differences [Sub α] (base : α) (totals : List α) : List α :=
  List.zipWith (· - ·) totals (base :: totals)

@[simp] theorem differences_nil [Sub α] (base : α) : differences base [] = [] := rfl

@[simp] theorem differences_cons [Sub α] (base total : α) (totals : List α) :
    differences base (total :: totals) = (total - base) :: differences total totals := rfl

@[simp] theorem length_differences [Sub α] (base : α) (totals : List α) :
    (differences base totals).length = totals.length := by
  rw [differences, List.length_zipWith, List.length_cons, Nat.min_eq_left (Nat.le_succ _)]

/-- The totals of a list of amounts, starting above `base`. -/
def runningTotals [Add α] (base : α) : List α → List α
  | [] => []
  | amount :: amounts => (base + amount) :: runningTotals (base + amount) amounts

variable [AddCommMonoid α] [PartialOrder α] [ExistsAddOfLE α] [AddLeftMono α] [Sub α] [OrderedSub α]

/-- **The sum of the first differences telescopes.** -/
theorem getElem?_totals {base : α} {totals : List α}
    (hmono : (base :: totals).Pairwise (· ≤ ·)) {k : ℕ} (hk : k ≤ totals.length) :
    (base :: totals)[k]? = some (base + ((differences base totals).take k).sum) := by
  induction totals generalizing base k with
  | nil =>
    obtain rfl : k = 0 := by simpa using hk
    simp
  | cons total totals ih =>
    cases k with
    | zero => simp
    | succ k =>
      have hstep : base ≤ total := List.rel_of_pairwise_cons hmono (List.mem_cons_self ..)
      have hrest := ih (List.Pairwise.of_cons hmono) (Nat.le_of_succ_le_succ hk)
      rw [List.getElem?_cons_succ, hrest, differences_cons, List.take_succ_cons, List.sum_cons,
        ← add_assoc, add_tsub_cancel_of_le hstep]

/-- **The totals are recovered from their differences.** -/
theorem runningTotals_differences {base : α} {totals : List α}
    (hmono : (base :: totals).Pairwise (· ≤ ·)) :
    runningTotals base (differences base totals) = totals := by
  induction totals generalizing base with
  | nil => rfl
  | cons total totals ih =>
    have hstep : base ≤ total := List.rel_of_pairwise_cons hmono (List.mem_cons_self ..)
    rw [differences_cons, runningTotals, add_tsub_cancel_of_le hstep,
      ih (List.Pairwise.of_cons hmono)]

end Telescope
