import Mathlib.Order.SuccPred.Basic
import Mathlib.Data.Nat.Find

/-!
# Ranges that tile a half-line

`n` closed ranges and an open one after them, each starting right after the end of the one before
it. They are given by the first value of all and by the last value of each closed range. Range `0`
may be empty, the others are not.

## Main definitions

* `Tiling.first` — where a range starts
* `Tiling.Covers` — a value lies in a range

## Main results

* `first_le_final` — no closed range after range `0` is empty, if the ends ascend
* `existsUnique_covers` — every value from the start on lies in exactly one range
-/

namespace Tiling

variable {α : Type*} [LinearOrder α] [SuccOrder α] {start : α} {final : ℕ → α} {n : ℕ}

/-- The first value of range `e`: the start, or the value after the end of the range before. -/
def first (start : α) (final : ℕ → α) : ℕ → α
  | 0 => start
  | e + 1 => Order.succ (final e)

/-- `a` lies in range `e`. The ranges before `n` are closed, and range `n` is open. -/
def Covers (start : α) (final : ℕ → α) (n e : ℕ) (a : α) : Prop :=
  e ≤ n ∧ first start final e ≤ a ∧ (e < n → a ≤ final e)

/-- The ranges ascend from the start: none ends below it and the ends are strictly sorted. -/
structure Ascends (start : α) (final : ℕ → α) (n : ℕ) : Prop where
  /-- Range `0` ends right before the start at the lowest, and is empty then. -/
  start_le : 0 < n → start ≤ Order.succ (final 0)
  /-- The ends ascend. -/
  final_lt : ∀ e, e + 1 < n → final e < final (e + 1)

/-- **No closed range after range `0` is empty.** -/
theorem first_le_final (h : Ascends start final n) {e : ℕ} (hpos : 0 < e) (he : e < n) :
    first start final e ≤ final e := by
  cases e with
  | zero => exact absurd hpos (lt_irrefl 0)
  | succ e => exact Order.succ_le_of_lt (h.final_lt e he)

theorem first_le_succ_final (h : Ascends start final n) {e : ℕ} (he : e < n) :
    first start final e ≤ Order.succ (final e) := by
  cases e with
  | zero => exact h.start_le he
  | succ e => exact (first_le_final h (Nat.succ_pos e) he).trans (Order.le_succ _)

theorem first_le_first (h : Ascends start final n) {e e' : ℕ} (hle : e ≤ e') (he' : e' ≤ n) :
    first start final e ≤ first start final e' := by
  induction e', hle using Nat.le_induction with
  | base => exact le_rfl
  | succ e' _ ih =>
    calc first start final e ≤ first start final e' := ih (Nat.le_of_succ_le he')
      _ ≤ first start final (e' + 1) := first_le_succ_final h he'

/-- Every value from the start on lies in some range. -/
theorem exists_covers {a : α} (ha : start ≤ a) : ∃ e, Covers start final n e a := by
  -- the first range whose end is not below `a`, or else the open one
  have hex : ∃ e, e = n ∨ a ≤ final e := ⟨n, Or.inl rfl⟩
  have hspec := Nat.find_spec hex
  have hmin : ∀ e < Nat.find hex, final e < a := fun e he =>
    not_le.mp (not_or.mp (Nat.find_min hex he)).2
  have hle : Nat.find hex ≤ n := Nat.find_min' hex (Or.inl rfl)
  generalize Nat.find hex = m at hspec hmin hle
  refine ⟨m, hle, ?_, fun hlt => hspec.resolve_left hlt.ne⟩
  cases m with
  | zero => exact ha
  | succ m => exact Order.succ_le_of_lt (hmin m (Nat.lt_succ_self m))

variable [NoMaxOrder α]

/-- A later range starts past the end of an earlier one. -/
theorem final_lt_first (h : Ascends start final n) {e e' : ℕ} (hlt : e < e') (he' : e' ≤ n) :
    final e < first start final e' :=
  calc final e < first start final (e + 1) := Order.lt_succ _
    _ ≤ first start final e' := first_le_first h hlt he'

theorem Covers.unique (h : Ascends start final n) {a : α} {e e' : ℕ}
    (he : Covers start final n e a) (he' : Covers start final n e' a) : e = e' := by
  obtain ⟨hn, hfirst, hfinal⟩ := he
  obtain ⟨hn', hfirst', hfinal'⟩ := he'
  rcases Nat.lt_trichotomy e e' with hlt | heq | hgt
  · have hgap := final_lt_first h hlt hn'
    exact absurd ((hfirst'.trans (hfinal (hlt.trans_le hn'))).trans_lt hgap) (lt_irrefl _)
  · exact heq
  · have hgap := final_lt_first h hgt hn
    exact absurd ((hfirst.trans (hfinal' (hgt.trans_le hn))).trans_lt hgap) (lt_irrefl _)

/-- **The ranges tile the half-line**: every value from the start on lies in exactly one. -/
theorem existsUnique_covers (h : Ascends start final n) {a : α} (ha : start ≤ a) :
    ∃! e, Covers start final n e a := by
  obtain ⟨e, he⟩ := @exists_covers _ _ _ start final n a ha
  exact ⟨e, he, fun e' he' => he'.unique h he⟩

end Tiling
