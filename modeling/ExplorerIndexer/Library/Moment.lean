import Mathlib.Data.Nat.Init
import Mathlib.Data.Set.Finite.Lemmas
import Mathlib.Order.Interval.Set.OrdConnected
import Mathlib.Order.Lattice.Nat

/-!
# Values read one after another

A reader that looks at several values, each at a moment of its own, may end up with a mixture that
no moment had. When no value returns to what it was, the moments at which a value is what was read
form an interval, and intervals that meet in pairs have a moment in common. So it is enough to look
at two reads at a time: they fit together unless the value read first changes, and with it or later
the value read second, before that one is read.

## Main definitions

* `NeverReturns` — a value that does not come back
* `Crosses` — a change of one value, and with it or later a change of another

## Main results

* `exists_mem_of_pairwise` — intervals of moments that meet in pairs have a common moment
* `exists_moment_iff` — there is a moment with all values that were read exactly when no two cross
-/

namespace Moment

/-- Once it has changed, the value does not come back. -/
def NeverReturns {β : Type*} (x : ℕ → β) : Prop :=
  ∀ ⦃i j k⦄, i ≤ j → j ≤ k → x i = x k → x j = x i

/-- From moment `i` on and before `j`, `x` changes, and with that change or after it `y`. -/
def Crosses {β γ : Type*} (x : ℕ → β) (y : ℕ → γ) (i j : ℕ) : Prop :=
  ∃ a b, i ≤ a ∧ a ≤ b ∧ b < j ∧ x (a + 1) ≠ x a ∧ y (b + 1) ≠ y b

section Two

variable {β γ : Type*} {x : ℕ → β} {y : ℕ → γ} {i j : ℕ}

/-- A value that stays put until it is read stays as it was. -/
theorem eq_of_forall_succ (hij : i ≤ j) (h : ∀ a, i ≤ a → a < j → x (a + 1) = x a) :
    x j = x i := by
  induction j, hij using Nat.le_induction with
  | base => rfl
  | succ j hij ih =>
    rw [h j hij (Nat.lt_succ_self j), ih fun a hia haj => h a hia (Nat.lt_succ_of_lt haj)]

/-- Two values that do not cross were there together. -/
theorem exists_both (hij : i ≤ j) (h : ¬ Crosses x y i j) : ∃ n, x n = x i ∧ y n = y j := by
  induction j, hij using Nat.le_induction with
  | base => exact ⟨i, rfl, rfl⟩
  | succ j hij ih =>
    by_cases hy : y (j + 1) = y j
    · rw [hy]
      refine ih fun hcross => h ?_
      obtain ⟨a, b, hia, hab, hbj, hcross⟩ := hcross
      exact ⟨a, b, hia, hab, Nat.lt_succ_of_lt hbj, hcross⟩
    · -- the second value changes last, so the first one has not changed at all
      refine ⟨j + 1, eq_of_forall_succ (hij.trans (Nat.le_succ j)) fun a hia haj => ?_, rfl⟩
      by_contra hx
      exact h ⟨a, j, hia, Nat.le_of_lt_succ haj, Nat.lt_succ_self j, hx, hy⟩

/-- Nothing crosses into a value that is read no later. -/
theorem not_crosses_of_le (h : j ≤ i) : ¬ Crosses x y i j := by
  rintro ⟨a, b, hia, hab, hbj, -⟩
  omega

/-- Values that were there together do not cross. -/
theorem not_crosses {n : ℕ} (hx : NeverReturns x) (hy : NeverReturns y) (hxn : x n = x i)
    (hyn : y n = y j) : ¬ Crosses x y i j := by
  rintro ⟨a, b, hia, hab, hbj, hxa, hyb⟩
  by_cases hnb : n ≤ b
  · have hb : y b = y n := hy hnb hbj.le hyn
    have hb' : y (b + 1) = y n := hy (hnb.trans (Nat.le_succ b)) hbj hyn
    exact hyb (hb'.trans hb.symm)
  · have hbn : b < n := not_le.mp hnb
    have ha : x a = x i := hx hia (hab.trans hbn.le) hxn.symm
    have ha' : x (a + 1) = x i :=
      hx (hia.trans (Nat.le_succ a)) (Nat.succ_le_of_lt (hab.trans_lt hbn)) hxn.symm
    exact hxa (ha'.trans ha.symm)

end Two

/-- **Intervals of moments that meet in pairs have a common moment.** It is the last of their first
moments. -/
theorem exists_mem_of_pairwise {ι : Type*} {s : Set ι} (hs : s.Finite) {S : ι → Set ℕ}
    (hconnected : ∀ i ∈ s, (S i).OrdConnected)
    (hpair : ∀ i ∈ s, ∀ j ∈ s, (S i ∩ S j).Nonempty) : ∃ n, ∀ i ∈ s, n ∈ S i := by
  rcases s.eq_empty_or_nonempty with rfl | hne
  · exact ⟨0, fun i hi => hi.elim⟩
  obtain ⟨last, hlast, hmax⟩ := s.exists_max_image (fun i => sInf (S i)) hs hne
  refine ⟨sInf (S last), fun i hi => ?_⟩
  obtain ⟨m, hm, hm'⟩ := hpair i hi last hlast
  exact (hconnected i hi).out (Nat.sInf_mem ⟨m, hm⟩) hm ⟨hmax i hi, Nat.sInf_le hm'⟩

/-- **Values read one after another were there at one moment exactly when no two cross between
their reads.** -/
theorem exists_moment_iff {ι : Type*} {s : Set ι} (hs : s.Finite) {β : ι → Type*}
    {x : ∀ i, ℕ → β i} (hx : ∀ i ∈ s, NeverReturns (x i)) (read : ι → ℕ) :
    (∃ n, ∀ i ∈ s, x i n = x i (read i)) ↔
      ∀ i ∈ s, ∀ j ∈ s, ¬ Crosses (x i) (x j) (read i) (read j) := by
  constructor
  · rintro ⟨n, hn⟩ i hi j hj
    exact not_crosses (hx i hi) (hx j hj) (hn i hi) (hn j hj)
  · intro h
    refine exists_mem_of_pairwise hs (S := fun i => {n | x i n = x i (read i)})
      (fun i hi => ⟨fun a ha c hc b hb => ?_⟩) fun i hi j hj => ?_
    · exact (hx i hi hb.1 hb.2 (ha.trans hc.symm)).trans ha
    · rcases le_total (read i) (read j) with hle | hle
      · exact exists_both hle (h i hi j hj)
      · obtain ⟨n, hj', hi'⟩ := exists_both hle (h j hj i hi)
        exact ⟨n, hi', hj'⟩

end Moment
