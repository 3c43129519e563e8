import Mathlib.Data.Nat.Notation
import Mathlib.Data.List.Basic

/-!
# Lossy feeds of heights

A producer has announced every height below `sent`, in segments that leave no gap. A channel
drops any of the announcements that are not delivered yet, and puts a marker where it dropped some.
A consumer that has taken every height below `h` reads the queue in order, and reconciles by other
means when it meets a marker.

`Covered` says that such a consumer misses nothing that was announced. The producer, the channel and
the consumer each keep it.

## Main definitions

* `Notice` — what a notification tells about heights
* `Covered` — reading the queue from `h` on misses no announced height

## Main results

* `Covered.send`, `Covered.drop` — the producer and the channel keep the coverage
* `covered_of_le` — a consumer that has taken everything announced is covered
-/

namespace Feed

/-- What a notification tells about heights. -/
inductive Notice where
  /-- The heights `first..=last`. -/
  | segment (first last : ℕ)
  /-- Notifications were dropped here. -/
  | gap
  /-- Nothing. -/
  | silent
  deriving DecidableEq, Repr

/-- A consumer that has taken every height below `h` gets the others below `sent` from the queue, up
to the first gap: every segment starts where it stands or earlier. -/
def Covered (sent : ℕ) : ℕ → List Notice → Prop
  | h, [] => sent ≤ h
  | h, .segment first last :: queue => first ≤ h ∧ Covered sent (max h (last + 1)) queue
  | _, .gap :: _ => True
  | h, .silent :: queue => Covered sent h queue

variable {sent h : ℕ} {queue : List Notice}

@[simp] theorem covered_nil : Covered sent h [] ↔ sent ≤ h := Iff.rfl

@[simp] theorem covered_segment {first last : ℕ} : Covered sent h (.segment first last :: queue) ↔
    first ≤ h ∧ Covered sent (max h (last + 1)) queue := Iff.rfl

@[simp] theorem covered_gap : Covered sent h (.gap :: queue) := trivial

@[simp] theorem covered_silent : Covered sent h (.silent :: queue) ↔ Covered sent h queue := Iff.rfl

theorem Covered.mono (hc : Covered sent h queue) {h' : ℕ} (hle : h ≤ h') :
    Covered sent h' queue := by
  induction queue generalizing h h' with
  | nil => exact Nat.le_trans hc hle
  | cons notice queue ih =>
    cases notice with
    | segment first last => exact ⟨Nat.le_trans hc.1 hle, ih hc.2 (by omega)⟩
    | gap => trivial
    | silent => exact ih hc hle

/-- **A segment that leaves no gap keeps the coverage.** -/
theorem Covered.send (hc : Covered sent h queue) {first last : ℕ} (hfirst : first ≤ sent) :
    Covered (max sent (last + 1)) h (queue ++ [.segment first last]) := by
  induction queue generalizing h with
  | nil =>
    have hc : sent ≤ h := hc
    exact ⟨by omega, by simp only [covered_nil]; omega⟩
  | cons notice queue ih =>
    cases notice with
    | segment f l => exact ⟨hc.1, ih hc.2⟩
    | gap => trivial
    | silent => exact ih hc

theorem Covered.send_silent (hc : Covered sent h queue) : Covered sent h (queue ++ [.silent]) := by
  induction queue generalizing h with
  | nil => exact hc
  | cons notice queue ih =>
    cases notice with
    | segment f l => exact ⟨hc.1, ih hc.2⟩
    | gap => trivial
    | silent => exact ih hc

/-- **Dropping behind a marker keeps the coverage.** -/
theorem Covered.drop {front lost rest : List Notice}
    (hc : Covered sent h (front ++ (lost ++ rest))) : Covered sent h (front ++ .gap :: rest) := by
  induction front generalizing h with
  | nil => trivial
  | cons notice front ih =>
    cases notice with
    | segment f l => exact ⟨hc.1, ih hc.2⟩
    | gap => trivial
    | silent => exact ih hc

/-- A consumer that has taken everything announced is covered by any queue. -/
theorem covered_of_le (hqueue : ∀ first last, .segment first last ∈ queue → first ≤ h)
    (hsent : sent ≤ h) : Covered sent h queue := by
  induction queue generalizing h with
  | nil => exact hsent
  | cons notice queue ih =>
    have htail : ∀ h' ≥ h, ∀ first last, .segment first last ∈ queue → first ≤ h' :=
      fun h' hle f l hmem => Nat.le_trans (hqueue f l (List.mem_cons_of_mem _ hmem)) hle
    cases notice with
    | segment f l =>
      exact ⟨hqueue f l List.mem_cons_self, ih (htail _ (by omega)) (by omega)⟩
    | gap => trivial
    | silent => exact ih (htail h (Nat.le_refl h)) hsent

end Feed
