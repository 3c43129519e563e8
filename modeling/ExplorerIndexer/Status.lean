import Mathlib.Algebra.Group.Nat.Defs

/-!
# Indexer health

The health the loop and the API share, and the handler of `/health`. The handler loads the atomics
one at a time, and the loop may write between any two loads, so a request is a small machine too.

## Main definitions

* `IndexerStatus` — the three atomics and their updates
* `HealthRequest.load` — the loads of one request, in the order the handler makes them

## Main results

* `HealthRequest.Agrees.answer` — a request during which the status does not change answers with it
-/

namespace ExplorerIndexer

/-- Indexer health shared between the ExEx loop and the API. -/
structure IndexerStatus where
  /-- Highest indexed block, stored as `cursor + 1` (0 = nothing indexed yet). -/
  lastIndexedPlusOne : ℕ
  /-- Node canonical tip as last observed by the indexer. -/
  nodeTip : ℕ
  /-- True while the indexing loop is running. -/
  live : Bool
  deriving DecidableEq, Repr

namespace IndexerStatus

/-- `IndexerStatus::default()`. -/
def default : IndexerStatus := ⟨0, 0, false⟩

/-- Record a newly indexed block (monotonic max, saturating at `u64::MAX`). -/
def setLastIndexed (s : IndexerStatus) (block : ℕ) : IndexerStatus :=
  { s with lastIndexedPlusOne := max s.lastIndexedPlusOne (min (block + 1) (2 ^ 64 - 1)) }

/-- Highest indexed block, if any. -/
def lastIndexed (s : IndexerStatus) : Option ℕ :=
  match s.lastIndexedPlusOne with
  | 0 => none
  | stored + 1 => some stored

/-- Record the node tip (monotonic max). -/
def setNodeTip (s : IndexerStatus) (tip : ℕ) : IndexerStatus :=
  { s with nodeTip := max s.nodeTip tip }

/-- Blocks between the observed tip and the cursor. -/
def lag (s : IndexerStatus) : ℕ := s.nodeTip - s.lastIndexed.getD 0

/-- `set_live`. -/
def setLive (s : IndexerStatus) (live : Bool) : IndexerStatus := { s with live := live }

/-- The block the status counts from: the last indexed one, or `0`. -/
theorem lastIndexed_getD (s : IndexerStatus) : s.lastIndexed.getD 0 = s.lastIndexedPlusOne - 1 := by
  rw [lastIndexed]
  split
  · next h => rw [h]; rfl
  · next h => rw [h]; rfl

theorem lastIndexed_eq_some {s : IndexerStatus} {block : ℕ} :
    s.lastIndexed = some block ↔ s.lastIndexedPlusOne = block + 1 := by
  rw [lastIndexed]
  split
  · next h => simp [h]
  · next stored h => simp [h]

end IndexerStatus

/-! ### `/health` -/

/-- The body of an answer of `/health`. -/
structure HealthResponse where
  status : String
  indexingLive : Bool
  lastIndexed : ℕ
  nodeTip : ℕ
  lag : ℕ
  deriving DecidableEq, Repr

/-- A request, by the loads it has made. -/
inductive HealthRequest where
  | asked
  | loadedLive (live : Bool)
  | loadedIndexed (live : Bool) (lastIndexed : Option ℕ)
  | loadedTip (live : Bool) (lastIndexed : Option ℕ) (nodeTip : ℕ)
  | loadedLagTip (live : Bool) (lastIndexed : Option ℕ) (nodeTip lagTip : ℕ)
  deriving DecidableEq, Repr

/-- The next load of a request: a request with one more load, or the answer. -/
def HealthRequest.load (s : IndexerStatus) : HealthRequest → HealthRequest ⊕ HealthResponse
  | .asked => .inl (.loadedLive s.live)
  | .loadedLive live => .inl (.loadedIndexed live s.lastIndexed)
  | .loadedIndexed live lastIndexed => .inl (.loadedTip live lastIndexed s.nodeTip)
  -- `lag()` loads the tip and the cursor again
  | .loadedTip live lastIndexed nodeTip => .inl (.loadedLagTip live lastIndexed nodeTip s.nodeTip)
  | .loadedLagTip live lastIndexed nodeTip lagTip => .inr
    { status := if live then "ok" else "degraded"
      indexingLive := live
      lastIndexed := lastIndexed.getD 0
      nodeTip := nodeTip
      lag := lagTip - s.lastIndexed.getD 0 }

/-- What the loads give when the status does not change in between. -/
def IndexerStatus.health (s : IndexerStatus) : HealthResponse where
  status := if s.live then "ok" else "degraded"
  indexingLive := s.live
  lastIndexed := s.lastIndexed.getD 0
  nodeTip := s.nodeTip
  lag := s.lag

/-- All loads a request has made read `s`. -/
def HealthRequest.Agrees (s : IndexerStatus) : HealthRequest → Prop
  | .asked => True
  | .loadedLive live => live = s.live
  | .loadedIndexed live lastIndexed => live = s.live ∧ lastIndexed = s.lastIndexed
  | .loadedTip live lastIndexed nodeTip =>
    live = s.live ∧ lastIndexed = s.lastIndexed ∧ nodeTip = s.nodeTip
  | .loadedLagTip live lastIndexed nodeTip lagTip =>
    live = s.live ∧ lastIndexed = s.lastIndexed ∧ nodeTip = s.nodeTip ∧ lagTip = s.nodeTip

/-- A load of the same status keeps the agreement. -/
theorem HealthRequest.Agrees.load {s : IndexerStatus} {r r' : HealthRequest} (h : r.Agrees s)
    (hload : r.load s = .inl r') : r'.Agrees s := by
  cases r with
  | asked => cases hload; rfl
  | loadedLive live => cases hload; exact ⟨h, rfl⟩
  | loadedIndexed live lastIndexed => cases hload; exact ⟨h.1, h.2, rfl⟩
  | loadedTip live lastIndexed nodeTip => cases hload; exact ⟨h.1, h.2.1, h.2.2, rfl⟩
  | loadedLagTip live lastIndexed nodeTip lagTip => cases hload

/-- **A request that met one status only answers with that status.** -/
theorem HealthRequest.Agrees.answer {s : IndexerStatus} {r : HealthRequest} {a : HealthResponse}
    (h : r.Agrees s) (hload : r.load s = .inr a) : a = s.health := by
  cases r with
  | loadedLagTip live lastIndexed nodeTip lagTip =>
    cases hload
    obtain ⟨rfl, rfl, rfl, rfl⟩ := h
    rfl
  | asked => cases hload
  | loadedLive live => cases hload
  | loadedIndexed live lastIndexed => cases hload
  | loadedTip live lastIndexed nodeTip => cases hload

end ExplorerIndexer
