import ExplorerIndexer.Api
import ExplorerIndexer.Library.SortedMap

/-!
# Block counts per leader

`/validators/leaders` counts the blocks of each beneficiary over the newest blocks. The counts are
collected in a map in the order of the addresses, and sorted again by the number of blocks.

The headers of a range come from the node. They are a parameter, and the node is assumed to return
one header for each height of the range.

## Main definitions

* `HeaderReads`, `leaderCounts`, `Api.leaders` — the functions of the source

## Main results

* `notAfter_iff` — the comparison sorts by count descending, then by address ascending
* `countLeaders_spec` — the sorted counts of any list of headers
* `leaders_conserve` — the route scans the newest blocks of its window and accounts for each of them
-/

namespace ExplorerIndexer

/-! ### The functions of the source -/

/-- A header as a range read returns it. -/
structure SealedHeader extends ExecHeader where
  /-- The account that is paid for the block. -/
  beneficiary : Address
  deriving DecidableEq, Repr

/-- The reads of the node that the counts take. -/
structure HeaderReads where
  lastBlockNumber : Except Report ℕ
  /-- The headers of the heights `low ..= high`. -/
  blocksForRange : ℕ → ℕ → Except Report (List SealedHeader)

/-- `b.1.cmp(&a.1).then(a.0.cmp(&b.0))`. -/
def leaderOrder (a b : Address × ℕ) : Ordering := (compare b.2 a.2).then (compare a.1 b.1)

/-- A sort by `leaderOrder` may leave `a` in front of `b`. -/
def notAfter (a b : Address × ℕ) : Prop := leaderOrder a b ≠ .gt

instance : DecidableRel notAfter := fun _ _ => inferInstanceAs (Decidable (_ ≠ _))

/-- The blocks of each beneficiary, sorted. -/
def countLeaders (headers : List SealedHeader) : List (Address × ℕ) :=
  let counts : SortedMap Address ℕ :=
    headers.foldl (fun counts header => counts.increment header.beneficiary) .empty
  counts.entries.insertionSort notAfter

/-- The counts over the newest `window` blocks, with the first and the last of them. -/
def leaderCounts (env : HeaderReads) (window : ℕ) :
    Except Report (ℕ × ℕ × List (Address × ℕ)) := do
  let tip ← env.lastBlockNumber
  let low := tip - (window - 1)
  let headers ← env.blocksForRange low tip
  return (low, tip, countLeaders headers)

def DEFAULT_LEADER_WINDOW : ℕ := 200

def MAX_LEADER_WINDOW : ℕ := 1000

/-- One entry of the answer. -/
structure LeaderEntry where
  address : String
  blocks : ℕ
  deriving DecidableEq, Repr

/-- The answer of `/validators/leaders`. -/
structure LeadersResponse where
  /-- The window that was scanned. -/
  window : ℕ
  fromBlock : ℕ
  toBlock : ℕ
  leaders : List LeaderEntry
  deriving DecidableEq, Repr

/-- A requested window, clamped into `1 ..= MAX_LEADER_WINDOW`. -/
def leaderWindow (requested : Option ℕ) : ℕ :=
  min (max (requested.getD DEFAULT_LEADER_WINDOW) 1) MAX_LEADER_WINDOW

/-- An entry in wire form. -/
def leaderEntry (entry : Address × ℕ) : LeaderEntry := ⟨addrHex entry.1, entry.2⟩

/-- `GET /validators/leaders?window=`. -/
def Api.leaders (env : HeaderReads) (requested : Option ℕ) : Except ApiError LeadersResponse := do
  let window := leaderWindow requested
  let (fromBlock, toBlock, counts) ← liftNode (leaderCounts env window)
  return { window, fromBlock, toBlock, leaders := counts.map leaderEntry }

/-! ### The order -/

/-- **More blocks first, and the lower address first among equals.** -/
theorem notAfter_iff {a b : Address × ℕ} :
    notAfter a b ↔ b.2 < a.2 ∨ b.2 = a.2 ∧ a.1 ≤ b.1 := by
  rw [notAfter, leaderOrder]
  rcases Nat.lt_trichotomy b.2 a.2 with hlt | heq | hgt
  · simp [Nat.compare_eq_lt.mpr hlt, hlt]
  · rw [heq, Nat.compare_eq_eq.mpr rfl, Ordering.eq_then,
      show compare a.1 b.1 = compareOfLessAndEq a.1 b.1 from rfl, compareOfLessAndEq]
    split
    · simp
      bv_omega
    · split
      · simp
        bv_omega
      · simp
        bv_omega
  · rw [Nat.compare_eq_gt.mpr hgt]
    simp
    omega

instance : Std.Total notAfter := ⟨fun a b => by
  rw [notAfter_iff, notAfter_iff]
  bv_omega⟩

instance : IsTrans (Address × ℕ) notAfter := ⟨fun a b c => by
  rw [notAfter_iff, notAfter_iff, notAfter_iff]
  bv_omega⟩

/-! ### The counts -/

theorem countLeaders_eq (headers : List SealedHeader) : countLeaders headers =
    (SortedMap.tally (headers.map SealedHeader.beneficiary)).entries.insertionSort notAfter := by
  rw [SortedMap.tally, List.foldl_map]
  rfl

section Counts

variable (headers : List SealedHeader)

/-- **Each beneficiary that occurs is counted**, with its number of blocks. -/
theorem mem_countLeaders_iff {a : Address} {n : ℕ} : (a, n) ∈ countLeaders headers ↔
    (∃ header ∈ headers, header.beneficiary = a) ∧
      n = headers.countP (·.beneficiary = a) := by
  rw [countLeaders_eq, List.mem_insertionSort, SortedMap.mem_tally_iff, List.mem_map,
    List.count_eq_countP, List.countP_map]
  rfl

/-- No beneficiary is listed twice. -/
theorem nodup_countLeaders : ((countLeaders headers).map Prod.fst).Nodup := by
  rw [countLeaders_eq]
  exact ((List.perm_insertionSort notAfter _).map Prod.fst).nodup_iff.mpr
    (SortedMap.nodup_keys _)

/-- **The counts account for every header.** -/
theorem sum_countLeaders : ((countLeaders headers).map Prod.snd).sum = headers.length := by
  rw [countLeaders_eq, ((List.perm_insertionSort notAfter _).map Prod.snd).sum_eq,
    SortedMap.sum_tally, List.length_map]

/-- The list is strictly sorted. -/
theorem pairwise_countLeaders : (countLeaders headers).Pairwise fun a b =>
    b.2 < a.2 ∨ b.2 = a.2 ∧ a.1 < b.1 := by
  have hsorted : (countLeaders headers).Pairwise notAfter := by
    rw [countLeaders_eq]
    exact List.pairwise_insertionSort notAfter _
  have hdistinct := List.pairwise_map.mp (nodup_countLeaders headers)
  refine (hsorted.and hdistinct).imp fun {a b} ⟨hle, hne⟩ => ?_
  rw [notAfter_iff] at hle
  refine hle.imp_right fun ⟨hcount, haddress⟩ => ⟨hcount, ?_⟩
  bv_omega

end Counts

/-! ### The route -/

/-- The window reaches from the tip down to genesis at most. -/
theorem length_window {tip window : ℕ} (hwindow : 1 ≤ window) :
    tip + 1 - (tip - (window - 1)) = min window (tip + 1) := by omega

theorem one_le_leaderWindow (requested : Option ℕ) : 1 ≤ leaderWindow requested := by
  unfold leaderWindow MAX_LEADER_WINDOW
  omega

/-- **Leader counts conserve blocks.** For every tip, every requested window and every sequence of
beneficiaries, the route scans the newest blocks of the window; it lists each beneficiary that
occurs in them once, with its number of blocks; the counts add up to the number of blocks scanned;
and the list is sorted by count, then by address. -/
theorem leaders_conserve (env : HeaderReads) (header : ℕ → SealedHeader) {tip : ℕ}
    (htip : env.lastBlockNumber = .ok tip)
    (hrange : ∀ low high, low ≤ high → high ≤ tip →
      env.blocksForRange low high = .ok ((List.range' low (high + 1 - low)).map header))
    (requested : Option ℕ) : ∃ low counts,
    leaderCounts env (leaderWindow requested) = .ok (low, tip, counts) ∧
    Api.leaders env requested = .ok
      { window := leaderWindow requested, fromBlock := low, toBlock := tip
        leaders := counts.map leaderEntry } ∧
    low ≤ tip ∧ tip + 1 - low = min (leaderWindow requested) (tip + 1) ∧
    (∀ a n, (a, n) ∈ counts ↔ (∃ m, low ≤ m ∧ m ≤ tip ∧ (header m).beneficiary = a) ∧
      n = (List.range' low (tip + 1 - low)).countP fun m => (header m).beneficiary = a) ∧
    (counts.map Prod.fst).Nodup ∧
    (counts.map Prod.snd).sum = tip - low + 1 ∧
    counts.Pairwise fun a b => b.2 < a.2 ∨ b.2 = a.2 ∧ a.1 < b.1 := by
  have hwindow := one_le_leaderWindow requested
  generalize hlow : tip - (leaderWindow requested - 1) = low
  have hle : low ≤ tip := by omega
  generalize hheaders : (List.range' low (tip + 1 - low)).map header = headers
  have hcounts : leaderCounts env (leaderWindow requested) =
      .ok (low, tip, countLeaders headers) := by
    rw [leaderCounts, htip]
    change (env.blocksForRange (tip - (leaderWindow requested - 1)) tip >>= _) = _
    rw [hlow, hrange low tip hle (Nat.le_refl _), hheaders]
    rfl
  refine ⟨low, countLeaders headers, hcounts, ?_, hle, ?_, fun a n => ?_,
    nodup_countLeaders headers, ?_, pairwise_countLeaders headers⟩
  · rw [Api.leaders, hcounts]
    rfl
  · rw [← hlow, length_window hwindow]
  · rw [mem_countLeaders_iff, ← hheaders, List.countP_map]
    refine and_congr_left fun _ => ?_
    simp only [List.mem_map, List.mem_range'_1]
    constructor
    · rintro ⟨_, ⟨m, ⟨hlo, hhi⟩, rfl⟩, ha⟩
      exact ⟨m, hlo, by omega, ha⟩
    · rintro ⟨m, hlo, hhi, ha⟩
      exact ⟨header m, ⟨m, ⟨hlo, by omega⟩, rfl⟩, ha⟩
  · rw [sum_countLeaders, ← hheaders, List.length_map, List.length_range']
    omega

/-- The headers of the steady chain, each paid to the account of its height modulo three. -/
def steadyHeader (n : ℕ) : SealedHeader where
  toExecHeader := (steadyChain.block n).header
  beneficiary := BitVec.ofNat 160 (n % 3)

/-- The four newest blocks of a tip at height six. -/
theorem leaders_conserve_steady : ∃ low counts,
    leaderCounts ⟨.ok 6, fun low high =>
      .ok ((List.range' low (high + 1 - low)).map steadyHeader)⟩ 4 = .ok (low, 6, counts) ∧
    (counts.map Prod.snd).sum = 6 - low + 1 := by
  obtain ⟨low, counts, hcounts, -, -, -, -, -, hsum, -⟩ :=
    leaders_conserve ⟨.ok 6, fun low high =>
      .ok ((List.range' low (high + 1 - low)).map steadyHeader)⟩ steadyHeader rfl
      (fun _ _ _ _ => rfl) (some 4)
  exact ⟨low, counts, hcounts, hsum⟩

example : countLeaders ((List.range' 3 4).map steadyHeader) = [(0, 2), (1, 1), (2, 1)] := by
  decide

end ExplorerIndexer
