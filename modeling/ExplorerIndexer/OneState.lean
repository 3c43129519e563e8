import ExplorerIndexer.Api
import ExplorerIndexer.Library.Moment
import ExplorerIndexer.TokenCache

/-!
# One response, one state of the index

The statements of a request see the commits that come between them. Whether the response is still
the one a single committed state gives depends on what those commits change: the feed, which the
page and the count read, and the cached metadata of the tokens on the page. Neither returns to an
earlier value, so the question is settled by looking at two statements at a time.

## Main definitions

* `RequestRun` — a run of the loop and the moments at which the statements of a request start
* `OneState` — some state of the run gives the same response
* `RequestRun.Untorn` — no commits between the statements that tear the response

## Main results

* `neverReturns_feed`, `neverReturns_shownToken` — what a response is made of never comes back
* `one_index_state` — a response belongs to one state exactly when it is untorn
-/

namespace ExplorerIndexer

/-! ### What an item shows of its token -/

/-- What an item takes from the cached metadata of its token: the symbol, and the decimals that
scale the amount. -/
def shownToken (token : Option StoredToken) : Option String × ℕ :=
  (token.bind StoredToken.symbol, (token.bind StoredToken.decimals).getD 0)

theorem buildTokenTransfer_eq_iff {row : StoredTransfer} {token token' : Option StoredToken} :
    (∀ data, buildTokenTransfer row data token = buildTokenTransfer row data token') ↔
      shownToken token = shownToken token' := by
  simp only [buildTokenTransfer, shownToken, ApiTokenTransfer.mk.injEq, Prod.mk.injEq, true_and,
    and_true]
  constructor
  · intro h
    exact (h ⟨0, ⟨0, 0, none, 0⟩, true, 0, 0, 0, none, 0⟩).symm
  · intro h _
    exact h.symm

/-- Without an ok row of its token an item shows no metadata. -/
theorem settled_or_shownToken {up : Upstream} {s : LoopState} (hs : (loopSystem up).Reachable s)
    (token : String) : (∃ row, tokenRow s.db token = some row ∧ row.status = 0) ∨
      shownToken (tokenRow s.db token) = (none, 0) := by
  have hsound := (token_invariant hs).sound token
  rw [tokenRow]
  cases hrow : s.db.tokens.find? token with
  | none => exact Or.inr rfl
  | some row =>
    by_cases hstatus : row.status = 0
    · exact Or.inl ⟨row, rfl, hstatus⟩
    · have hfield := (hsound row hrow).not.mp hstatus
      simp only [StoredToken.HasField, not_or, Option.not_isSome_iff_eq_none] at hfield
      exact Or.inr (by simp [shownToken, hfield])

/-! ### Requests during a run -/

/-- A request during a run of the loop: its `k`-th statement starts at the moment `start k`. -/
structure RequestRun (up : Upstream) extends TransitionSystem.Execution (loopSystem up) where
  start : ℕ → ℕ
  mono : Monotone start

section OneState

variable {up : Upstream} {q : PagedQuery} {limit offset : ℕ}

namespace RequestRun

variable (run : RequestRun up)

/-- The index at a moment. -/
def db (n : ℕ) : Db := (run.states n).db

/-- The index that the `k`-th statement sees. -/
def views (k : ℕ) : Db := run.db (run.start k)

theorem countsExact (n : ℕ) : CountsExact (run.db n) :=
  countsExact_of_loop (run.reachable_states n)

/-- From one moment to a later one, rows come in front of a feed. -/
theorem feed_of_le (q : PagedQuery) {i j : ℕ} (h : i ≤ j) :
    ∃ new, q.feed (run.db j) = new ++ q.feed (run.db i) := by
  obtain ⟨actions, hrun⟩ := run.run_of_le h
  exact feed_of_run (run.reachable_states i) hrun q

theorem feed_eq_of_length_le (q : PagedQuery) {i j : ℕ} (h : i ≤ j)
    (hlength : (q.feed (run.db j)).length ≤ (q.feed (run.db i)).length) :
    q.feed (run.db j) = q.feed (run.db i) := by
  obtain ⟨new, hnew⟩ := run.feed_of_le q h
  rw [hnew, List.length_append] at hlength
  obtain rfl : new = [] := List.length_eq_zero_iff.mp (by omega)
  exact hnew

/-- Feeds of one run with equal lengths are equal. -/
theorem feed_eq_of_length (q : PagedQuery) {i j : ℕ}
    (hlength : (q.feed (run.db i)).length = (q.feed (run.db j)).length) :
    q.feed (run.db i) = q.feed (run.db j) := by
  rcases le_total i j with h | h
  · exact (run.feed_eq_of_length_le q h hlength.ge).symm
  · exact run.feed_eq_of_length_le q h hlength.le

/-- **A feed that has grown does not shrink back.** -/
theorem neverReturns_feed (q : PagedQuery) : Moment.NeverReturns fun n => q.feed (run.db n) := by
  intro i j k hij hjk heq
  dsimp only at heq ⊢
  refine run.feed_eq_of_length_le q hij ?_
  obtain ⟨new, hnew⟩ := run.feed_of_le q hjk
  rw [heq, hnew, List.length_append]
  exact Nat.le_add_left _ _

/-- **What is shown of a token changes once at most**: from nothing to the row of its first fetch
that decoded a field. -/
theorem neverReturns_shownToken (token : String) :
    Moment.NeverReturns fun n => shownToken (tokenRow (run.db n) token) := by
  intro i j k hij hjk heq
  dsimp only at heq ⊢
  have hstays : ∀ {m n}, m ≤ n → (∃ row, tokenRow (run.db m) token = some row ∧ row.status = 0) →
      tokenRow (run.db n) token = tokenRow (run.db m) token := by
    rintro m n hmn ⟨row, hrow, hstatus⟩
    obtain ⟨actions, hrun⟩ := run.run_of_le hmn
    rw [hrow]
    exact find?_of_run (run.reachable_states m) hrun hrow (Or.inl hstatus)
  rcases settled_or_shownToken (run.reachable_states i) token with hi | hi
  · exact congrArg shownToken (hstays hij hi)
  rcases settled_or_shownToken (run.reachable_states j) token with hj | hj
  · exact (congrArg shownToken (hstays hjk hj)).symm.trans heq.symm
  · exact hj.trans hi.symm

/-- The tokens of the page. -/
def tokens (q : PagedQuery) (limit offset : ℕ) : List String :=
  (q.transfers (Page.slice limit offset (q.feed (run.views 0)))).map StoredTransfer.token

/-- The lookups of a request: each entry of the map is what the statement of its token saw. -/
def LookedUp (limit offset : ℕ) (r : PageRead q) (statements : ℕ) (lookup : String → ℕ) : Prop :=
  ∀ token ∈ run.tokens q limit offset,
    2 ≤ lookup token ∧ lookup token < statements ∧
      lookupToken r.tokens token = tokenRow (run.views (lookup token)) token

/-- No commits between the statements of a request tear its response. -/
structure Untorn (q : PagedQuery) (limit offset : ℕ) (lookup : String → ℕ) : Prop where
  /-- No row has come to the feed between the page and the count, or the page is past its end. -/
  page : q.feed (run.views 1) = q.feed (run.views 0) ∨ (q.feed (run.views 1)).length ≤ offset
  /-- No commit between the count and the lookup of a token adds rows to the feed, while it or a
  later one changes what is shown of the token. -/
  total : ∀ token ∈ run.tokens q limit offset,
    ¬ Moment.Crosses (fun n => q.feed (run.db n)) (fun n => shownToken (tokenRow (run.db n) token))
      (run.start 1) (run.start (lookup token))
  /-- No commit between two lookups changes what is shown of the first token, while it or a later
  one changes what is shown of the second. -/
  tokens : ∀ token ∈ run.tokens q limit offset, ∀ token' ∈ run.tokens q limit offset,
    ¬ Moment.Crosses (fun n => shownToken (tokenRow (run.db n) token))
      (fun n => shownToken (tokenRow (run.db n) token'))
      (run.start (lookup token)) (run.start (lookup token'))

end RequestRun

/-- Two reads are answered alike: the same items, for whatever transactions, and the same total. -/
structure PageRead.Alike (r r' : PageRead q) : Prop where
  rows : r.rows = r'.rows
  total : r.total = r'.total
  items : ∀ row ∈ q.transfers r.rows, ∀ data,
    buildTokenTransfer row data (lookupToken r.tokens row.token) =
      buildTokenTransfer row data (lookupToken r'.tokens row.token)

/-- Some state of the run, before, between or after the statements, gives the same response. -/
def OneState (run : RequestRun up) (limit offset : ℕ) (r : PageRead q) : Prop :=
  ∃ n r' k, q.read limit offset (fun _ => run.db n) 0 = .ok (r', k) ∧ r.Alike r'

/-! ### What a response is made of -/

/-- What a response takes from the index besides its page. -/
inductive Piece where
  /-- The total. -/
  | total
  /-- What the items of a token show of it. -/
  | token (address : String)

/-- The values of a piece. The total stands for the whole feed, which has no two states of one
length in a run. -/
def Piece.Value (q : PagedQuery) : Piece → Type
  | total => List q.Row
  | token _ => Option String × ℕ

def Piece.value (q : PagedQuery) (db : Db) : (piece : Piece) → piece.Value q
  | total => q.feed db
  | token address => shownToken (tokenRow db address)

namespace RequestRun

variable (run : RequestRun up)

/-- The moment at which a piece was read. -/
def readAt (lookup : String → ℕ) : Piece → ℕ
  | .total => run.start 1
  | .token address => run.start (lookup address)

/-- The pieces of the response to a request. -/
def pieces (q : PagedQuery) (limit offset : ℕ) : Set Piece :=
  insert Piece.total (Piece.token '' {token | token ∈ run.tokens q limit offset})

theorem finite_pieces (q : PagedQuery) (limit offset : ℕ) : (run.pieces q limit offset).Finite :=
  ((List.finite_toSet _).image _).insert _

theorem neverReturns_value (q : PagedQuery) (piece : Piece) :
    Moment.NeverReturns fun n => piece.value q (run.db n) := by
  cases piece with
  | total => exact run.neverReturns_feed q
  | token address => exact run.neverReturns_shownToken address

/-- Two pieces at a time: the total is read first, so a token never crosses into it. -/
theorem not_crosses_pieces_iff {lookup : String → ℕ}
    (hlookup : ∀ token ∈ run.tokens q limit offset, 2 ≤ lookup token) :
    (∀ piece ∈ run.pieces q limit offset, ∀ piece' ∈ run.pieces q limit offset,
      ¬ Moment.Crosses (fun n => piece.value q (run.db n)) (fun n => piece'.value q (run.db n))
        (run.readAt lookup piece) (run.readAt lookup piece')) ↔
      (∀ token ∈ run.tokens q limit offset, ¬ Moment.Crosses (fun n => q.feed (run.db n))
        (fun n => shownToken (tokenRow (run.db n) token)) (run.start 1)
          (run.start (lookup token))) ∧
      ∀ token ∈ run.tokens q limit offset, ∀ token' ∈ run.tokens q limit offset,
        ¬ Moment.Crosses (fun n => shownToken (tokenRow (run.db n) token))
          (fun n => shownToken (tokenRow (run.db n) token'))
          (run.start (lookup token)) (run.start (lookup token')) := by
  simp only [pieces, Set.forall_mem_insert, Set.forall_mem_image, Set.mem_ofPred_eq]
  constructor
  · rintro ⟨⟨-, htotal⟩, htokens⟩
    exact ⟨fun token htoken => htotal htoken, fun token htoken token' htoken' =>
      (htokens htoken).2 htoken'⟩
  · rintro ⟨htotal, htokens⟩
    refine ⟨⟨Moment.not_crosses_of_le le_rfl, fun token htoken => htotal token htoken⟩,
      fun token htoken => ⟨Moment.not_crosses_of_le ?_, fun token' htoken' =>
        htokens token htoken token' htoken'⟩⟩
    exact run.mono ((Nat.le_succ 1).trans (hlookup token htoken))

end RequestRun

/-- The rows of a response that one state gives are as many as its total says. -/
theorem OneState.length_rows {run : RequestRun up} {r : PageRead q}
    (h : OneState run limit offset r) (hq : q.Fits) (hlimit : limit < 2 ^ 63)
    (hoffset : offset < 2 ^ 63) :
    r.rows.length = min limit (r.total - offset) := by
  obtain ⟨n, r', k, hone, hsame⟩ := h
  obtain ⟨tokens, k', hread, -⟩ := @PagedQuery.read_ok q (fun _ => run.db n) limit offset hq
    (run.countsExact n) hlimit hoffset
  rw [hread] at hone
  cases hone
  rw [hsame.rows, hsame.total, Page.length_slice]

/-- **One state for a whole response**: a state of the run with the page of the first statement, and
every piece as its own statement saw it. -/
theorem oneState_iff (hq : q.Fits) (hlimit : limit < 2 ^ 63) (hoffset : offset < 2 ^ 63)
    (run : RequestRun up) {r : PageRead q} {k : ℕ} {lookup : String → ℕ}
    (hrows : r.rows = Page.slice limit offset (q.feed (run.views 0)))
    (htotal : r.total = (q.feed (run.views 1)).length)
    (hlookup : run.LookedUp limit offset r k lookup) :
    OneState run limit offset r ↔
      ∃ n, Page.slice limit offset (q.feed (run.views 0)) =
          Page.slice limit offset (q.feed (run.db n)) ∧
        ∀ piece ∈ run.pieces q limit offset,
          piece.value q (run.db n) = piece.value q (run.db (run.readAt lookup piece)) := by
  have hread : ∀ n, ∃ tokens k, q.read limit offset (fun _ => run.db n) 0 =
      .ok (⟨Page.slice limit offset (q.feed (run.db n)), (q.feed (run.db n)).length, tokens⟩, k) ∧
      ∀ token ∈ (q.transfers (Page.slice limit offset (q.feed (run.db n)))).map
        StoredTransfer.token, lookupToken tokens token = tokenRow (run.db n) token := by
    intro n
    obtain ⟨tokens, k, hread, htokens⟩ := @PagedQuery.read_ok q (fun _ => run.db n) limit offset hq
      (run.countsExact n) hlimit hoffset
    refine ⟨tokens, k, hread, fun token htoken => ?_⟩
    obtain ⟨j, -, -, hj⟩ := htokens token htoken
    exact hj
  simp only [RequestRun.pieces, Set.forall_mem_insert, Set.forall_mem_image, Set.mem_ofPred_eq]
  constructor
  · rintro ⟨n, r', k', hone, hsame⟩
    obtain ⟨tokens, k'', hread, htokens⟩ := hread n
    rw [hread] at hone
    cases hone
    have hpage : Page.slice limit offset (q.feed (run.views 0)) =
        Page.slice limit offset (q.feed (run.db n)) := hrows.symm.trans hsame.rows
    refine ⟨n, hpage, ?_, fun token htoken => ?_⟩
    · exact run.feed_eq_of_length q (hsame.total.symm.trans htotal)
    · obtain ⟨row, hrow, rfl⟩ := List.mem_map.mp htoken
      have hitems := buildTokenTransfer_eq_iff.mp (hsame.items row (hrows ▸ hrow))
      rw [(hlookup _ htoken).2.2, htokens _ (hpage ▸ htoken)] at hitems
      exact hitems.symm
  · rintro ⟨n, hpage, hfeed, htoken⟩
    obtain ⟨tokens, k', hread, htokens⟩ := hread n
    refine ⟨n, _, k', hread, hrows.trans hpage, ?_, fun row hrow data => ?_⟩
    · exact htotal.trans (congrArg List.length hfeed).symm
    · have hmem := List.mem_map_of_mem (f := StoredTransfer.token) (hrows ▸ hrow)
      refine buildTokenTransfer_eq_iff.mpr ?_ data
      rw [(hlookup _ hmem).2.2, htokens _ (hpage ▸ hmem)]
      exact (htoken hmem).symm

/-- A page survives the rows that come between it and the count only past the end. -/
theorem RequestRun.slice_eq_iff (hpos : 0 < limit) (run : RequestRun up) (q : PagedQuery) :
    Page.slice limit offset (q.feed (run.views 0)) =
        Page.slice limit offset (q.feed (run.views 1)) ↔
      q.feed (run.views 1) = q.feed (run.views 0) ∨ (q.feed (run.views 1)).length ≤ offset := by
  obtain ⟨new, hfeed⟩ : ∃ new, q.feed (run.views 1) = new ++ q.feed (run.views 0) :=
    run.feed_of_le q (run.mono (Nat.zero_le 1))
  by_cases hnew : new = []
  · rw [hnew, List.nil_append] at hfeed
    rw [hfeed]
    exact iff_of_true rfl (Or.inl rfl)
  · have hnodup := q.nodup_feed (run.views 1)
    rw [hfeed] at hnodup ⊢
    rw [Page.slice_append_eq_iff hnew hnodup hpos]
    exact (or_iff_right fun heq => hnew (List.append_left_eq_self.mp heq)).symm

/-- **One state of the run gives the response exactly when no commits tear it.** -/
theorem oneState_iff_untorn (hq : q.Fits) (hpos : 0 < limit) (hlimit : limit < 2 ^ 63)
    (hoffset : offset < 2 ^ 63) (run : RequestRun up) {r : PageRead q} {k : ℕ}
    {lookup : String → ℕ} (hrows : r.rows = Page.slice limit offset (q.feed (run.views 0)))
    (htotal : r.total = (q.feed (run.views 1)).length)
    (hlookup : run.LookedUp limit offset r k lookup) :
    OneState run limit offset r ↔ run.Untorn q limit offset lookup := by
  have hmoment := Moment.exists_moment_iff (run.finite_pieces q limit offset)
    (fun piece _ => run.neverReturns_value q piece) (run.readAt lookup)
  have hcross := @RequestRun.not_crosses_pieces_iff up q limit offset run lookup
    fun token htoken => (hlookup token htoken).1
  have hmem : Piece.total ∈ run.pieces q limit offset := Set.mem_insert _ _
  rw [oneState_iff hq hlimit hoffset run hrows htotal hlookup]
  constructor
  · rintro ⟨n, hpage, hpieces⟩
    obtain ⟨hfeeds, htokens⟩ := hcross.mp (hmoment.mp ⟨n, hpieces⟩)
    have hfeed : q.feed (run.db n) = q.feed (run.views 1) := hpieces _ hmem
    rw [hfeed] at hpage
    exact ⟨(run.slice_eq_iff hpos q).mp hpage, hfeeds, htokens⟩
  · rintro ⟨hpage, hfeeds, htokens⟩
    obtain ⟨n, hpieces⟩ := hmoment.mpr (hcross.mpr ⟨hfeeds, htokens⟩)
    have hfeed : q.feed (run.db n) = q.feed (run.views 1) := hpieces _ hmem
    refine ⟨n, ?_, hpieces⟩
    rw [hfeed]
    exact (run.slice_eq_iff hpos q).mpr hpage

/-- **One response, one index state: exactly when no commits between the statements tear it.** A
request that a route makes returns whatever is committed in between. Some one state of the run gives
the same items and the same total exactly when no row comes to the feed between the page and the
count, or the page is past its end, and no commits after the count change the feed or what is shown
of one token and, with it or later, what is shown of a token that is looked up after them. Then the
number of rows is what the total gives. -/
theorem one_index_state (hq : q.Fits) (hpos : 0 < limit) (hlimit : limit < 2 ^ 63)
    (hoffset : offset < 2 ^ 63) (run : RequestRun up) :
    ∃ r k, q.read limit offset run.views 0 = .ok (r, k) ∧
      (∃ lookup, run.LookedUp limit offset r k lookup) ∧
      (∀ lookup, run.LookedUp limit offset r k lookup →
        (OneState run limit offset r ↔ run.Untorn q limit offset lookup)) ∧
      (OneState run limit offset r → r.rows.length = min limit (r.total - offset)) := by
  obtain ⟨tokens, k, hread, htokens⟩ := @PagedQuery.read_ok q run.views limit offset hq
    (run.countsExact _) hlimit hoffset
  choose! lookup hlookup using htokens
  exact ⟨_, k, hread, ⟨lookup, hlookup⟩,
    fun _ h => oneState_iff_untorn hq hpos hlimit hoffset run rfl rfl h,
    fun h => h.length_rows hq hlimit hoffset⟩

/-! ### Requests around commits -/

/-- A request on a fresh index: its first `m` statements see what `before` has committed, the others
what `during` has committed as well. -/
def requestAround (before during : List LoopAction) (m : ℕ) : RequestRun plainUpstream where
  toExecution := .ofSchedule (s := ⟨freshDb 7, none, []⟩) (.init ⟨7, rfl⟩) (before ++ during)
  start k := if k < m then before.length else before.length + during.length
  mono i j hij := by
    dsimp only
    split <;> split <;> omega

/-- The commit of block `0`. -/
def firstBlock : List LoopAction :=
  [.begin (steadyChain.block 0) (steadyChain.receipts 0), .step .readStates, .step (.commit none),
    .step .record, .step .observe]

/-- A commit between the page and the count: no rows, and a total of `1`. -/
theorem one_index_state_torn : ∃ r k,
    (PagedQuery.txsByType 0).read 25 0 (requestAround [] firstBlock 1).views 0 = .ok (r, k) ∧
      r.rows = [] ∧ r.total = 1 ∧ r.rows.length ≠ min 25 (r.total - 0) ∧
      ¬ OneState (requestAround [] firstBlock 1) 25 0 r := by
  obtain ⟨tokens, k, hread, -⟩ := @PagedQuery.read_ok (.txsByType 0)
    (requestAround [] firstBlock 1).views 25 0 trivial (RequestRun.countsExact _ _) (by decide)
    (by decide)
  have hrows : Page.slice 25 0 (typePointers ((requestAround [] firstBlock 1).views 0) 0) = [] := by
    decide +kernel
  have htotal : (typePointers ((requestAround [] firstBlock 1).views 1) 0).length = 1 := by
    decide +kernel
  have htorn : (Page.slice 25 0 (typePointers ((requestAround [] firstBlock 1).views 0) 0)).length ≠
      min 25 ((typePointers ((requestAround [] firstBlock 1).views 1) 0).length - 0) := by
    rw [hrows, htotal]
    decide
  exact ⟨_, k, hread, hrows, htotal, htorn, fun h =>
    htorn (h.length_rows trivial (by decide) (by decide))⟩

/-- Index a block with the given receipts, when the metadata of its token can be decoded. -/
def recoveringBlock (n : ℕ) (receipts : List Receipt) : List LoopAction :=
  [.begin (steadyChain.block n) receipts, .step .readStates,
    .step (.fetch (some ⟨none, some "T", some 18⟩) 100), .step (.commit none), .step .record,
    .step .observe]

/-- One receipt with a transfer of the token `7` between two other accounts. -/
def otherReceipts : List Receipt :=
  [⟨true, 21000, [⟨7, [TRANSFER_TOPIC, 3, 4], List.replicate 32 0⟩]⟩]

/-- A request whose lookups come after a second block with the receipts, which recovers the metadata
of the token on its page. -/
def recoveredRequest (receipts : List Receipt) : RequestRun plainUpstream :=
  requestAround (failingBlock 0) (recoveringBlock 1 receipts) 2

theorem start_recoveredRequest (receipts : List Receipt) :
    (∀ k < 2, (recoveredRequest receipts).start k = 6) ∧
      ∀ k ≥ 2, (recoveredRequest receipts).start k = 12 :=
  ⟨fun _ hk => if_pos hk, fun _ hk => if_neg (not_lt.mpr hk)⟩

/-- When that block also adds a row to the feed, the page and the total are of the state before it,
and the items show what came with it. -/
theorem not_oneState_of_recovered : ∃ r k, (PagedQuery.tokenTransfers (addrHex 7)).read 25 0
    (recoveredRequest tokenReceipts).views 0 = .ok (r, k) ∧
      r.rows.length = min 25 (r.total - 0) ∧
      ¬ OneState (recoveredRequest tokenReceipts) 25 0 r := by
  have htoken : addrHex 7 ∈
      (recoveredRequest tokenReceipts).tokens (.tokenTransfers (addrHex 7)) 25 0 := by
    decide +kernel
  have hfeed : tokenTransferRows ((recoveredRequest tokenReceipts).db 10) (addrHex 7) ≠
      tokenTransferRows ((recoveredRequest tokenReceipts).db 9) (addrHex 7) := by
    decide +kernel
  have hshown : shownToken (tokenRow ((recoveredRequest tokenReceipts).db 10) (addrHex 7)) ≠
      shownToken (tokenRow ((recoveredRequest tokenReceipts).db 9) (addrHex 7)) := by
    decide +kernel
  obtain ⟨hbefore, hafter⟩ := start_recoveredRequest tokenReceipts
  generalize recoveredRequest tokenReceipts = run at *
  have hviews : run.views 1 = run.views 0 := by
    rw [RequestRun.views, RequestRun.views, hbefore 1 (by decide), hbefore 0 (by decide)]
  obtain ⟨tokens, k, hread, htokens⟩ := @PagedQuery.read_ok (.tokenTransfers (addrHex 7)) run.views
    25 0 trivial (run.countsExact _) (by decide) (by decide)
  choose! lookup hlookup using htokens
  refine ⟨_, k, hread, by rw [hviews]; exact Page.length_slice 25 0 _, fun h => ?_⟩
  have huntorn := (@oneState_iff_untorn _ (.tokenTransfers (addrHex 7)) 25 0 trivial (by decide)
    (by decide) (by decide) run ⟨_, _, tokens⟩ k lookup rfl rfl hlookup).mp h
  refine huntorn.total _ htoken ⟨9, 9, ?_, le_rfl, ?_, hfeed, hshown⟩
  · rw [hbefore 1 (by decide)]
    decide
  · rw [hafter _ (hlookup _ htoken).1]
    decide

/-- When it adds no row to the feed of the route, the response is the one of the state after it. -/
theorem one_index_state_recovered :
    shownToken (tokenRow ((recoveredRequest otherReceipts).views 1) (addrHex 7)) = (none, 0) ∧
      shownToken (tokenRow ((recoveredRequest otherReceipts).views 2) (addrHex 7)) =
        (some "T", 18) ∧
      (recoveredRequest otherReceipts).tokens (.addressTransfers (addrHex 1)) 25 0 = [addrHex 7] ∧
      ∃ r k, (PagedQuery.addressTransfers (addrHex 1)).read 25 0
        (recoveredRequest otherReceipts).views 0 = .ok (r, k) ∧
        OneState (recoveredRequest otherReceipts) 25 0 r := by
  have hfeed : addressTransferRows ((recoveredRequest otherReceipts).db 12) (addrHex 1) =
      addressTransferRows ((recoveredRequest otherReceipts).db 6) (addrHex 1) := by
    decide +kernel
  refine ⟨by decide +kernel, by decide +kernel, by decide +kernel, ?_⟩
  obtain ⟨hbefore, hafter⟩ := start_recoveredRequest otherReceipts
  generalize recoveredRequest otherReceipts = run at *
  obtain ⟨r, k, hread, ⟨lookup, hlookup⟩, hone, -⟩ := @one_index_state _
    (.addressTransfers (addrHex 1)) 25 0 trivial (by decide) (by decide) (by decide) run
  refine ⟨r, k, hread, (hone lookup hlookup).mpr ?_⟩
  refine ⟨Or.inl ?_, fun token htoken => ?_, fun token htoken token' htoken' => ?_⟩
  · rw [RequestRun.views, RequestRun.views, hbefore 1 (by decide), hbefore 0 (by decide)]
  · rw [hbefore 1 (by decide), hafter _ (hlookup token htoken).1]
    exact Moment.not_crosses (run.neverReturns_feed (.addressTransfers (addrHex 1)))
      (run.neverReturns_shownToken token) hfeed rfl
  · rw [hafter _ (hlookup token htoken).1, hafter _ (hlookup token' htoken').1]
    exact Moment.not_crosses_of_le le_rfl

end OneState

end ExplorerIndexer
