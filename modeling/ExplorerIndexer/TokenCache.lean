import ExplorerIndexer.IndexLoop

/-!
# The token cache

A row of `tokens` is a small machine: unseen, ok, one failure, failed for good. The upsert alone
would let a row leave ok or failed for good. What keeps the machine is the loop around it:
candidates are distinct, only unseen tokens and those with one failure are fetched, and nobody else
writes between the read of the states and the commit.

## Main definitions

* `StatusChange` — the moves of the machine
* `Pending` — what the loop knows about the tokens of its block while it fetches
* `TokenInvariant` — the invariant of the loop

## Main results

* `find?_upsertTokens` — what the upserts of one block do to one key
* `token_status_machine` — the machine, its frozen states and the meaning of its statuses
-/

namespace ExplorerIndexer

/-- At least one metadata column is not null. -/
def StoredToken.HasField (r : StoredToken) : Prop :=
  r.name.isSome ∨ r.symbol.isSome ∨ r.decimals.isSome

/-- A row as the loop hands it over: ok with a field, or failed without one. -/
def TokenRow.Attempt (row : TokenRow) : Prop :=
  (row.status = 0 ∧ (StoredToken.ofRow row).HasField) ∨
    (row.status = 1 ∧ ¬ (StoredToken.ofRow row).HasField)

/-- The moves of a token's status; `none` is a token that has no row. -/
inductive StatusChange : Option ℕ → Option ℕ → Prop where
  | stay (s : Option ℕ) : StatusChange s s
  | seen : StatusChange none (some 0)
  | failed : StatusChange none (some 1)
  | recovered : StatusChange (some 1) (some 0)
  | gaveUp : StatusChange (some 1) (some 2)

/-- What a commit does to the row of one token. -/
inductive TokenChange : Option StoredToken → Option StoredToken → Prop where
  | stay (r : Option StoredToken) : TokenChange r r
  | insert {row : TokenRow} (h : row.Attempt) : TokenChange none (some (.ofRow row))
  | retry {old : StoredToken} {row : TokenRow} (hold : old.status = 1) (h : row.Attempt) :
      TokenChange (some old) (some (escalate.update old (.ofRow row)))

/-- The status stored under a key. -/
def Db.statusAt (db : Db) (key : String) : Option ℕ :=
  (db.tokens.find? key).map StoredToken.status

theorem attempt_ofFetch (token : Address) (metadata : TokenMetadata) (now : ℕ) :
    (TokenRow.ofFetch token metadata now).Attempt := by
  rw [TokenRow.Attempt, StoredToken.HasField]
  cases hok : metadata.anyDecoded with
  | true =>
    refine Or.inl ⟨by simp [TokenRow.ofFetch, hok], ?_⟩
    simpa [TokenMetadata.anyDecoded, StoredToken.ofRow, TokenRow.ofFetch, or_assoc] using hok
  | false =>
    refine Or.inr ⟨by simp [TokenRow.ofFetch, hok], ?_⟩
    simpa [TokenMetadata.anyDecoded, StoredToken.ofRow, TokenRow.ofFetch, and_assoc] using hok

@[simp] theorem status_ofRow (row : TokenRow) : (StoredToken.ofRow row).status = row.status := rfl

@[simp] theorem hasField_escalate (old new : StoredToken) :
    (escalate.update old new).HasField ↔ new.HasField := Iff.rfl

/-- A failure over a failure is final; everything else is the new status. -/
theorem status_escalate_of_one {old new : StoredToken} (h : old.status = 1) :
    (escalate.update old new).status = if new.status = 0 then 0 else 2 := by
  by_cases hnew : new.status = 0 <;> simp [escalate, h, hnew]

theorem TokenChange.status {old new : Option StoredToken} (h : TokenChange old new) :
    StatusChange (old.map StoredToken.status) (new.map StoredToken.status) := by
  cases h with
  | stay => exact .stay _
  | @insert row h =>
    rw [Option.map_none, Option.map_some, status_ofRow]
    rcases h with ⟨h, -⟩ | ⟨h, -⟩
    · rw [h]; exact .seen
    · rw [h]; exact .failed
  | @retry old row hold h =>
    rw [Option.map_some, Option.map_some, status_escalate_of_one hold, hold, status_ofRow]
    rcases h with ⟨h, -⟩ | ⟨h, -⟩
    · rw [h]; exact .recovered
    · rw [h]; exact .gaveUp

/-- An ok row and one that failed for good are never touched. -/
theorem TokenChange.frozen {row : StoredToken} {new : Option StoredToken}
    (h : TokenChange (some row) new) (hstatus : row.status = 0 ∨ row.status = 2) :
    new = some row := by
  cases h with
  | stay => rfl
  | retry hold => omega

theorem TokenRow.Attempt.sound {row : TokenRow} (h : row.Attempt) :
    row.status = 0 ↔ (StoredToken.ofRow row).HasField := by
  rcases h with ⟨hs, hf⟩ | ⟨hs, hf⟩
  · exact iff_of_true hs hf
  · exact iff_of_false (by rw [hs]; decide) hf

/-- The statuses keep their meaning: ok is having a field. -/
theorem TokenChange.sound {old new : Option StoredToken} (h : TokenChange old new)
    (hold : ∀ r ∈ old, (r.status = 0 ↔ r.HasField)) : ∀ r ∈ new, (r.status = 0 ↔ r.HasField) := by
  intro r hr
  cases h with
  | stay => exact hold r hr
  | @insert row h =>
    cases hr
    exact h.sound
  | @retry old row hone h =>
    cases hr
    rw [status_escalate_of_one hone, hasField_escalate, ← h.sound, status_ofRow]
    split <;> simp_all

/-! ### The upserts of one block -/

/-- **What the upserts of one block do to one key**, when no token has two rows. -/
theorem find?_upsertTokens (tokens : Table StoredToken.address) {rows : List TokenRow}
    (hnodup : (rows.map TokenRow.address).Nodup) (key : String) :
    (upsertTokens tokens rows).find? key =
      match rows.find? fun row => addrHex row.address = key with
      | none => tokens.find? key
      | some row =>
        some (((tokens.find? key).map (escalate.update · (.ofRow row))).getD (.ofRow row)) := by
  induction rows generalizing tokens with
  | nil => rfl
  | cons row rows ih =>
    rw [List.map_cons, List.nodup_cons] at hnodup
    have hstep := ih (tokens.upsert escalate (.ofRow row)) hnodup.2
    change (upsertTokens (tokens.upsert escalate (.ofRow row)) rows).find? key = _
    rw [hstep]
    by_cases hkey : addrHex row.address = key
    · have hnone : rows.find? (fun row => addrHex row.address = key) = none := by
        rw [List.find?_eq_none]
        intro row' hrow' hc
        refine hnodup.1 (List.mem_map.mpr ⟨row', hrow', addrHex_injective ?_⟩)
        rw [hkey]
        simpa using hc
      rw [hnone, List.find?_cons_of_pos (by simpa using hkey)]
      subst hkey
      exact Table.find?_upsert_self escalate tokens (.ofRow row)
    · rw [List.find?_cons_of_neg (by simpa using hkey),
        Table.find?_upsert_of_ne escalate tokens (r := .ofRow row) fun hc => hkey hc.symm]

/-! ### The loop -/

/-- What the loop knows while it fetches: the tokens of its rows and those still to fetch are
distinct, and each is unseen or has failed once. -/
structure Pending (db : Db) (need : List Address) (rows : List TokenRow) : Prop where
  nodup : (rows.map TokenRow.address ++ need).Nodup
  retryable : ∀ token ∈ rows.map TokenRow.address ++ need,
    db.tokenStatus token = none ∨ db.tokenStatus token = some 1
  attempts : ∀ row ∈ rows, row.Attempt

theorem Pending.start (db : Db) {candidates : List Address} (h : candidates.Nodup) :
    Pending db (tokenFetchStates db candidates) [] where
  nodup := h.filter _
  retryable token htoken := by
    have hfilter := (List.mem_filter.mp htoken).2
    split at hfilter
    · next hnone => exact Or.inl hnone
    · next status hsome =>
      rw [hsome]
      exact Or.inr (by simpa using hfilter)
  attempts := by simp

theorem Pending.fetched {db : Db} {token : Address} {need : List Address} {rows : List TokenRow}
    (h : Pending db (token :: need) rows) (metadata : TokenMetadata) (now : ℕ) :
    Pending db need (rows ++ [.ofFetch token metadata now]) := by
  have hlist : (rows ++ [TokenRow.ofFetch token metadata now]).map TokenRow.address ++ need =
      rows.map TokenRow.address ++ token :: need := by simp [TokenRow.ofFetch]
  refine ⟨hlist ▸ h.nodup, hlist ▸ h.retryable, fun row hrow => ?_⟩
  rcases List.mem_append.mp hrow with hrow | hrow
  · exact h.attempts row hrow
  · rw [List.mem_singleton.mp hrow]
    exact attempt_ofFetch token metadata now

/-- The commit of pending rows moves every token by one change of the machine, made by a row of the
commit if it changed at all. -/
theorem Pending.commit {db : Db} {rows : List TokenRow} (h : Pending db [] rows)
    (extracted : ExtractedBlock) (key : String) :
    TokenChange (db.tokens.find? key) ((db.applied extracted rows).tokens.find? key) ∧
      ((db.applied extracted rows).statusAt key = db.statusAt key ∨
        (db.applied extracted rows).statusAt key = some 0 ∨
        ∃ row ∈ rows, addrHex row.address = key ∧ row.status = 1) := by
  have hnodup : (rows.map TokenRow.address).Nodup := by simpa using h.nodup
  have hfind : (db.applied extracted rows).tokens.find? key = _ :=
    find?_upsertTokens db.tokens hnodup key
  rw [Db.statusAt]
  rw [hfind]
  cases hrow : rows.find? fun row => addrHex row.address = key with
  | none => exact ⟨.stay _, Or.inl rfl⟩
  | some row =>
    have hmem := List.mem_of_find?_eq_some hrow
    have hkey : addrHex row.address = key := by simpa using List.find?_some hrow
    have hattempt := h.attempts row hmem
    have hret := h.retryable row.address (by simpa using ⟨row, hmem, rfl⟩)
    rw [Db.tokenStatus] at hret
    rw [hkey] at hret
    have hfailed : row.status = 0 ∨
        ∃ row ∈ rows, addrHex row.address = key ∧ row.status = 1 :=
      hattempt.imp (·.1) fun hf => ⟨row, hmem, hkey, hf.1⟩
    cases hold : db.tokens.find? key with
    | none =>
      refine ⟨.insert hattempt, Or.inr (hfailed.imp_left fun hs => ?_)⟩
      simp [hs]
    | some old =>
      have hone : old.status = 1 := by simpa [hold] using hret
      refine ⟨.retry hone hattempt, Or.inr (hfailed.imp_left fun hs => ?_)⟩
      simp [status_escalate_of_one hone, hs]

/-- What the loop knows at each stage of its block. -/
def StageInvariant (db : Db) (extracted : ExtractedBlock) : Stage → Prop
  | .reading => extracted.tokenCandidates.Nodup ∧ extracted.number < 2 ^ 64
  | .fetching need rows => Pending db need rows ∧ extracted.number < 2 ^ 64
  | .recording _ | .observing => True

/-- The commit of block `n` counted a failure against the token stored under `key`. -/
def FailedIn (commits : List (ℕ × List TokenRow)) (key : String) (n : ℕ) : Prop :=
  ∃ rows, (n, rows) ∈ commits ∧ ∃ row ∈ rows, addrHex row.address = key ∧ row.status = 1

theorem FailedIn.append {commits : List (ℕ × List TokenRow)} {key : String} {n : ℕ}
    (h : FailedIn commits key n) (later : List (ℕ × List TokenRow)) :
    FailedIn (commits ++ later) key n := by
  obtain ⟨rows, hmem, hrow⟩ := h
  exact ⟨rows, List.mem_append_left _ hmem, hrow⟩

/-- Ok rows have a field and the others have none; one failure stands for a failed commit, two for
failed commits of two blocks; and no commit is above the cursor. -/
structure TokenInvariant (s : LoopState) : Prop where
  sound : ∀ key, ∀ row ∈ s.db.tokens.find? key, (row.status = 0 ↔ row.HasField)
  stage : ∀ extracted stage, s.current = some (extracted, stage) →
    StageInvariant s.db extracted stage
  below : ∀ n rows, (n, rows) ∈ s.commits → s.db.Indexed n
  once : ∀ key, s.db.statusAt key = some 1 → ∃ n, FailedIn s.commits key n
  twice : ∀ key, s.db.statusAt key = some 2 →
    ∃ n m, n ≠ m ∧ FailedIn s.commits key n ∧ FailedIn s.commits key m

/-- The invariant does not depend on the block in hand when the database stays. -/
theorem TokenInvariant.of_same_db {s t : LoopState} (h : TokenInvariant s) (hdb : t.db = s.db)
    (hcommits : t.commits = s.commits)
    (hstage : ∀ extracted stage, t.current = some (extracted, stage) →
      StageInvariant s.db extracted stage) : TokenInvariant t where
  sound := by rw [hdb]; exact h.sound
  stage := by rw [hdb]; exact hstage
  below := by rw [hdb, hcommits]; exact h.below
  once := by rw [hdb, hcommits]; exact h.once
  twice := by rw [hdb, hcommits]; exact h.twice

/-- The commit step. -/
theorem TokenInvariant.applied {s : LoopState} (h : TokenInvariant s) {extracted : ExtractedBlock}
    {rows : List TokenRow} (hcurrent : s.current = some (extracted, .fetching [] rows))
    (habove : ∀ c, s.db.cursor = some c → c < extracted.number) :
    TokenInvariant (s.after extracted (.fetching [] rows) (s.db.applied extracted rows)
      (.into (.recording true))) := by
  obtain ⟨hpending, hbound⟩ := h.stage _ _ hcurrent
  have hcursor := cursor_applied s.db extracted rows hbound
  -- A row of this commit that failed is a failure in this block, which no earlier commit is of.
  have hnew : ∀ key, (∃ row ∈ rows, addrHex row.address = key ∧ row.status = 1) →
      FailedIn (s.commits ++ [(extracted.number, rows)]) key extracted.number := fun key hrow =>
    ⟨rows, List.mem_append_right _ (List.mem_singleton.mpr rfl), hrow⟩
  have hother : ∀ key n, FailedIn s.commits key n → n ≠ extracted.number := by
    rintro key n ⟨rows', hmem, -⟩ rfl
    obtain ⟨c, hc, hle⟩ := h.below _ _ hmem
    have := habove c hc
    omega
  refine ⟨fun key => ?_, ?_, fun n rows' hmem => ?_, fun key hstatus => ?_, fun key hstatus => ?_⟩
  · exact (hpending.commit extracted key).1.sound (h.sound key)
  · intro extracted' stage hcur
    cases hcur
    trivial
  · refine ⟨extracted.number, hcursor, ?_⟩
    rcases List.mem_append.mp hmem with hmem | hmem
    · obtain ⟨c, hc, hle⟩ := h.below _ _ hmem
      exact Nat.le_of_lt (Nat.lt_of_le_of_lt hle (habove c hc))
    · cases List.mem_singleton.mp hmem
      exact Nat.le_refl _
  · change (s.db.applied extracted rows).statusAt key = some 1 at hstatus
    rcases (hpending.commit extracted key).2 with hsame | hzero | hrow
    · obtain ⟨n, hn⟩ := h.once key (hsame ▸ hstatus)
      exact ⟨n, hn.append _⟩
    · rw [hzero] at hstatus
      cases hstatus
    · exact ⟨_, hnew key hrow⟩
  · change (s.db.applied extracted rows).statusAt key = some 2 at hstatus
    rcases (hpending.commit extracted key).2 with hsame | hzero | hrow
    · obtain ⟨n, m, hne, hn, hm⟩ := h.twice key (hsame ▸ hstatus)
      exact ⟨n, m, hne, hn.append _, hm.append _⟩
    · rw [hzero] at hstatus
      cases hstatus
    · have hchange : StatusChange (s.db.statusAt key) (some 2) :=
        hstatus ▸ (hpending.commit extracted key).1.status
      generalize hold : s.db.statusAt key = old at hchange
      cases hchange with
      | stay =>
        obtain ⟨n, m, hne, hn, hm⟩ := h.twice key hold
        exact ⟨n, m, hne, hn.append _, hm.append _⟩
      | gaveUp =>
        obtain ⟨n, hn⟩ := h.once key hold
        exact ⟨n, extracted.number, hother key n hn, hn.append _, hnew key hrow⟩

theorem tokenInvariant_step {up : Upstream} {s t : LoopState} (h : TokenInvariant s)
    (ht : LoopState.Step up s t) : TokenInvariant t := by
  cases ht with
  | begin block receipts hnone hbound =>
    refine h.of_same_db rfl rfl fun extracted stage hcur => ?_
    cases hcur
    exact ⟨nodup_tokenCandidates_extractBlock up block receipts, by rwa [number_extractBlock]⟩
  | @body extracted stage db progress hcurrent hstep =>
    have hstage := h.stage _ _ hcurrent
    cases hstep with
    | read =>
      refine h.of_same_db rfl rfl fun extracted' stage' hcur => ?_
      cases hcur
      exact ⟨.start s.db hstage.1, hstage.2⟩
    | fetched token need rows metadata now =>
      refine h.of_same_db rfl rfl fun extracted' stage' hcur => ?_
      cases hcur
      exact ⟨hstage.1.fetched metadata now, hstage.2⟩
    | failed => exact h.of_same_db rfl (by simp [LoopState.after]) nofun
    | applied rows habove => exact h.applied hcurrent habove
    | skipped rows c hc hle =>
      refine h.of_same_db rfl rfl fun extracted' stage' hcur => ?_
      cases hcur
      trivial
    | recorded indexed =>
      refine h.of_same_db rfl rfl fun extracted' stage' hcur => ?_
      cases hcur
      trivial
    | observed => exact h.of_same_db rfl rfl nofun
  | exit => exact h.of_same_db rfl rfl nofun

theorem token_invariant {up : Upstream} {s : LoopState} (hs : (loopSystem up).Reachable s) :
    TokenInvariant s := by
  induction hs with
  | init hi =>
    obtain ⟨chainId, rfl⟩ := hi
    exact ⟨nofun, nofun, nofun, nofun, nofun⟩
  | step _ ht ih => exact tokenInvariant_step ih (LoopState.step_spec ht)

/-- One step of the loop moves every token by one change of the machine. -/
theorem token_change {up : Upstream} {s t : LoopState} (h : TokenInvariant s)
    (ht : LoopState.Step up s t) (key : String) :
    TokenChange (s.db.tokens.find? key) (t.db.tokens.find? key) := by
  cases ht with
  | begin => exact .stay _
  | body hcurrent hstep =>
    cases hstep with
    | applied rows habove => exact ((h.stage _ _ hcurrent).1.commit _ key).1
    | _ => exact .stay _
  | exit => exact .stay _

/-- An ok row and one that failed for good stay along every run. -/
theorem find?_of_run {up : Upstream} {s t : LoopState} (hs : (loopSystem up).Reachable s)
    {actions : List LoopAction} (hrun : (loopSystem up).run s actions = some t) {key : String}
    {row : StoredToken} (hrow : s.db.tokens.find? key = some row)
    (hstatus : row.status = 0 ∨ row.status = 2) : t.db.tokens.find? key = some row := by
  refine (TransitionSystem.run_invariant (S := loopSystem up)
    (P := fun u => TokenInvariant u ∧ u.db.tokens.find? key = some row) ?_ hrun
      ⟨token_invariant hs, hrow⟩).2
  rintro u action v ⟨hu, hrow⟩ hv
  have hstep := LoopState.step_spec hv
  have hchange := token_change hu hstep key
  rw [hrow] at hchange
  exact ⟨tokenInvariant_step hu hstep, hchange.frozen hstatus⟩

/-- **The token status machine.** Along every run of the loop: a step changes a status by one move
of the machine; a row with status 0 or 2 never changes again; a token has status 2 only after failed
fetches committed with two different blocks; and a row has status 0 exactly when a metadata column
is not null. -/
theorem token_status_machine {up : Upstream} {s : LoopState} (hs : (loopSystem up).Reachable s) :
    (∀ action t key, s.step up action = some t →
      StatusChange (s.db.statusAt key) (t.db.statusAt key)) ∧
    (∀ actions t key row, (loopSystem up).run s actions = some t →
      s.db.tokens.find? key = some row → row.status = 0 ∨ row.status = 2 →
        t.db.tokens.find? key = some row) ∧
    (∀ key, s.db.statusAt key = some 2 →
      ∃ n m, n ≠ m ∧ FailedIn s.commits key n ∧ FailedIn s.commits key m) ∧
    ∀ row ∈ s.db.tokens.rows, (row.status = 0 ↔ row.HasField) := by
  have hinv := token_invariant hs
  refine ⟨fun action t key ht => ?_, fun actions t key row hrun => find?_of_run hs hrun, hinv.twice,
    fun row hrow => ?_⟩
  · exact (token_change hinv (LoopState.step_spec ht) key).status
  · exact hinv.sound row.address row (Table.mem_iff_find?.mp hrow)

/-- Index a block with a transfer, while the metadata of the token cannot be decoded. -/
def failingBlock (n : ℕ) : List LoopAction :=
  [.begin (steadyChain.block n) tokenReceipts, .step .readStates,
    .step (.fetch (some ⟨none, none, none⟩) 100), .step (.commit none), .step .record,
    .step .observe]

/-- Two blocks, two failures, one token given up. -/
theorem token_status_machine_twice :
    ∃ s, (loopSystem plainUpstream).run ⟨freshDb 7, none, []⟩
        (failingBlock 0 ++ .exit :: failingBlock 1) = some s ∧
      s.db.statusAt (addrHex 7) = some 2 ∧
      ∃ n m, n ≠ m ∧ FailedIn s.commits (addrHex 7) n ∧ FailedIn s.commits (addrHex 7) m := by
  have hrun : ((loopSystem plainUpstream).run ⟨freshDb 7, none, []⟩
      (failingBlock 0 ++ .exit :: failingBlock 1)).map (·.db.statusAt (addrHex 7)) =
        some (some 2) := by
    decide +kernel
  obtain ⟨s, hs, hstatus⟩ := Option.map_eq_some_iff.mp hrun
  have hstart : (loopSystem plainUpstream).Reachable ⟨freshDb 7, none, []⟩ := .init ⟨7, rfl⟩
  exact ⟨s, hs, hstatus, (token_status_machine (hstart.trans_run hs)).2.2.1 _ hstatus⟩

end ExplorerIndexer
