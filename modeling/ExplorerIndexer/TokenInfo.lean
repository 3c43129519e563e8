import ExplorerIndexer.AbiReturn
import ExplorerIndexer.Api
import ExplorerIndexer.TokenCache

/-!
# Token metadata over the API

`GET /tokens/{addr}` answers from the cache when it has a row, and from the contract when it has
none. The API never writes, so the two paths run side by side: a token is answered live until the
loop has indexed a transfer of it, and from its row from then on. The supply is live on both.

## Main definitions

* `fetchTotalSupply`, `Api.tokenInfo` — the handler
* `FetchesAs` — a run during which a contract keeps its metadata
* `MetadataKept` — what such a run leaves in the cache

## Main results

* `token_info_transparent` — while a contract keeps its metadata, indexing it does not change what
  the API answers, except that a failure may become final
* `token_info_sound` — what the status in an answer means, and which answers are final
-/

namespace ExplorerIndexer

/-! ### The handler -/

/-- `totalSupply()`. -/
def SEL_TOTAL_SUPPLY : Bytes := [0x18, 0x16, 0x0d, 0xdd]

/-- The supply at the tip, in decimal. `decodeU256` is `U256::abi_decode`, its errors dropped. -/
def fetchTotalSupply (decodeU256 : Bytes → Option ℕ) (env : RethEnv) (token : Address) :
    Except Report (Option String) := do
  let bytes ← readMetadataBytes env token SEL_TOTAL_SUPPLY
  return (bytes.bind decodeU256).map Nat.repr

section Handler

variable {ε : Type}

/-- `token_metadata_and_supply`. -/
def tokenMetadataAndSupply (abi : AbiDecode ε) (decodeU256 : Bytes → Option ℕ) (env : RethEnv)
    (token : Address) : Except Report (TokenMetadata × Option String) := do
  let metadata ← fetchTokenMetadata abi env token
  let supply ← fetchTotalSupply decodeU256 env token
  return (metadata, supply)

/-- The body of `GET /tokens/{addr}`. -/
structure ApiTokenInfo where
  address : String
  name : Option String
  symbol : Option String
  decimals : Option ℕ
  totalSupply : Option String
  metadataStatus : ℕ
  deriving DecidableEq, Repr

/-- `GET /tokens/{addr}`. -/
def Api.tokenInfo (addressFromStr : String → Option Address) (abi : AbiDecode ε)
    (decodeU256 : Bytes → Option ℕ) (env : RethEnv) (views : ℕ → Db) (raw : String) :
    Except ApiError ApiTokenInfo := do
  let address ← parseAddress addressFromStr raw
  let key := addrHex address
  match ← withConn (select fun db => .ok (tokenRow db key)) views with
  | some row =>
    let totalSupply ← liftNode (fetchTotalSupply decodeU256 env address)
    return ⟨key, row.name, row.symbol, row.decimals, totalSupply, row.status⟩
  | none =>
    let (metadata, totalSupply) ← liftNode (tokenMetadataAndSupply abi decodeU256 env address)
    return ⟨key, metadata.name, metadata.symbol, metadata.decimals, totalSupply,
      if metadata.anyDecoded then 0 else 1⟩

variable {addressFromStr : String → Option Address} {abi : AbiDecode ε}
  {decodeU256 : Bytes → Option ℕ} {env : RethEnv} {raw : String} {token : Address} {db : Db}

/-- What a row and a supply are answered with. -/
def StoredToken.info (row : StoredToken) (key : String) (totalSupply : Option String) :
    ApiTokenInfo :=
  ⟨key, row.name, row.symbol, row.decimals, totalSupply, row.status⟩

/-- What live metadata and a supply are answered with. -/
def TokenMetadata.info (m : TokenMetadata) (key : String) (totalSupply : Option String) :
    ApiTokenInfo :=
  ⟨key, m.name, m.symbol, m.decimals, totalSupply, if m.anyDecoded then 0 else 1⟩

/-- A hit reads the supply; a miss reads the metadata, then the supply. -/
theorem tokenInfo_eq (haddr : addressFromStr raw = some token) :
    Api.tokenInfo addressFromStr abi decodeU256 env (fun _ => db) raw =
      match db.tokens.find? (addrHex token) with
      | some row =>
        (liftNode (fetchTotalSupply decodeU256 env token)).map (row.info (addrHex token))
      | none =>
        (liftNode (tokenMetadataAndSupply abi decodeU256 env token)).map
          fun read => read.1.info (addrHex token) read.2 := by
  have hparse : parseAddress addressFromStr raw = .ok token := by
    rw [parseAddress, haddr]
    rfl
  have hread : withConn (select fun db => .ok (tokenRow db (addrHex token))) (fun _ => db) =
      .ok (db.tokens.find? (addrHex token)) := rfl
  simp only [Api.tokenInfo, hparse, hread, bind, Except.bind]
  cases db.tokens.find? (addrHex token) with
  | some row => cases liftNode (fetchTotalSupply decodeU256 env token) <;> rfl
  | none => cases liftNode (tokenMetadataAndSupply abi decodeU256 env token) <;> rfl

theorem liftNode_tokenMetadataAndSupply {m : TokenMetadata}
    (h : fetchTokenMetadata abi env token = .ok m) :
    liftNode (tokenMetadataAndSupply abi decodeU256 env token) =
      (liftNode (fetchTotalSupply decodeU256 env token)).map (m, ·) := by
  rw [tokenMetadataAndSupply, h]
  cases fetchTotalSupply decodeU256 env token <;> rfl

end Handler

/-! ### Metadata that stays -/

section Kept

variable {up : Upstream} {token : Address} {m : TokenMetadata} {s t : LoopState}

/-- A row shows the metadata. -/
def StoredToken.Shows (row : StoredToken) (m : TokenMetadata) : Prop :=
  row.name = m.name ∧ row.symbol = m.symbol ∧ row.decimals = m.decimals

theorem shows_ofFetch (token : Address) (m : TokenMetadata) (now : ℕ) :
    (StoredToken.ofRow (.ofFetch token m now)).Shows m := ⟨rfl, rfl, rfl⟩

/-- The columns of an upserted row are the new ones. -/
theorem shows_escalate {old new : StoredToken} (h : new.Shows m) :
    (escalate.update old new).Shows m := h

theorem StoredToken.Shows.hasField {row : StoredToken} (h : row.Shows m) :
    row.HasField ↔ m.anyDecoded = true := by
  rw [StoredToken.HasField, h.1, h.2.1, h.2.2]
  simp [TokenMetadata.anyDecoded, or_assoc]

/-- A fetch of the token that the node answers gives the metadata `m`. -/
def FetchesAs (token : Address) (m : TokenMetadata) (s : LoopState) : LoopAction → Prop
  | .step (.fetch (some metadata) _) =>
    ∀ extracted need rows, s.current = some (extracted, .fetching (token :: need) rows) →
      metadata = m
  | _ => True

/-- What is stored of the token, and what has been fetched of it for the block in hand, shows the
metadata `m`. -/
structure MetadataKept (token : Address) (m : TokenMetadata) (s : LoopState) : Prop where
  stored : ∀ row, s.db.tokens.find? (addrHex token) = some row → row.Shows m
  fetched : ∀ extracted need rows, s.current = some (extracted, .fetching need rows) →
    ∀ row ∈ rows, row.address = token → (StoredToken.ofRow row).Shows m

theorem MetadataKept.of_same_db (h : MetadataKept token m s) (hdb : t.db = s.db)
    (hrows : ∀ extracted need rows, t.current = some (extracted, .fetching need rows) →
      ∀ row ∈ rows, row.address = token → (StoredToken.ofRow row).Shows m) :
    MetadataKept token m t := ⟨by rw [hdb]; exact h.stored, hrows⟩

/-- The rows after a fetch end with the one that was fetched. -/
theorem Stage.fetched_eq {extracted : ExtractedBlock} {db db' : Db} {next : Address}
    {need need' : List Address} {rows rows' : List TokenRow} {action : StageAction}
    (h : (Stage.fetching (next :: need) rows).step extracted db action =
      some (db', .into (.fetching need' rows'))) :
    ∃ metadata now, action = .fetch (some metadata) now ∧
      rows' = rows ++ [.ofFetch next metadata now] := by
  cases action with
  | fetch result now =>
    cases result with
    | none => cases h
    | some metadata =>
      cases h
      exact ⟨metadata, now, rfl, rfl⟩
  | readStates | commit | record | observe => cases h

/-- **A commit keeps the metadata.** -/
theorem MetadataKept.applied (h : MetadataKept token m s) {extracted : ExtractedBlock}
    {rows : List TokenRow} (hcurrent : s.current = some (extracted, .fetching [] rows))
    (hnodup : (rows.map TokenRow.address).Nodup) :
    ∀ row, (s.db.applied extracted rows).tokens.find? (addrHex token) = some row → row.Shows m := by
  intro row hrow
  have hfind : (s.db.applied extracted rows).tokens.find? (addrHex token) = _ :=
    find?_upsertTokens s.db.tokens hnodup (addrHex token)
  rw [hfind] at hrow
  split at hrow
  · exact h.stored row hrow
  · next new hnew =>
    have hmem := List.mem_of_find?_eq_some hnew
    have haddress : new.address = token := addrHex_injective (by simpa using List.find?_some hnew)
    have hshows := h.fetched _ _ _ hcurrent new hmem haddress
    cases hold : s.db.tokens.find? (addrHex token) with
    | none =>
      rw [hold, Option.map_none, Option.getD_none] at hrow
      cases hrow
      exact hshows
    | some old =>
      rw [hold, Option.map_some, Option.getD_some] at hrow
      cases hrow
      exact shows_escalate hshows

theorem MetadataKept.step (h : MetadataKept token m s) (hs : TokenInvariant s) {action : LoopAction}
    (hfetches : FetchesAs token m s action) (hstep : s.step up action = some t) :
    MetadataKept token m t := by
  cases action with
  | begin block receipts =>
    simp only [LoopState.step] at hstep
    split at hstep
    · cases hstep
    · split at hstep
      · cases hstep
        exact h.of_same_db rfl (by simp)
      · cases hstep
  | exit =>
    cases hstep
    exact h.of_same_db rfl (by simp)
  | step action =>
    obtain ⟨⟨extracted, stage⟩, hcurrent, hstep⟩ := Option.bind_eq_some_iff.mp hstep
    obtain ⟨⟨db, progress⟩, hbody, hstep⟩ := Option.bind_eq_some_iff.mp hstep
    cases hstep
    cases Stage.step_spec hbody with
    | read =>
      refine h.of_same_db rfl fun extracted' need rows hcur => ?_
      cases hcur
      exact fun row hrow => absurd hrow List.not_mem_nil
    | fetched next need rows metadata now =>
      refine h.of_same_db rfl fun extracted' need' rows' hcur row hrow haddress => ?_
      cases hcur
      obtain ⟨fetched, time, rfl, hrows⟩ := Stage.fetched_eq hbody
      rw [hrows] at hrow
      rcases List.mem_append.mp hrow with hrow | hrow
      · exact h.fetched _ _ _ hcurrent row hrow haddress
      · obtain rfl := List.mem_singleton.mp hrow
        obtain rfl : next = token := haddress
        obtain rfl : fetched = m := hfetches _ _ _ hcurrent
        exact shows_ofFetch next fetched time
    | failed => exact h.of_same_db rfl fun _ _ _ hcur => by cases hcur
    | applied rows habove =>
      have hnodup : (rows.map TokenRow.address).Nodup := by
        simpa using (hs.stage _ _ hcurrent).1.nodup
      exact ⟨h.applied hcurrent hnodup, fun _ _ _ hcur => by cases hcur⟩
    | skipped | recorded => exact h.of_same_db rfl fun _ _ _ hcur => by cases hcur
    | observed => exact h.of_same_db rfl fun _ _ _ hcur => by cases hcur

/-- The statuses are those of the machine. -/
theorem status_le_of_reachable (hs : (loopSystem up).Reachable s) {key : String}
    {row : StoredToken} (hrow : s.db.tokens.find? key = some row) : row.status ≤ 2 := by
  induction hs generalizing row with
  | init hi =>
    obtain ⟨chainId, rfl⟩ := hi
    cases hrow
  | @step s t action hs ht ih =>
    have hchange := token_change (token_invariant hs) (LoopState.step_spec ht) key
    rw [hrow] at hchange
    generalize hold : s.db.tokens.find? key = old at hchange
    cases hchange with
    | stay => exact ih hold
    | insert hattempt =>
      rw [status_ofRow]
      rcases hattempt with ⟨h, -⟩ | ⟨h, -⟩ <;> omega
    | retry hone hattempt =>
      rw [status_escalate_of_one hone]
      split <;> omega

variable {ε : Type} {addressFromStr : String → Option Address} {abi : AbiDecode ε}
  {decodeU256 : Bytes → Option ℕ} {env : RethEnv} {raw : String}

/-- **Indexing a token does not change what the API answers.** Let the loop have no row of a token
and no block in hand, and let the contract keep its metadata: the API reads it live, and whatever
blocks the loop indexes from there on, with whatever crashes, each of its fetches of the token gives
the same. Then the answer stays: same metadata, same supply, same errors. Only the status of a
contract without metadata may become final. -/
theorem token_info_transparent (decodeU256 : Bytes → Option ℕ)
    (hs : (loopSystem up).Reachable s) (hidle : s.current = none)
    (haddr : addressFromStr raw = some token) (hunseen : s.db.tokens.find? (addrHex token) = none)
    (hlive : fetchTokenMetadata abi env token = .ok m) {actions : List LoopAction}
    (hkept : (loopSystem up).AllSteps (FetchesAs token m) s actions)
    (hrun : (loopSystem up).run s actions = some t) :
    ∃ status, (status = (if m.anyDecoded then 0 else 1) ∨ m.anyDecoded = false ∧ status = 2) ∧
      Api.tokenInfo addressFromStr abi decodeU256 env (fun _ => t.db) raw =
        (Api.tokenInfo addressFromStr abi decodeU256 env (fun _ => s.db) raw).map
          fun info => { info with metadataStatus := status } := by
  have hstart : MetadataKept token m s := ⟨by simp [hunseen], by simp [hidle]⟩
  obtain ⟨hinv, hend⟩ : TokenInvariant t ∧ MetadataKept token m t :=
    TransitionSystem.AllSteps.invariant (P := fun u => TokenInvariant u ∧ MetadataKept token m u)
      (fun u action v hu hfetches hv => ⟨tokenInvariant_step hu.1 (LoopState.step_spec hv),
        hu.2.step hu.1 hfetches hv⟩) hkept hrun ⟨token_invariant hs, hstart⟩
  rw [tokenInfo_eq haddr, tokenInfo_eq haddr, hunseen, liftNode_tokenMetadataAndSupply hlive]
  cases hrow : t.db.tokens.find? (addrHex token) with
  | none =>
    refine ⟨if m.anyDecoded then 0 else 1, Or.inl rfl, ?_⟩
    cases liftNode (fetchTotalSupply decodeU256 env token) <;> rfl
  | some row =>
    have hshows := hend.stored row hrow
    refine ⟨row.status, ?_, ?_⟩
    · have hsound := hinv.sound (addrHex token) row hrow
      rw [hshows.hasField] at hsound
      have hle := status_le_of_reachable (hs.trans_run hrun) hrow
      cases hok : m.anyDecoded with
      | true => exact Or.inl (hsound.mpr hok)
      | false =>
        have hne : row.status ≠ 0 := fun hzero => by
          rw [hsound.mp hzero] at hok
          cases hok
        have hfailed : row.status = 1 ∨ row.status = 2 := by omega
        exact hfailed.imp id fun htwo => ⟨rfl, htwo⟩
    · obtain ⟨hname, hsymbol, hdecimals⟩ := hshows
      cases liftNode (fetchTotalSupply decodeU256 env token) with
      | error e => rfl
      | ok supply =>
        show Except.ok (row.info (addrHex token) supply) = _
        rw [StoredToken.info, hname, hsymbol, hdecimals]
        rfl

/-- The API's parser on one address. -/
def addressSeven (raw : String) : Option Address := if raw = addrHex 7 then some 7 else none

/-- `U256::abi_decode` on a return of one word. -/
def wordU256 (bytes : Bytes) : Option ℕ :=
  if 32 ≤ bytes.length then some (fromBeBytes (bytes.take 32)) else none

/-- A node with one contract, which has a supply and no metadata. -/
def namelessEnv : RethEnv where
  __ := steadyChain.env 0
  readContract _ selector :=
    if selector = SEL_TOTAL_SUPPLY then .ok (Abi.toBytes 32 42) else .error .revert

/-- Two blocks with a transfer of the token, and a restart between them. -/
def namelessActions : List LoopAction := failingBlock 0 ++ .exit :: failingBlock 1

theorem namelessActions_kept (s : LoopState) :
    (loopSystem plainUpstream).AllSteps (FetchesAs 7 ⟨none, none, none⟩) s namelessActions := by
  refine TransitionSystem.AllSteps.of_forall (fun action hmem s => ?_) s
  simp only [namelessActions, failingBlock, List.cons_append, List.nil_append, List.mem_cons,
    List.not_mem_nil, or_false] at hmem
  rcases hmem with rfl | rfl | rfl | rfl | rfl | rfl | rfl | rfl | rfl | rfl | rfl | rfl | rfl
  all_goals first | trivial | exact fun _ _ _ _ => rfl

/-- Before the first of them and after the second, the answer is the same but for its status. -/
theorem token_info_transparent_nameless : ∃ t status,
    (loopSystem plainUpstream).run ⟨freshDb 7, none, []⟩ namelessActions = some t ∧
      t.db.statusAt (addrHex 7) = some 2 ∧ (status = 1 ∨ status = 2) ∧
      Api.tokenInfo addressSeven plainAbi wordU256 namelessEnv (fun _ => t.db) (addrHex 7) =
        .ok ⟨addrHex 7, none, none, none, some "42", status⟩ := by
  have hrun : ((loopSystem plainUpstream).run ⟨freshDb 7, none, []⟩ namelessActions).map
      (·.db.statusAt (addrHex 7)) = some (some 2) := by decide +kernel
  obtain ⟨t, ht, htwo⟩ := Option.map_eq_some_iff.mp hrun
  obtain ⟨status, hstatus, hanswer⟩ := token_info_transparent wordU256 (.init ⟨7, rfl⟩) rfl
    (show addressSeven (addrHex 7) = some 7 from if_pos rfl) rfl
    (show fetchTokenMetadata plainAbi namelessEnv 7 = .ok ⟨none, none, none⟩ by decide)
    (namelessActions_kept _) ht
  have hlive : Api.tokenInfo addressSeven plainAbi wordU256 namelessEnv (fun _ => freshDb 7)
      (addrHex 7) = .ok ⟨addrHex 7, none, none, none, some "42", 1⟩ := by decide +kernel
  rw [hlive] at hanswer
  exact ⟨t, status, ht, htwo, hstatus.imp id And.right, hanswer⟩

/-- **What the status of an answer means, and which answers are final.** At any time, and with any
contract: the status is 0, 1 or 2, and 0 exactly when a field is there; it is 2 only after failed
fetches committed with two different blocks. An answer from a row whose status is not 1 is final:
at any later time, and whatever has become of the contract, only the supply may differ. -/
theorem token_info_sound (hs : (loopSystem up).Reachable s) {info : ApiTokenInfo}
    (h : Api.tokenInfo addressFromStr abi decodeU256 env (fun _ => s.db) raw = .ok info) :
    info.metadataStatus ≤ 2 ∧
    (info.metadataStatus = 0 ↔
      info.name.isSome ∨ info.symbol.isSome ∨ info.decimals.isSome) ∧
    (info.metadataStatus = 2 → ∃ n n', n ≠ n' ∧
      FailedIn s.commits info.address n ∧ FailedIn s.commits info.address n') ∧
    ((∃ row, s.db.tokens.find? info.address = some row ∧ row.status ≠ 1) →
      ∀ actions t env' info', (loopSystem up).run s actions = some t →
        Api.tokenInfo addressFromStr abi decodeU256 env' (fun _ => t.db) raw = .ok info' →
        info' = { info with totalSupply := info'.totalSupply }) := by
  have hinv := token_invariant hs
  obtain ⟨token, hparse, -⟩ := Fetch.bind_eq_ok_iff.mp h
  have haddr : addressFromStr raw = some token := Fetch.okOr_eq_ok_iff.mp hparse
  rw [tokenInfo_eq haddr] at h
  cases hrow : s.db.tokens.find? (addrHex token) with
  | none =>
    rw [hrow] at h
    obtain ⟨⟨m, supply⟩, -, rfl⟩ := Fetch.map_eq_ok_iff.mp h
    have hok : m.anyDecoded = true ↔ m.name.isSome ∨ m.symbol.isSome ∨ m.decimals.isSome := by
      simp [TokenMetadata.anyDecoded, or_assoc]
    simp only [TokenMetadata.info]
    rw [← hok]
    refine ⟨by split <;> omega, by split <;> simp_all, fun htwo => ?_, ?_⟩
    · split at htwo <;> cases htwo
    · rintro ⟨row, hstored, -⟩
      cases hrow.symm.trans hstored
  | some row =>
    rw [hrow] at h
    obtain ⟨supply, -, rfl⟩ := Fetch.map_eq_ok_iff.mp h
    refine ⟨status_le_of_reachable hs hrow, hinv.sound _ row hrow, fun htwo => ?_, ?_⟩
    · refine hinv.twice _ ?_
      rw [StoredToken.info, Db.statusAt, hrow, Option.map_some]
      exact congrArg some htwo
    · rintro ⟨row', hstored, hstatus⟩ actions t env' info' hrun h'
      cases hrow.symm.trans hstored
      have hle := status_le_of_reachable hs hrow
      have hfinal : t.db.tokens.find? (addrHex token) = some row :=
        find?_of_run hs hrun hrow (by omega)
      rw [tokenInfo_eq haddr, hfinal] at h'
      obtain ⟨supply', -, rfl⟩ := Fetch.map_eq_ok_iff.mp h'
      rfl

/-- The token without metadata is given up after two blocks. -/
theorem token_info_sound_nameless : ∃ t info,
    (loopSystem plainUpstream).run ⟨freshDb 7, none, []⟩ namelessActions = some t ∧
      Api.tokenInfo addressSeven plainAbi wordU256 namelessEnv (fun _ => t.db) (addrHex 7) =
        .ok info ∧ info.metadataStatus = 2 ∧
      ∃ n n', n ≠ n' ∧ FailedIn t.commits info.address n ∧ FailedIn t.commits info.address n' := by
  have hrun : ((loopSystem plainUpstream).run ⟨freshDb 7, none, []⟩ namelessActions).map (fun t =>
      (Api.tokenInfo addressSeven plainAbi wordU256 namelessEnv (fun _ => t.db)
        (addrHex 7)).toOption) =
      some (some ⟨addrHex 7, none, none, none, some "42", 2⟩) := by decide +kernel
  obtain ⟨t, ht, hinfo⟩ := Option.map_eq_some_iff.mp hrun
  cases hanswer : Api.tokenInfo addressSeven plainAbi wordU256 namelessEnv (fun _ => t.db)
      (addrHex 7) with
  | error e => rw [hanswer] at hinfo; cases hinfo
  | ok info =>
    rw [hanswer] at hinfo
    cases hinfo
    have hsound :=
      token_info_sound (TransitionSystem.Reachable.trans_run (.init ⟨7, rfl⟩) ht) hanswer
    exact ⟨t, _, ht, hanswer, rfl, hsound.2.2.1 rfl⟩

end Kept

end ExplorerIndexer
