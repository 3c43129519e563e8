import ExplorerIndexer.Convergence
import ExplorerIndexer.Transfers

/-!
# What is served at rest

The loop brings the index up to the node, and the routes answer from the index. Put together: let
the node be still, on a machine that works. Whatever happened before, a loop that is due to replay
comes to rest with all of the chain behind the routes, and `/health` says so.

## Main definitions

* `World.ServesChain` — the routes answer from the whole chain

## Main results

* `chain_served` — at rest after a replay the routes answer from the whole chain
-/

namespace ExplorerIndexer

/-- The routes of the index answer from all blocks of the node, for every page that SQLite can
reach, and `/health` tells that nothing is missing. -/
structure World.ServesChain (up : Upstream) (chain : NodeChain) (t : World) (p : Process) (db : Db)
    (env : RethEnv) : Prop where
  api : p.api = true
  health : p.status.health = ⟨"ok", true, t.tip, p.status.nodeTip, 0⟩
  txs : ∀ s txType perPage page, parseTxType s = some txType →
    page * clampPerPage perPage < 2 ^ 63 →
    Answers ((chain.latestPointers t.tip).filter (chain.HasType txType)) page
      (clampPerPage perPage) (TxItem chain)
      (Api.txsList env (fun _ => db) ⟨some page, perPage, some s⟩)
  addressTxs : ∀ addressFromStr raw a perPage page, addressFromStr raw = some a →
    page * clampPerPage perPage < 2 ^ 63 →
    Answers (chain.pointersOf up (t.tip + 1) a) page (clampPerPage perPage) (TxItem chain)
      (Api.addressTxs addressFromStr env (fun _ => db) raw ⟨some page, perPage, none⟩)
  addressTransfers : ∀ addressFromStr raw a perPage page, addressFromStr raw = some a →
    page * clampPerPage perPage < 2 ^ 63 →
    Answers ((chain.transfersBelow (t.tip + 1)).filter fun row =>
        row.fromAddr = addrHex a ∨ row.toAddr = addrHex a) page (clampPerPage perPage)
      (TransferItem chain db)
      (Api.addressTransfers addressFromStr env (fun _ => db) raw ⟨some page, perPage⟩)
  tokenTransfers : ∀ addressFromStr raw a perPage page, addressFromStr raw = some a →
    page * clampPerPage perPage < 2 ^ 63 →
    Answers ((chain.transfersBelow (t.tip + 1)).filter (·.token = addrHex a)) page
      (clampPerPage perPage) (TransferItem chain db)
      (Api.tokenTransfers addressFromStr env (fun _ => db) raw ⟨some page, perPage⟩)

section Rest

variable {up : Upstream} {chain : NodeChain} {chainId : UInt64} {w t : World} {p : Process}

/-- The index of a state whose cursor is the tip, when a loop waits there. -/
theorem World.Settled.servesChain
    (ht : (exexSystem ⟨up, chain.toChain, chainId⟩ (· = File.empty)).Reachable t)
    (hsettled : t.Settled t.tip) (htip : t.tip + 1 < 2 ^ 64) {env : RethEnv}
    (henv : env.Replays (chain.store t.tip)) :
    ∃ q db, t.process = some q ∧ t.file = db.toFile ∧ t.ServesChain up chain q db env := by
  obtain ⟨q, hq, hpc, hhealth⟩ := hsettled.health
  obtain ⟨c, hwaiting⟩ := waiting_of_reachable rebuildable_empty ht hq hpc htip
  have hsound := sound_of_reachable (fun f hf => Or.inl (rebuildable_empty f hf)) ht
  obtain ⟨db, hwhole⟩ := (started_of_reachable rebuildable_empty ht).whole
    ((hsound.process q hq).intact (Or.inl (by rw [hpc]; rfl)))
  have hnext : db.next = t.tip + 1 := by
    have hcursor := hsettled.cursor
    rw [hwhole.file, Db.cursor_toFile] at hcursor
    rw [Db.next, hcursor, Option.elim_some]
  have hreference : Reference up chain.toChain (t.tip + 1) db := hnext ▸ hwhole.reference
  refine ⟨q, db, hq, hwhole.file, hwaiting.api, hhealth, ?_, ?_, ?_, ?_⟩
  · intro s txType perPage page hs hpage
    rw [txsList_of_type (parsedType_of_parse rfl hs), ← typePointers_eq_filter hreference]
    exact (servePointers_answers_iff (q := .txsByType txType) hreference le_rfl henv).mpr
      ⟨trivial, hpage⟩
  · intro addressFromStr raw a perPage page ha hpage
    exact addressTxs_answers hreference le_rfl henv ha hpage
  · intro addressFromStr raw a perPage page ha hpage
    exact addressTransfers_answers hreference le_rfl henv ha hpage
  · intro addressFromStr raw a perPage page ha hpage
    exact tokenTransfers_answers hreference le_rfl henv ha hpage

/-- **At rest the whole chain is served.** Take any reachable state, after whatever crashes,
failures and drops, in which the task has not ended and is due to replay, and let the node be still
from there. On a machine that works some schedule comes to rest, and wherever a schedule rests,
`/health` answers that the tip is indexed and nothing lags, and every page of the lists of the
index, all transactions of a type, those of an address, and the transfers of an address and of a
token, is a page of the scan of all blocks of the node. -/
theorem chain_served
    (hw : (exexSystem ⟨up, chain.toChain, chainId⟩ (· = File.empty)).Reachable w)
    (hp : w.process = some p) (hable : p.Able) (hdue : w.Due)
    (hfits : ∀ n ≤ w.tip, FitsColumns chain.toChain n []) :
    let system := exexSystem ⟨up, chain.toChain, chainId⟩ (· = File.empty)
    (∃ schedule t, system.AllSteps Works w schedule ∧ system.run w schedule = some t ∧
      system.AtRest Works t) ∧
    ∀ schedule t, system.AllSteps Works w schedule → system.run w schedule = some t →
      system.AtRest Works t → t.tip = w.tip ∧ ∀ env : RethEnv, env.Replays (chain.store t.tip) →
        ∃ q db, t.process = some q ∧ t.file = db.toFile ∧ t.ServesChain up chain q db env := by
  intro system
  have htip : w.tip + 1 < 2 ^ 64 := by
    have := (hfits w.tip (Nat.le_refl _)).number
    omega
  refine ⟨TransitionSystem.exists_run_atRest wellFounded_works w,
    fun schedule t hall hrun hrest => ?_⟩
  have hquiet := quiet_of_works rebuildable_empty hw hp hable hfits hall hrun
  obtain ⟨c, hsettled, hc⟩ := hquiet.settled rebuildable_empty htip hrest
  rw [hc hdue, ← hquiet.tip] at hsettled
  refine ⟨hquiet.tip, fun env henv => ?_⟩
  exact hsettled.servesChain (hw.trans_run hrun) (hquiet.tip ▸ htip) henv

end Rest

/-- The announcement of block `1` is dropped, and at rest the transactions of both blocks are
served. -/
theorem chain_served_lag : ∃ (w t : World) (schedule : List WorldAction) (db : Db),
    (exexSystem steadyNetwork (· = File.empty)).run (freshWorld 0) lagActions = some w ∧
      w.file.cursor = some 0 ∧ (exexSystem steadyNetwork (· = File.empty)).run w schedule = some t ∧
      t.file = db.toFile ∧ Answers [⟨1, 0⟩, ⟨0, 0⟩] 0 25 (TxItem steadyChain)
        (Api.addressTxs (fun _ => some 1) (steadyChain.env 1) (fun _ => db) "0x1"
          ⟨some 0, none, none⟩) := by
  have hrun : ((exexSystem steadyNetwork (· = File.empty)).run (freshWorld 0) lagActions).bind
      (fun w => w.process.map fun p => (p.pc, w.tip, w.file.cursor, w.queue)) =
      some (.following, 1, some 0, [.lagged 1]) := by decide +kernel
  obtain ⟨w, hw, heq⟩ := Option.bind_eq_some_iff.mp hrun
  obtain ⟨p, hp, heq⟩ := Option.map_eq_some_iff.mp heq
  obtain ⟨hpc, htip, hcursor, hqueue⟩ : p.pc = .following ∧ w.tip = 1 ∧
      w.file.cursor = some 0 ∧ w.queue = [.lagged 1] := by simpa using heq
  have hable : p.Able := .of_phase (by rw [hpc]; decide) (by rw [hpc]; trivial)
  have hdue : w.Due := Or.inr (Or.inl ⟨1, by rw [hqueue]; exact List.mem_singleton_self _⟩)
  obtain ⟨⟨schedule, t, hall, hsettles, hrest⟩, hserved⟩ := @chain_served plainUpstream steadyChain
    7 w p ((TransitionSystem.Reachable.init (freshWorld_initial (by decide))).trans_run hw) hp hable
    hdue fun n hn => fitsColumns_steadyChain (by omega)
  obtain ⟨ht, hserved⟩ := hserved schedule t hall hsettles hrest
  rw [ht, htip] at hserved
  obtain ⟨q, db, -, hdb, hserves⟩ := hserved (steadyChain.env 1) (steadyChain.replays_env 1)
  have hfeed : steadyChain.pointersOf plainUpstream (t.tip + 1) 1 = [⟨1, 0⟩, ⟨0, 0⟩] := by
    rw [ht, htip]
    decide
  have hanswers := hserves.addressTxs (fun _ => some 1) "0x1" 1 none 0 rfl (by decide)
  rw [hfeed] at hanswers
  exact ⟨w, t, schedule, db, hw, hcursor, hsettles, hdb, hanswers⟩

end ExplorerIndexer
