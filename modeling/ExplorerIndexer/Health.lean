import ExplorerIndexer.Delivery

/-!
# What `/health` tells

The status the loop and the API share has three writers: the seeding with the cursor, `catch_up` and
`index_chain`, all of them in the task. So the observed tip is `0` until the first `catch_up`
records it, and it stands still once the task has exited.

## Main definitions

* `World.Observed` — what the status says about the tip of the node
* `recordedTips` — the tips the task has recorded along a schedule
* `TipKnown` — no request that has seen the loop live loads an unset tip for `lag()`
* `World.HealthHonest`, `World.LagGrows` — what `/health` is documented to tell

## Main results

* `health_honest` — where every load satisfies `TipKnown`, `lag = 0` on a live loop means that the
  index covers the tip at process start
* `nodeTip_eq_recorded` — the observed tip is the largest one that the task has recorded
* `dead_loop_lag` — after the task has exited every answer is the same, and its lag covers the tip
  of the node exactly when the last observed tip or the last indexed block does
-/

namespace ExplorerIndexer

variable {net : Network} {start : File → Prop} {w w' : World} {p p' : Process}

/-! ### What the task leaves alone -/

/-- The task does not touch the requests, nor the tip of the node. -/
theorem World.TaskStep.keeps (h : World.TaskStep net w p w') (hp : w.process = some p) :
    ∃ q, w'.process = some q ∧ q.requests = p.requests ∧ q.responses = p.responses ∧
      q.startTip = p.startTip ∧ w'.tip = w.tip := by
  cases h with
  | silent hpc hq hnote => exact ⟨p, hp, rfl, rfl, rfl, rfl⟩
  | @body n stop stage action db db' progress hpc hdb hstep =>
    refine ⟨_, rfl, ?_, ?_, ?_, rfl⟩ <;> cases progress <;> rfl
  | _ => exact ⟨_, rfl, rfl, rfl, rfl, rfl⟩

/-- Once the file is open the cursor only grows. -/
theorem World.TaskStep.next_le (h : World.TaskStep net w p w') (hs : w.Sound net.chainId)
    (hp : w.process = some p) (hpc : p.pc ≠ .opening) : w.file.next ≤ w'.file.next := by
  cases h with
  | opened hopening => exact absurd hopening hpc
  | notOpened hopening => exact absurd hopening hpc
  | @body n stop stage action db db' progress hpc hdb hstep =>
    rw [hdb]
    have hcovers := (hs.process p hp).covers
    rw [hpc] at hcovers
    obtain ⟨hn, -, hstop, -⟩ := hcovers
    rcases (Stage.step_spec hstep).committed with ⟨rfl, -⟩ | ⟨rows, -, rfl, habove⟩
    · exact Nat.le_refl _
    · have htip := hs.tip_lt
      have hle := next_le_of_above habove
      rw [net.number_extracted] at hle
      rw [Db.next_toFile, Db.next_toFile, net.next_applied_extracted _ _ (by omega)]
      omega
  | _ => exact Nat.le_refl _

/-- A task that has exited stays so. -/
theorem World.TaskStep.eq_of_exited (h : World.TaskStep net w p w') (hpc : p.pc = .exited) :
    w' = w.put p.exit := by
  cases h with
  | failed => rfl
  | opened h | notOpened h | seeded h | spawned h | guarded h | startRead h | tipRead h
  | tipObserved h | replayed h | taken h | drained h | reported h | segment h | lagged h | silent h
  | body h | shutdown h => rw [hpc] at h; cases h

/-! ### The observed tip -/

/-- Past `set_node_tip` of the first `catch_up`, the observed tip is at or above the one at process
start. -/
def Pc.SawTip (startTip nodeTip : ℕ) : Pc → Prop
  | .observingTip _ tip => startTip ≤ tip
  | .replaying _ | .indexing .. | .body .. | .reporting | .following => startTip ≤ nodeTip
  | .opening | .seeding | .spawning | .guarding | .catchingUp | .readingTip _ | .exited
  | .ended => True

/-- What the status of a process says about the tip of the node. -/
structure Process.Observed (w : World) (p : Process) : Prop where
  startTip_le : p.startTip ≤ w.tip
  tip : p.status.nodeTip = 0 ∨ p.startTip ≤ p.status.nodeTip
  place : p.pc.SawTip p.startTip p.status.nodeTip

def World.Observed (w : World) : Prop := ∀ p, w.process = some p → p.Observed w

theorem Process.Observed.afterBody (h : p.Observed w) {n stop : ℕ} {stage : Stage}
    (hpc : p.pc = .body n stop stage) (progress : Progress) :
    (p.afterBody n stop stage progress).Observed w := by
  have hplace := h.place
  rw [hpc] at hplace
  have hplace : p.startTip ≤ p.status.nodeTip := hplace
  cases progress with
  | into stage' =>
    have htip : (p.afterBody n stop stage (.into stage')).status.nodeTip = p.status.nodeTip := by
      unfold Process.afterBody
      split
      · rename_i heq
        cases heq
        dsimp only
        split <;> rfl
      · rename_i heq; cases heq
      · rename_i heq; cases heq
    exact ⟨h.startTip_le, Or.inr (htip ▸ hplace), by
      show p.startTip ≤ _
      rwa [htip]⟩
  | done =>
    have hmax : p.startTip ≤ max p.status.nodeTip n := by omega
    exact ⟨h.startTip_le, Or.inr hmax, hmax⟩
  | failed => exact ⟨h.startTip_le, h.tip, trivial⟩

theorem World.Observed.task (h : w.Observed) (hp : w.process = some p)
    (hstep : World.TaskStep net w p w') : w'.Observed := by
  have ho := h p hp
  have hplace := ho.place
  have htask : ∀ q, w'.process = some q → w'.tip = w.tip → q.Observed w → w'.Observed := by
    intro q hq htip hobserved r hr
    cases hq.symm.trans hr
    exact ⟨htip ▸ hobserved.startTip_le, hobserved.tip, hobserved.place⟩
  cases hstep with
  | @seeded db hpc hdb =>
    refine htask _ rfl rfl ⟨ho.startTip_le, ?_, trivial⟩
    cases db.cursor <;> exact ho.tip
  | tipRead hpc => exact htask _ rfl rfl ⟨ho.startTip_le, ho.tip, ho.startTip_le⟩
  | @tipObserved start tip hpc =>
    rw [hpc] at hplace
    have hplace : p.startTip ≤ tip := hplace
    have hmax : p.startTip ≤ max p.status.nodeTip tip := by omega
    exact htask _ rfl rfl ⟨ho.startTip_le, Or.inr hmax, hmax⟩
  | silent hpc hq hnote => exact htask p hp rfl ho
  | body hpc hdb hstep => exact htask _ rfl rfl (ho.afterBody hpc _)
  | replayed hpc | taken hpc | drained hpc | reported hpc | segment hpc =>
    rw [hpc] at hplace
    exact htask _ rfl rfl ⟨ho.startTip_le, ho.tip, hplace⟩
  | failed | opened | notOpened | spawned | guarded | startRead | lagged | shutdown =>
    exact htask _ rfl rfl ⟨ho.startTip_le, ho.tip, trivial⟩

theorem World.Observed.step (h : w.Observed) (hstep : World.Step net w w') : w'.Observed := by
  cases hstep with
  | execute hlt =>
    exact fun p hp => ⟨Nat.le_succ_of_le (h p hp).startTip_le, (h p hp).tip, (h p hp).place⟩
  | send | announce | lose =>
    exact fun p hp => ⟨(h p hp).startTip_le, (h p hp).tip, (h p hp).place⟩
  | task hp hstep => exact h.task hp hstep
  | health hp hstep =>
    intro q hq
    cases hq
    cases hstep <;> exact ⟨(h _ hp).startTip_le, (h _ hp).tip, (h _ hp).place⟩
  | start hnone hsent =>
    intro q hq
    cases hq
    exact ⟨Nat.le_refl _, Or.inl rfl, trivial⟩
  | kill =>
    intro q hq
    cases hq

theorem observed_of_reachable (hw : (exexSystem net start).Reachable w) : w.Observed := by
  induction hw with
  | init h =>
    intro p hp
    rw [h.process] at hp
    cases hp
  | step _ ht ih => exact ih.step (World.step_spec ht)

/-! ### `lag = 0` on a live loop -/

/-- Every answer that says live and no lag was given when the index covered the tip the node had at
process start: what the API is documented to tell. -/
def World.HealthHonest (w : World) : Prop :=
  ∀ p, w.process = some p → ∀ asked response, (asked, response) ∈ p.responses →
    response.indexingLive = true → response.lag = 0 → p.startTip < w.file.next

/-- A request that has seen the loop live loads the tip for `lag()` when a tip above `0` has been
observed, or when the index covers the tip at process start. -/
def Process.TipKnown (w : World) (p : Process) (k : ℕ) : Prop :=
  match p.requests[k]? with
  | some (_, .loadedTip true _ _) => 0 < p.status.nodeTip ∨ p.startTip < w.file.next
  | _ => True

instance (w : World) (p : Process) (k : ℕ) : Decidable (p.TipKnown w k) := by
  rw [Process.TipKnown]
  split <;> infer_instance

/-- `Process.TipKnown` for the load a step makes, if it makes one. -/
def TipKnown (w : World) : WorldAction → Prop
  | .health (.load k) => ∀ p ∈ w.process, p.TipKnown w k
  | _ => True

instance (w : World) (action : WorldAction) : Decidable (TipKnown w action) := by
  unfold TipKnown
  split <;> infer_instance

/-- Every request that has seen the loop live and has the tip for `lag()` has one at or above the
tip at process start, or the index covers that tip. -/
def Process.RequestsHonest (w : World) (p : Process) : Prop :=
  ∀ asked lastIndexed nodeTip lagTip,
    (asked, HealthRequest.loadedLagTip true lastIndexed nodeTip lagTip) ∈ p.requests →
      0 < lagTip ∧ p.startTip ≤ lagTip ∨ p.startTip < w.file.next

/-- The invariant behind `World.HealthHonest`. -/
def World.Honest (w : World) : Prop :=
  w.HealthHonest ∧ ∀ p, w.process = some p → p.RequestsHonest w

theorem World.Honest.frame (h : w.Honest) (hp : w.process = some p) (hp' : w'.process = some p')
    (hreq : p'.requests = p.requests) (hres : p'.responses = p.responses)
    (htip : p'.startTip = p.startTip) (hnext : w.file.next ≤ w'.file.next) : w'.Honest := by
  constructor
  · intro q hq asked response hmem hlive hlag
    cases hp'.symm.trans hq
    rw [hres] at hmem
    rw [htip]
    exact Nat.lt_of_lt_of_le (h.1 p hp asked response hmem hlive hlag) hnext
  · intro q hq asked lastIndexed nodeTip lagTip hmem
    cases hp'.symm.trans hq
    rw [hreq] at hmem
    rw [htip]
    exact (h.2 p hp asked lastIndexed nodeTip lagTip hmem).imp id
      fun hlt => Nat.lt_of_lt_of_le hlt hnext

theorem World.Honest.task (h : w.Honest) (hs : w.Sound net.chainId) (hp : w.process = some p)
    (hstep : World.TaskStep net w p w') : w'.Honest := by
  obtain ⟨q, hq, hreq, hres, htip, -⟩ := hstep.keeps hp
  by_cases hpc : p.pc = .opening
  · -- no request can have been asked before the API is spawned
    have hnone := (hs.process p hp).fresh hpc
    rw [hnone] at hreq hres
    constructor
    · intro r hr asked response hmem
      cases hq.symm.trans hr
      rw [hres] at hmem
      cases hmem
    · intro r hr asked lastIndexed nodeTip lagTip hmem
      cases hq.symm.trans hr
      rw [hreq] at hmem
      cases hmem
  · exact h.frame hp hq hreq hres htip (hstep.next_le hs hp hpc)

/-- The load that decides: a positive observed tip is at or above the tip at process start. -/
theorem Process.RequestsHonest.load (h : p.RequestsHonest w) (ho : p.Observed w) {k : ℕ}
    {asked : Asked} {request request' : HealthRequest} (hk : p.requests[k]? = some (asked, request))
    (hload : request.load p.status = .inl request')
    (hc : ∀ lastIndexed nodeTip, request = .loadedTip true lastIndexed nodeTip →
      0 < p.status.nodeTip ∨ p.startTip < w.file.next) :
    Process.RequestsHonest w { p with requests := p.requests.set k (asked, request') } := by
  intro asked' lastIndexed nodeTip lagTip hmem
  rcases List.mem_or_eq_of_mem_set hmem with hmem | heq
  · exact h asked' lastIndexed nodeTip lagTip hmem
  · cases heq
    cases request with
    | loadedTip live lastIndexed' nodeTip' =>
      cases hload
      refine (hc lastIndexed nodeTip rfl).imp (fun hpos => ⟨hpos, ?_⟩) id
      rcases ho.tip with hzero | hle
      · omega
      · exact hle
    | asked => cases hload
    | loadedLive live => cases hload
    | loadedIndexed live lastIndexed => cases hload
    | loadedLagTip live lastIndexed nodeTip lagTip => cases hload

/-- An answer without lag names an indexed block at or above the loaded tip. -/
theorem Process.RequestsHonest.answer (h : p.RequestsHonest w) (hs : p.Sound net.chainId w)
    {asked : Asked} {request : HealthRequest} {response : HealthResponse}
    (hmem : (asked, request) ∈ p.requests)
    (hload : request.load p.status = .inr response) (hlive : response.indexingLive = true)
    (hlag : response.lag = 0) : p.startTip < w.file.next := by
  cases request with
  | loadedLagTip live lastIndexed nodeTip lagTip =>
    cases hload
    cases hlive
    rcases h asked lastIndexed nodeTip lagTip hmem with ⟨hpos, hle⟩ | hlt
    · have hindexed := hs.indexed
      have hlag : lagTip - p.status.lastIndexed.getD 0 = 0 := hlag
      rw [IndexerStatus.lastIndexed_getD] at hlag
      omega
    · exact hlt
  | asked => cases hload
  | loadedLive live => cases hload
  | loadedIndexed live lastIndexed => cases hload
  | loadedTip live lastIndexed nodeTip => cases hload

theorem World.Honest.health (h : w.Honest) (hs : w.Sound net.chainId) (ho : w.Observed)
    {action : HealthAction} (hp : w.process = some p) (hc : TipKnown w (.health action))
    (hstep : p.healthStep w.tip action = some p') : (w.put p').Honest := by
  have hreq := h.2 p hp
  have hres := h.1 p hp
  cases action with
  | ask =>
    simp only [Process.healthStep] at hstep
    split at hstep
    · cases hstep
      constructor
      · intro q hq
        cases hq
        exact hres
      · intro q hq asked lastIndexed nodeTip lagTip hmem
        cases hq
        rcases List.mem_append.mp hmem with hmem | hmem
        · exact hreq asked lastIndexed nodeTip lagTip hmem
        · cases List.mem_singleton.mp hmem
    · cases hstep
  | load k =>
    obtain ⟨⟨asked, request⟩, hk, hstep⟩ := Option.bind_eq_some_iff.mp hstep
    dsimp only at hstep
    split at hstep
    · next request' hload =>
      cases hstep
      constructor
      · intro q hq
        cases hq
        exact hres
      · intro q hq
        cases hq
        refine hreq.load (ho p hp) hk hload fun lastIndexed nodeTip heq => ?_
        have hknown := hc p hp
        rwa [Process.TipKnown, hk, heq] at hknown
    · next response hload =>
      cases hstep
      constructor
      · intro q hq asked' response' hmem hlive hlag
        cases hq
        rcases List.mem_append.mp hmem with hmem | hmem
        · exact hres asked' response' hmem hlive hlag
        · cases List.mem_singleton.mp hmem
          exact hreq.answer (hs.process p hp) (List.mem_of_getElem? hk) hload hlive hlag
      · intro q hq asked' lastIndexed nodeTip lagTip hmem
        cases hq
        exact hreq asked' lastIndexed nodeTip lagTip (List.mem_of_mem_eraseIdx hmem)

theorem World.Honest.step (h : w.Honest) (hs : w.Sound net.chainId) (ho : w.Observed)
    {action : WorldAction} (hc : TipKnown w action) (ht : w.step net action = some w') :
    w'.Honest := by
  cases action with
  | node action =>
    obtain ⟨hfile, hprocess⟩ := World.nodeStep_frame ht
    unfold World.Honest World.HealthHonest Process.RequestsHonest
    rw [hfile, hprocess]
    exact h
  | task action =>
    obtain ⟨p, hp, ht⟩ := Option.bind_eq_some_iff.mp ht
    exact h.task hs hp (World.taskStep_spec ht)
  | health action =>
    obtain ⟨p, hp, ht⟩ := Option.bind_eq_some_iff.mp ht
    obtain ⟨p', hstep, ht⟩ := Option.bind_eq_some_iff.mp ht
    cases ht
    exact h.health hs ho hp hc hstep
  | start sent =>
    simp only [World.step] at ht
    split at ht
    · cases ht
    · split at ht
      · cases ht
        constructor
        · intro q hq asked response hmem
          cases hq
          cases hmem
        · intro q hq asked lastIndexed nodeTip lagTip hmem
          cases hq
          cases hmem
      · cases ht
  | kill =>
    cases ht
    constructor <;> intro q hq <;> cases hq

/-- **`/health` is honest once a tip is known.** In a run over any start file all of whose loads
satisfy `TipKnown`, an answer `indexing_live = true` with `lag = 0` means that every block up to the
tip at process start is indexed: it is at or below the cursor and, unless the file had an index
before the run, it was committed in the run. -/
theorem health_honest {f : File} (hf : StartFile f) {w₀ : World} (h₀ : w₀.Initial (· = f))
    {actions : List WorldAction} (hrun : (exexSystem net (· = f)).run w₀ actions = some w)
    (hc : (exexSystem net (· = f)).AllSteps TipKnown w₀ actions) (hp : w.process = some p)
    {asked : Asked} {response : HealthResponse} (hmem : (asked, response) ∈ p.responses)
    (hlive : response.indexingLive = true) (hlag : response.lag = 0) {n : ℕ}
    (hn : n ≤ p.startTip) :
    (∃ c, w.file.cursor = some c ∧ n ≤ c) ∧ (Rebuildable f → n ∈ w.committed) := by
  have hsound : ∀ t, (exexSystem net (· = f)).Reachable t → t.Sound net.chainId := fun t =>
    sound_of_reachable fun g hg => by rw [hg]; exact hf.rebuildable_or_intact
  obtain ⟨hw, hhonest⟩ : (exexSystem net (· = f)).Reachable w ∧ w.Honest := by
    refine hc.invariant (P := fun w => (exexSystem net (· = f)).Reachable w ∧ w.Honest)
      (fun s a t h hc ht => ⟨h.1.step ht, ?_⟩) hrun ⟨.init h₀, ?_⟩
    · exact h.2.step (hsound s h.1) (observed_of_reachable h.1) hc ht
    · rw [World.Honest, World.HealthHonest]
      rw [h₀.process]
      constructor <;> intro q hq <;> cases hq
  have hlt := Nat.lt_of_le_of_lt hn (hhonest.1 p hp asked response hmem hlive hlag)
  have hcursor : ∃ c, w.file.cursor = some c ∧ n ≤ c := by
    rw [File.next] at hlt
    cases hc : w.file.cursor with
    | none => rw [hc] at hlt; exact absurd hlt (Nat.not_lt_zero n)
    | some c => rw [hc] at hlt; exact ⟨c, rfl, Nat.le_of_lt_succ hlt⟩
  refine ⟨hcursor, fun hr => ?_⟩
  rcases started_of_reachable (fun g hg => by rw [hg]; exact hr) hw with ⟨hreb, -⟩ | ⟨db, h⟩
  · have hintact := ((hsound w hw).process p hp).intact
      (Or.inr (Or.inr (Or.inr (List.ne_nil_of_mem hmem))))
    exact absurd hintact (not_intact_of_rebuildable _ hreb)
  · rw [h.committed, List.mem_range, ← Db.next_toFile, ← h.file]
    exact hlt

/-- One request beside `k` others, from the first load to the answer. -/
def healthActions (k : ℕ) : List WorldAction :=
  .health .ask :: List.replicate 5 (.health (.load k))

theorem Process.healthStep_last (p : Process) (tip : ℕ) (requests : List (Asked × HealthRequest))
    (asked : Asked) (request : HealthRequest) :
    Process.healthStep { p with requests := requests ++ [(asked, request)] } tip
        (.load requests.length) =
      match request.load p.status with
      | .inl request' => some { p with requests := requests ++ [(asked, request')] }
      | .inr response =>
        some { p with
          requests := requests
          responses := p.responses ++ [(asked, response)] } := by
  simp only [Process.healthStep, List.getElem?_concat_length, Option.bind_eq_bind,
    Option.bind_some]
  cases request.load p.status with
  | inl request' => simp
  | inr response => simp [List.eraseIdx_append_of_length_le]

/-- A request nothing comes between answers with the status it meets. -/
theorem run_healthActions (hp : w.process = some p) (hapi : p.api = true) :
    (exexSystem net start).run w (healthActions p.requests.length) = some (w.put { p with
      responses := p.responses ++ [(⟨w.tip, decide (p.pc = .exited)⟩, p.status.health)] }) := by
  have hask : World.step net w (.health .ask) = some (w.put { p with
      requests := p.requests ++ [(⟨w.tip, decide (p.pc = .exited)⟩, .asked)] }) := by
    simp only [World.step, hp, Process.healthStep, hapi, if_true, Option.bind_eq_bind,
      Option.bind_some]
  have hload : ∀ q : Process, World.step net (w.put q) (.health (.load p.requests.length)) =
      (q.healthStep w.tip (.load p.requests.length)).map (w.put ·) := fun q => by
    simp only [World.step, World.put, Option.bind_eq_bind, Option.bind_some]
    cases q.healthStep w.tip (.load p.requests.length) <;> rfl
  simp only [healthActions, TransitionSystem.run_cons, exexSystem, List.replicate, hask, hload,
    Process.healthStep_last, HealthRequest.load, Option.map_some, Option.bind_some,
    TransitionSystem.run_nil]
  rfl

/-- Where the condition fails for a live loop, one more request that nothing comes between is
answered wrongly. -/
theorem not_healthHonest (hp : w.process = some p) (hapi : p.api = true)
    (hlive : p.status.live = true) (hzero : p.status.nodeTip = 0)
    (hgap : w.file.next ≤ p.startTip) :
    ∃ w', (exexSystem net start).run w (healthActions p.requests.length) = some w' ∧
      ¬ w'.HealthHonest := by
  refine ⟨_, run_healthActions hp hapi, fun h => ?_⟩
  refine absurd (h _ rfl _ _ (List.mem_append_right _ List.mem_cons_self) hlive ?_)
    (Nat.not_lt_of_le hgap)
  simp only [IndexerStatus.health, IndexerStatus.lag, hzero, Nat.zero_sub]

/-- Between the guard and the first `set_node_tip` the answer is live without lag, with nothing
indexed and the node at block `5`. -/
theorem health_early : ∃ w p, (exexSystem steadyNetwork (· = File.empty)).Reachable w ∧
    w.process = some p ∧ p.startTip = 5 ∧ w.file.cursor = none ∧
    (⟨5, false⟩, ⟨"ok", true, 0, 0, 0⟩) ∈ p.responses ∧ ¬ w.HealthHonest := by
  have hrun : ((exexSystem steadyNetwork (· = File.empty)).run (freshWorld 5)
      ([.start 6, .task (.openFile none)] ++ List.replicate 3 (.task .advance) ++
        healthActions 0)).map
          (fun w => (w.file.cursor, w.process.map fun p => (p.startTip, p.responses))) =
      some (none, some (5, [(⟨5, false⟩, ⟨"ok", true, 0, 0, 0⟩)])) := by decide +kernel
  obtain ⟨w, hw, heq⟩ := Option.map_eq_some_iff.mp hrun
  obtain ⟨hcursor, heq⟩ := Prod.mk.inj heq
  obtain ⟨p, hp, heq⟩ := Option.map_eq_some_iff.mp heq
  obtain ⟨htip, hresponses⟩ := Prod.mk.inj heq
  have hmem : (⟨5, false⟩, ⟨"ok", true, 0, 0, 0⟩) ∈ p.responses :=
    hresponses ▸ List.mem_cons_self
  refine ⟨w, p, (TransitionSystem.Reachable.init (freshWorld_initial (by decide))).trans_run hw, hp,
    htip, hcursor, hmem, fun hhonest => ?_⟩
  have hlt := hhonest p hp _ _ hmem rfl rfl
  rw [htip, File.next, hcursor] at hlt
  exact absurd hlt (by decide)

/-- After the replay of the blocks `0` and `1` the same answer is honest. -/
theorem health_honest_caught_up : ∃ w, w.committed = [0, 1] ∧
    (exexSystem steadyNetwork (· = File.empty)).Reachable w ∧
    ∀ n ≤ 1, ∃ c, w.file.cursor = some c ∧ n ≤ c := by
  let actions := startActions 2 ++ bodyActions ++ bodyActions ++ healthActions 0
  have hrun : ((exexSystem steadyNetwork (· = File.empty)).run (freshWorld 1) actions).map
      (fun w => (w.committed, w.process.map fun p => (p.startTip, p.responses))) =
      some ([0, 1], some (1, [(⟨1, false⟩, ⟨"ok", true, 1, 1, 0⟩)])) := by decide +kernel
  have hc : (exexSystem steadyNetwork (· = File.empty)).AllSteps TipKnown (freshWorld 1) actions :=
    by decide +kernel
  obtain ⟨w, hw, heq⟩ := Option.map_eq_some_iff.mp hrun
  obtain ⟨hcommitted, heq⟩ := Prod.mk.inj heq
  obtain ⟨p, hp, heq⟩ := Option.map_eq_some_iff.mp heq
  obtain ⟨htip, hresponses⟩ := Prod.mk.inj heq
  have h₀ : (freshWorld 1).Initial (· = File.empty) := freshWorld_initial (by decide)
  exact ⟨w, hcommitted, (TransitionSystem.Reachable.init h₀).trans_run hw, fun n hn =>
    (health_honest StartFile.empty h₀ hw hc hp (hresponses ▸ List.mem_cons_self) rfl rfl
      (htip ▸ hn)).1⟩

/-! ### The observed tip -/

/-- The tip that a step of the task hands to `set_node_tip`: the tip `catch_up` has read, or the
block `index_chain` is done with. -/
def Process.recordedTip (p : Process) : WorldAction → Option ℕ
  | .task .advance =>
    match p.pc with
    | .observingTip _ tip => some tip
    | _ => none
  | .task (.body .observe) =>
    match p.pc with
    | .body n _ .observing => some n
    | _ => none
  | _ => none

/-- The tips the running process has recorded, after a step. A new process has recorded none. -/
def World.recordedAfter (w : World) (tips : List ℕ) : WorldAction → List ℕ
  | .start _ => []
  | action => tips ++ (w.process.bind (·.recordedTip action)).toList

/-- The tips the running process has recorded, along a schedule. -/
def recordedTips (net : Network) (tips : List ℕ) : World → List WorldAction → List ℕ
  | _, [] => tips
  | w, action :: actions => (w.step net action).elim tips fun w' =>
    recordedTips net (w.recordedAfter tips action) w' actions

theorem World.nodeTip_advance (hw : w.process = some p) (h : w.advance p = some w')
    (hp : w'.process = some p') :
    p'.status.nodeTip = (p.recordedTip (.task .advance)).toList.foldl max p.status.nodeTip := by
  cases hpc : p.pc <;> simp only [World.advance, Process.recordedTip, hpc] at h ⊢
  case opening | body | exited | ended => cases h
  case seeding | catchingUp =>
    obtain ⟨db, -, h⟩ := Option.bind_eq_some_iff.mp h
    split at h <;> cases h <;> cases hp <;> rfl
  case following =>
    split at h
    · cases h; cases hp; rfl
    · cases h; cases hp; rfl
    · cases h; cases hw.symm.trans hp; rfl
    · cases h; cases hw.symm.trans hp; rfl
    · cases h
  all_goals
    cases h
    cases hp
    rfl

theorem Process.nodeTip_afterBody {extracted : ExtractedBlock} {db db' : Db} {n stop : ℕ}
    {stage : Stage} {action : StageAction} {progress : Progress} (hpc : p.pc = .body n stop stage)
    (h : stage.step extracted db action = some (db', progress)) :
    (p.afterBody n stop stage progress).status.nodeTip =
      (p.recordedTip (.task (.body action))).toList.foldl max p.status.nodeTip := by
  unfold Stage.step at h
  split at h
  case h_4 => split at h <;> cases h <;> rfl
  case h_5 indexed => cases h; cases indexed <;> rfl
  case h_6 =>
    cases h
    simp only [Process.recordedTip, hpc]
    rfl
  case h_7 => cases h
  all_goals
    cases h
    rfl

/-- A step of the task changes the observed tip by recording one. -/
theorem World.nodeTip_task {action : TaskAction} (hw : w.process = some p)
    (h : w.taskStep net p action = some w') (hp : w'.process = some p') :
    p'.status.nodeTip = (p.recordedTip (.task action)).toList.foldl max p.status.nodeTip := by
  cases action with
  | advance => exact World.nodeTip_advance hw h hp
  | body action =>
    simp only [World.taskStep] at h
    split at h
    · next n stop stage hpc =>
      obtain ⟨db, -, h⟩ := Option.bind_eq_some_iff.mp h
      obtain ⟨⟨db', progress⟩, hstep, h⟩ := Option.bind_eq_some_iff.mp h
      cases h
      cases hp
      exact Process.nodeTip_afterBody hpc hstep
    · cases h
  | openFile budget =>
    simp only [World.taskStep] at h
    split at h
    · split at h <;> cases h <;> cases hp <;> rfl
    · cases h
  | fail | shutdown =>
    simp only [World.taskStep] at h
    split at h <;> cases h
    cases hp
    rfl

theorem World.nodeTip_step {tips : List ℕ} {action : WorldAction}
    (h : World.step net w action = some w')
    (htips : ∀ p, w.process = some p → p.status.nodeTip = tips.foldl max 0) :
    ∀ p', w'.process = some p' →
      p'.status.nodeTip = (w.recordedAfter tips action).foldl max 0 := by
  intro p' hp
  cases action with
  | node action =>
    rw [(World.nodeStep_frame h).2] at hp
    show p'.status.nodeTip = (tips ++ (w.process.bind fun _ => none).toList).foldl max 0
    rw [Option.bind_fun_none, Option.toList_none, List.append_nil]
    exact htips p' hp
  | task action =>
    obtain ⟨p, hw, h⟩ := Option.bind_eq_some_iff.mp h
    show _ = (tips ++ (w.process.bind (·.recordedTip (.task action))).toList).foldl max 0
    rw [World.nodeTip_task hw h hp, htips p hw, hw, List.foldl_append, Option.bind_some]
  | health action =>
    obtain ⟨p, hw, h⟩ := Option.bind_eq_some_iff.mp h
    obtain ⟨q, hq, h⟩ := Option.bind_eq_some_iff.mp h
    cases h
    cases hp
    have hstatus : p'.status = p.status := by
      cases Process.healthStep_spec hq <;> rfl
    show _ = (tips ++ (w.process.bind fun _ => none).toList).foldl max 0
    rw [Option.bind_fun_none, Option.toList_none, List.append_nil, hstatus]
    exact htips p hw
  | start sent =>
    simp only [World.step] at h
    split at h
    · cases h
    · split at h <;> cases h
      cases hp
      rfl
  | kill =>
    cases h
    cases hp

theorem nodeTip_run {tips : List ℕ} {actions : List WorldAction}
    (hrun : (exexSystem net start).run w actions = some w')
    (htips : ∀ p, w.process = some p → p.status.nodeTip = tips.foldl max 0)
    (hp : w'.process = some p') :
    p'.status.nodeTip = (recordedTips net tips w actions).foldl max 0 := by
  induction actions generalizing tips w with
  | nil =>
    cases hrun
    exact htips p' hp
  | cons action actions ih =>
    obtain ⟨w₁, hstep, hrun⟩ := (TransitionSystem.run_cons_eq_some _).mp hrun
    have hstep : World.step net w action = some w₁ := hstep
    rw [recordedTips, hstep, Option.elim_some]
    exact ih hrun (World.nodeTip_step hstep htips)

/-- **The observed tip is the largest one that `catch_up` or `index_chain` has recorded.** -/
theorem nodeTip_eq_recorded {w₀ : World} (h₀ : w₀.Initial start) {actions : List WorldAction}
    (hrun : (exexSystem net start).run w₀ actions = some w) (hp : w.process = some p) :
    p.status.nodeTip = (recordedTips net [] w₀ actions).foldl max 0 := by
  refine nodeTip_run hrun (fun q hq => ?_) hp
  rw [h₀.process] at hq
  cases hq

/-! ### A loop that has exited -/

/-- After the task has exited, every answer to a later request says so, and its lag is at least the
distance of the node's tip to the last indexed block: what the module is documented to tell. -/
def World.LagGrows (w : World) : Prop :=
  ∀ p, w.process = some p → ∀ asked response, (asked, response) ∈ p.responses →
    asked.exited = true →
      response.indexingLive = false ∧ asked.tip - response.lastIndexed ≤ response.lag

/-- Requests asked of an exited task meet one status only. -/
structure Process.Frozen (p : Process) : Prop where
  dead : p.pc = .exited → p.status.live = false
  requests : ∀ asked request, (asked, request) ∈ p.requests → asked.exited = true →
    p.pc = .exited ∧ request.Agrees p.status
  responses : ∀ asked response, (asked, response) ∈ p.responses → asked.exited = true →
    p.pc = .exited ∧ response = p.status.health

theorem World.TaskStep.dead (h : World.TaskStep net w p w') (hp : w.process = some p)
    (hlive : p.pc ≠ .exited) {q : Process} (hq : w'.process = some q) (hpc : q.pc = .exited) :
    q.status.live = false := by
  cases h with
  | failed | notOpened => cases hq; rfl
  | silent => cases hp.symm.trans hq; exact absurd hpc hlive
  | @body n stop stage action db db' progress =>
    cases hq
    cases progress with
    | failed => rfl
    | into stage' => cases hpc
    | done => cases hpc
  | _ => cases hq; cases hpc

theorem Process.Frozen.task (h : p.Frozen) (hp : w.process = some p)
    (hstep : World.TaskStep net w p w') {q : Process} (hq : w'.process = some q) : q.Frozen := by
  by_cases hpc : p.pc = .exited
  · have hexit : p.exit = p := by
      have hdead := h.dead hpc
      obtain ⟨pc, ⟨last, tip, live⟩, api, requests, responses, startTip⟩ := p
      cases hpc
      cases hdead
      rfl
    rw [hstep.eq_of_exited hpc, hexit] at hq
    cases hq
    exact h
  · obtain ⟨q', hq', hreq, hres, -, -⟩ := hstep.keeps hp
    cases hq.symm.trans hq'
    refine ⟨hstep.dead hp hpc hq, fun asked request hmem hexited => ?_,
      fun asked response hmem hexited => ?_⟩
    · exact absurd (h.requests asked request (hreq ▸ hmem) hexited).1 hpc
    · exact absurd (h.responses asked response (hres ▸ hmem) hexited).1 hpc

theorem Process.Frozen.health (h : p.Frozen) {tip : ℕ} (hstep : p.HealthStep tip p') :
    p'.Frozen := by
  cases hstep with
  | asked hapi =>
    refine ⟨h.dead, fun asked request hmem hexited => ?_, h.responses⟩
    rcases List.mem_append.mp hmem with hmem | hmem
    · exact h.requests asked request hmem hexited
    · cases List.mem_singleton.mp hmem
      exact ⟨of_decide_eq_true hexited, trivial⟩
  | @loaded k asked request request' hk hload =>
    refine ⟨h.dead, fun asked' r hmem hexited => ?_, h.responses⟩
    rcases List.mem_or_eq_of_mem_set hmem with hmem | heq
    · exact h.requests asked' r hmem hexited
    · cases heq
      obtain ⟨hpc, hagrees⟩ := h.requests asked request (List.mem_of_getElem? hk) hexited
      exact ⟨hpc, hagrees.load hload⟩
  | @answered k asked request response hk hload =>
    refine ⟨h.dead, fun asked' r hmem hexited => h.requests asked' r
      (List.mem_of_mem_eraseIdx hmem) hexited, fun asked' r hmem hexited => ?_⟩
    rcases List.mem_append.mp hmem with hmem | hmem
    · exact h.responses asked' r hmem hexited
    · cases List.mem_singleton.mp hmem
      obtain ⟨hpc, hagrees⟩ := h.requests asked request (List.mem_of_getElem? hk) hexited
      exact ⟨hpc, hagrees.answer hload⟩

theorem frozen_of_reachable (hw : (exexSystem net start).Reachable w) (hp : w.process = some p) :
    p.Frozen := by
  induction hw generalizing p with
  | init h =>
    rw [h.process] at hp
    cases hp
  | step _ ht ih =>
    cases World.step_spec ht with
    | execute | send | announce | lose => exact ih hp
    | task hp' hstep => exact (ih hp').task hp' hstep hp
    | health hp' hstep =>
      cases hp
      exact (ih hp').health hstep
    | start =>
      cases hp
      exact ⟨by simp [Process.start], by simp [Process.start], by simp [Process.start]⟩
    | kill => cases hp

/-- **The lag of an exited loop stands still.** Every answer to a request asked after the task has
exited is that of one status, so two of them have the same lag. It says that the loop is not live,
and its lag covers the tip the node had when it was asked exactly when the largest tip the loop has
recorded or the last indexed block does. -/
theorem dead_loop_lag {w₀ : World} (h₀ : w₀.Initial start) {actions : List WorldAction}
    (hrun : (exexSystem net start).run w₀ actions = some w) (hp : w.process = some p)
    {asked : Asked} {response : HealthResponse} (hmem : (asked, response) ∈ p.responses)
    (hexited : asked.exited = true) :
    response = p.status.health ∧
      p.status.nodeTip = (recordedTips net [] w₀ actions).foldl max 0 ∧
      (response.indexingLive = false ∧ asked.tip - response.lastIndexed ≤ response.lag ↔
        asked.tip ≤ p.status.nodeTip ∨ asked.tip ≤ p.status.lastIndexed.getD 0) ∧
      ∀ asked' response', (asked', response') ∈ p.responses → asked'.exited = true →
        response'.lag = response.lag := by
  have hfrozen := frozen_of_reachable ((TransitionSystem.Reachable.init h₀).trans_run hrun) hp
  obtain ⟨hpc, rfl⟩ := hfrozen.responses asked response hmem hexited
  have hdead : p.status.health.indexingLive = false := hfrozen.dead hpc
  refine ⟨rfl, nodeTip_eq_recorded h₀ hrun hp, ?_, fun asked' response' hmem' hexited' => ?_⟩
  · rw [hdead]
    simp only [IndexerStatus.health, IndexerStatus.lag, true_and]
    omega
  · rw [(hfrozen.responses asked' response' hmem' hexited').2]

/-- The genesis block is indexed, the loop fails, and the node executes block `1`. -/
def failActions : List WorldAction :=
  startActions 1 ++ bodyActions ++ [.task .fail, .node .execute] ++ healthActions 0

/-- The answer says no lag, with the node one block ahead of the index. -/
theorem lag_stands_still : ∃ w p, (exexSystem steadyNetwork (· = File.empty)).Reachable w ∧
    w.process = some p ∧ w.tip = 1 ∧
    (⟨1, true⟩, ⟨"degraded", false, 0, 0, 0⟩) ∈ p.responses ∧ ¬ w.LagGrows := by
  have hrun : ((exexSystem steadyNetwork (· = File.empty)).run (freshWorld 0) failActions).map
      (fun w => (w.tip, w.process.map fun p => p.responses)) =
      some (1, some [(⟨1, true⟩, ⟨"degraded", false, 0, 0, 0⟩)]) := by decide +kernel
  obtain ⟨w, hw, heq⟩ := Option.map_eq_some_iff.mp hrun
  obtain ⟨htip, heq⟩ := Prod.mk.inj heq
  obtain ⟨p, hp, hresponses⟩ := Option.map_eq_some_iff.mp heq
  have hmem : (⟨1, true⟩, ⟨"degraded", false, 0, 0, 0⟩) ∈ p.responses :=
    hresponses ▸ List.mem_cons_self
  refine ⟨w, p, (TransitionSystem.Reachable.init (freshWorld_initial (by decide))).trans_run hw, hp,
    htip, hmem, fun hgrows => ?_⟩
  exact absurd (hgrows p hp _ _ hmem rfl).2 (by decide)

/-- The loop observes the tip `2`, indexes block `0` and fails; a request is asked, the node
executes block `3`, and another is asked. -/
def behindActions : List WorldAction :=
  startActions 3 ++ bodyActions ++ [.task .fail] ++ healthActions 0 ++ [.node .execute] ++
    healthActions 0

/-- The first answer covers the tip of the node, which is the observed one; the second has the same
lag and does not. -/
theorem dead_loop_lag_behind : ∃ (w : World) (p : Process), w.process = some p ∧
    (recordedTips steadyNetwork [] (freshWorld 2) behindActions).foldl max 0 = 2 ∧
    ∃ before after, (⟨2, true⟩, before) ∈ p.responses ∧ (⟨3, true⟩, after) ∈ p.responses ∧
      (before.indexingLive = false ∧ 2 - before.lastIndexed ≤ before.lag) ∧
      ¬ (after.indexingLive = false ∧ 3 - after.lastIndexed ≤ after.lag) ∧
      before.lag = after.lag := by
  have hrun : ((exexSystem steadyNetwork (· = File.empty)).run (freshWorld 2) behindActions).map
      (fun w => w.process.map fun p =>
        (p.status.nodeTip, p.status.lastIndexed, p.responses.map Prod.fst)) =
      some (some (2, some 0, [⟨2, true⟩, ⟨3, true⟩])) := by decide +kernel
  have h₀ : (freshWorld 2).Initial (· = File.empty) := freshWorld_initial (by decide)
  obtain ⟨w, hw, heq⟩ := Option.map_eq_some_iff.mp hrun
  obtain ⟨p, hp, heq⟩ := Option.map_eq_some_iff.mp heq
  obtain ⟨htip, heq⟩ := Prod.mk.inj heq
  obtain ⟨hindexed, hasked⟩ := Prod.mk.inj heq
  have hanswer : ∀ asked ∈ p.responses.map Prod.fst,
      ∃ response, (asked, response) ∈ p.responses := by
    intro asked hasked
    obtain ⟨answer, hmem, rfl⟩ := List.mem_map.mp hasked
    exact ⟨answer.2, hmem⟩
  rw [hasked] at hanswer
  obtain ⟨before, hbefore⟩ := hanswer ⟨2, true⟩ (by decide)
  obtain ⟨after, hafter⟩ := hanswer ⟨3, true⟩ (by decide)
  obtain ⟨-, hrecorded, hcovers, hsame⟩ := dead_loop_lag h₀ hw hp hbefore rfl
  obtain ⟨-, -, hcovers', -⟩ := dead_loop_lag h₀ hw hp hafter rfl
  rw [htip, hindexed] at hcovers hcovers'
  refine ⟨w, p, hp, hrecorded.symm.trans htip, before, after, hbefore, hafter,
    hcovers.mpr (by decide), hcovers'.not.mpr (by decide), (hsame _ _ hafter rfl).symm⟩

end ExplorerIndexer
