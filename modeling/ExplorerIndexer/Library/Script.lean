import Mathlib.Data.List.Basic

/-!
# Scripts of statements that may be cut short

A script runs statements one after the other against a store. Each statement takes effect on its
own, may fail with an error, and may never start: a session carries a budget of statements, and
when the budget is used up the session is cut, as a process is that is killed between two
statements. A transaction groups the statements of a script, so that they take effect together or
not at all.

The triples below have three postconditions, for a script that returns, one that fails and one
that is cut. They are partial only in the last respect: a session without a budget is never cut,
which `Triple` records, so a script whose failure postcondition is impossible returns.

## Main definitions

* `Script` — a program of statements over a store `σ` with errors in `ε`
* `Script.statement`, `Script.transaction` — the two ways to reach the store
* `Script.Triple` — precondition, and the postconditions for returning, failing and being cut

## Main results

* `Triple.bind`, `Triple.statement`, `Triple.batch`, `Triple.forM_foldl` — the rules
* `Triple.transaction` — a transaction that does not commit leaves the store as it was
* `Triple.returns` — an uncut session returns, when the script cannot fail
-/

/-- Why a script stopped before its end. -/
inductive Stop (ε : Type*) where
  /-- A statement, or the script itself, reported an error. -/
  | failed (e : ε)
  /-- The session was cut between two statements. -/
  | cut
  deriving DecidableEq, Repr

/-- A store together with the number of statements that may still run; `none` is no limit. -/
structure Session (σ : Type*) where
  /-- The contents the session works on. -/
  store : σ
  /-- The statements left before the session is cut. -/
  budget : Option ℕ

/-- A program of statements. -/
def Script (σ ε α : Type) := Session σ → Except (Stop ε) α × Session σ

namespace Script

variable {σ ε α β γ : Type}

instance : Monad (Script σ ε) where
  pure a := fun s => (.ok a, s)
  bind x f := fun s =>
    match x s with
    | (.ok a, s') => f a s'
    | (.error e, s') => (.error e, s')

theorem bind_run (x : Script σ ε α) (f : α → Script σ ε β) (s : Session σ) :
    (x >>= f) s =
      match x s with
      | (.ok a, s') => f a s'
      | (.error e, s') => (.error e, s') := rfl

instance : LawfulMonad (Script σ ε) :=
  LawfulMonad.mk' (Script σ ε)
    (fun x => by
      funext s
      change (x >>= fun a => pure a) s = x s
      rw [bind_run]
      match x s with
      | (.ok a, s') => rfl
      | (.error e, s') => rfl)
    (fun _ _ => rfl)
    (fun x f g => by
      funext s
      simp only [bind_run]
      match x s with
      | (.ok a, s') => rfl
      | (.error e, s') => rfl)

/-- Stop with an error of the script's own. -/
def fail (e : ε) : Script σ ε α := fun s => (.error (.failed e), s)

/-- Spend one statement of the budget. -/
def tick : Script σ ε Unit := fun s =>
  match s.budget with
  | some 0 => (.error .cut, s)
  | some (n + 1) => (.ok (), ⟨s.store, some n⟩)
  | none => (.ok (), s)

/-- One statement: it reads and writes the store, or fails and leaves it alone. -/
def statement (f : σ → Except ε (α × σ)) : Script σ ε α := do
  tick
  fun s =>
    match f s.store with
    | .ok (a, st) => (.ok a, ⟨st, s.budget⟩)
    | .error e => (.error (.failed e), s)

/-- A statement that only reads. -/
def query (f : σ → Except ε α) : Script σ ε α := statement fun st => (f st).map fun a => (a, st)

/-- A statement that writes and reports a result. -/
def execute (f : σ → α × σ) : Script σ ε α := statement fun st => .ok (f st)

/-- The end of a transaction that began in the store `st`: a script that stopped inside is rolled
back, one that returned commits when `keep` accepts its result. The commit is a statement too. -/
def settle (keep : α → Bool) (st : σ) :
    Except (Stop ε) α × Session σ → Except (Stop ε) α × Session σ
  | (.error e, s) => (.error e, ⟨st, s.budget⟩)
  | (.ok _, ⟨_, some 0⟩) => (.error .cut, ⟨st, some 0⟩)
  | (.ok a, ⟨mid, some (n + 1)⟩) => (.ok a, ⟨if keep a then mid else st, some n⟩)
  | (.ok a, ⟨mid, none⟩) => (.ok a, ⟨if keep a then mid else st, none⟩)

/-- A batch of statements, each taking effect on its own. -/
def batch (step : β → σ → Except ε σ) (bs : List β) : Script σ ε PUnit :=
  bs.forM fun b => statement fun st => (step b st).map fun st' => ((), st')

/-- Run `x` between a begin and a commit or rollback. -/
def transaction (keep : α → Bool) (x : Script σ ε α) : Script σ ε α := do
  tick
  fun s => settle keep s.store (x s)

/-! ### Triples -/

/-- The three postconditions, of the result of a run that started in `s`. Only a session with a
budget is cut, and one without a budget does not acquire one. -/
def Outcome (Q : α → σ → Prop) (E : ε → σ → Prop) (C : σ → Prop) (s : Session σ) :
    Except (Stop ε) α × Session σ → Prop
  | (.ok a, s') => Q a s'.store ∧ (s.budget = none → s'.budget = none)
  | (.error (.failed e), s') => E e s'.store
  | (.error .cut, s') => C s'.store ∧ s.budget ≠ none

/-- From a store in `P`, the script returns `a` in a store of `Q a`, or fails with `e` in a store
of `E e`, or is cut in a store of `C`. -/
def Triple (P : σ → Prop) (x : Script σ ε α) (Q : α → σ → Prop) (E : ε → σ → Prop)
    (C : σ → Prop) : Prop :=
  ∀ s, P s.store → Outcome Q E C s (x s)

namespace Triple

variable {P P' : σ → Prop} {Q Q' : α → σ → Prop} {E E' : ε → σ → Prop} {C C' : σ → Prop}
variable {x : Script σ ε α}

theorem ok (h : Triple P x Q E C) {s s' : Session σ} {a : α} (hP : P s.store)
    (hx : x s = (.ok a, s')) : Q a s'.store := by
  have := h s hP
  rw [hx] at this
  exact this.1

theorem failed (h : Triple P x Q E C) {s s' : Session σ} {e : ε} (hP : P s.store)
    (hx : x s = (.error (.failed e), s')) : E e s'.store := by
  have := h s hP
  rwa [hx] at this

theorem cut (h : Triple P x Q E C) {s s' : Session σ} (hP : P s.store)
    (hx : x s = (.error .cut, s')) : C s'.store := by
  have := h s hP
  rw [hx] at this
  exact this.1

/-- **An uncut script that cannot fail returns.** -/
theorem returns (h : Triple P x Q (fun _ _ => False) C) {st : σ} (hP : P st) :
    ∃ a st', x ⟨st, none⟩ = (.ok a, ⟨st', none⟩) ∧ Q a st' := by
  have := h ⟨st, none⟩ hP
  match hx : x ⟨st, none⟩ with
  | (.ok a, ⟨st', b⟩) =>
    rw [hx] at this
    obtain ⟨hQ, hb⟩ := this
    obtain rfl : b = none := hb rfl
    exact ⟨a, st', rfl, hQ⟩
  | (.error (.failed e), _) => rw [hx] at this; exact this.elim
  | (.error .cut, _) => rw [hx] at this; exact absurd rfl this.2

theorem conseq (h : Triple P x Q E C) (hP : ∀ st, P' st → P st)
    (hQ : ∀ a st, Q a st → Q' a st) (hE : ∀ e st, E e st → E' e st) (hC : ∀ st, C st → C' st) :
    Triple P' x Q' E' C' := by
  intro s hs
  have := h s (hP _ hs)
  match hx : x s with
  | (.ok a, s') => rw [hx] at this; exact ⟨hQ _ _ this.1, this.2⟩
  | (.error (.failed e), s') => rw [hx] at this; exact hE _ _ this
  | (.error .cut, s') => rw [hx] at this; exact ⟨hC _ this.1, this.2⟩

/-- A precondition may be assumed of the store the script starts in. -/
theorem of_forall (h : ∀ st, P st → Triple (· = st) x Q E C) : Triple P x Q E C :=
  fun s hs => h s.store hs s rfl

theorem pure (a : α) (h : ∀ st, P st → Q a st) : Triple P (pure a : Script σ ε α) Q E C :=
  fun _ hs => ⟨h _ hs, id⟩

theorem fail (e : ε) (h : ∀ st, P st → E e st) : Triple P (Script.fail e : Script σ ε α) Q E C :=
  fun _ hs => h _ hs

theorem bind {R : β → σ → Prop} {f : α → Script σ ε β} (hx : Triple P x Q E C)
    (hf : ∀ a, Triple (Q a) (f a) R E C) : Triple P (x >>= f) R E C := by
  intro s hs
  have h₁ := hx s hs
  rw [bind_run]
  match hxs : x s with
  | (.ok a, s') =>
    rw [hxs] at h₁
    have h₂ := hf a s' h₁.1
    change Outcome R E C s (f a s')
    match hfs : f a s' with
    | (.ok b, s'') => rw [hfs] at h₂; exact ⟨h₂.1, fun hb => h₂.2 (h₁.2 hb)⟩
    | (.error (.failed e), s'') => rw [hfs] at h₂; exact h₂
    | (.error .cut, s'') => rw [hfs] at h₂; exact ⟨h₂.1, fun hb => h₂.2 (h₁.2 hb)⟩
  | (.error (.failed e), s') => rw [hxs] at h₁; exact h₁
  | (.error .cut, s') => rw [hxs] at h₁; exact h₁

theorem tick (hQ : ∀ st, P st → P' st) (hC : ∀ st, P st → C st) :
    Triple P (Script.tick : Script σ ε Unit) (fun _ => P') E C := by
  intro s hs
  obtain ⟨st, b⟩ := s
  match b with
  | none => exact ⟨hQ _ hs, id⟩
  | some 0 => exact ⟨hC _ hs, Option.some_ne_none 0⟩
  | some (n + 1) => exact ⟨hQ _ hs, fun h => absurd h (Option.some_ne_none _)⟩

/-- A statement is cut before it starts, or runs to one of its two ends. -/
theorem statement {f : σ → Except ε (α × σ)}
    (hf : ∀ st, P st → match f st with
      | .ok (a, st') => Q a st'
      | .error e => E e st)
    (hC : ∀ st, P st → C st) : Triple P (Script.statement f) Q E C := by
  refine bind (Q := fun _ => P) (tick (fun _ h => h) hC) fun _ => ?_
  intro s hs
  have h := hf s.store hs
  dsimp only
  match hfs : f s.store with
  | .ok (a, st) => rw [hfs] at h; exact ⟨h, id⟩
  | .error e => rw [hfs] at h; exact h

theorem query {f : σ → Except ε α}
    (hf : ∀ st, P st → match f st with
      | .ok a => Q a st
      | .error e => E e st)
    (hC : ∀ st, P st → C st) : Triple P (Script.query f) Q E C := by
  refine statement (fun st hs => ?_) hC
  have h := hf st hs
  cases hfs : f st with
  | ok a => rw [hfs] at h; exact h
  | error e => rw [hfs] at h; exact h

theorem execute {f : σ → α × σ} (hf : ∀ st, P st → Q (f st).1 (f st).2)
    (hC : ∀ st, P st → C st) : Triple P (Script.execute f) Q E C :=
  statement (fun st hs => hf st hs) hC

/-- A loop over a list, with an invariant about what is left of it. -/
theorem forM {I : List β → σ → Prop} {f : β → Script σ ε PUnit}
    (hf : ∀ b bs, Triple (I (b :: bs)) (f b) (fun _ => I bs) E C) (bs : List β) :
    Triple (I bs) (bs.forM f) (fun _ => I []) E C := by
  induction bs with
  | nil => exact pure _ fun _ h => h
  | cons b bs ih => exact bind (hf b bs) fun _ => ih

/-- A loop whose passes each make a known change makes all of them, in order. -/
theorem forM_foldl {f : β → Script σ ε PUnit} {g : σ → β → σ} {bs : List β}
    (hf : ∀ b ∈ bs, ∀ st, Triple (· = st) (f b) (fun _ st' => st' = g st b) E C) (st : σ) :
    Triple (· = st) (bs.forM f) (fun _ st' => st' = bs.foldl g st) E C := by
  induction bs generalizing st with
  | nil => exact pure _ fun _ h => h
  | cons b bs ih =>
    refine bind (hf b (List.mem_cons_self ..) st) fun _ => of_forall fun st' hst' => ?_
    rw [List.foldl_cons, ← hst']
    exact ih (fun b hb => hf b (List.mem_cons_of_mem _ hb)) st'

/-- `forM_foldl` for a loop with an accumulator. -/
theorem foldlM_foldl {f : γ → β → Script σ ε γ} {g : γ × σ → β → γ × σ} {bs : List β}
    (hf : ∀ b ∈ bs, ∀ c st, Triple (· = st) (f c b) (fun c' st' => (c', st') = g (c, st) b) E C)
    (c : γ) (st : σ) :
    Triple (· = st) (bs.foldlM f c) (fun c' st' => (c', st') = bs.foldl g (c, st)) E C := by
  induction bs generalizing c st with
  | nil => exact pure _ fun _ h => by rw [h]; rfl
  | cons b bs ih =>
    rw [List.foldlM_cons]
    refine bind (hf b (List.mem_cons_self ..) c st) fun c' => of_forall fun st' hst' => ?_
    rw [List.foldl_cons, ← hst']
    exact ih (fun b hb => hf b (List.mem_cons_of_mem _ hb)) c' st'

theorem batch_append {step : β → σ → Except ε σ} {R : σ → Prop} {bs cs : List β}
    (hbs : Triple P (batch step bs) (fun _ => P') E C)
    (hcs : Triple P' (batch step cs) (fun _ => R) E C) :
    Triple P (batch step (bs ++ cs)) (fun _ => R) E C := by
  rw [Script.batch]
  rw [List.forM_eq_forM, List.forM_append]
  exact bind hbs fun _ => hcs

/-- A batch that would succeed as a whole succeeds unless it is cut, and an invariant of its
statements holds wherever it is cut. -/
theorem batch {step : β → σ → Except ε σ} {J : σ → Prop} {bs : List β} {st st' : σ}
    (hrun : bs.foldlM (fun st b => step b st) st = .ok st') (hst : J st)
    (hstep : ∀ b ∈ bs, ∀ s s', J s → step b s = .ok s' → J s') (hC : ∀ s, J s → C s) :
    Triple (· = st) (Script.batch step bs) (fun _ s => s = st') E C := by
  induction bs generalizing st with
  | nil =>
    cases hrun
    exact pure _ fun _ h => h
  | cons b bs ih =>
    rw [List.foldlM_cons] at hrun
    cases hb : step b st with
    | error e => rw [hb] at hrun; cases hrun
    | ok mid =>
      rw [hb] at hrun
      have hmid : J mid := hstep b (List.mem_cons_self ..) st mid hst hb
      refine bind (Q := fun _ s => s = mid) (statement ?_ ?_) fun _ =>
        ih hrun hmid fun b' hb' => hstep b' (List.mem_cons_of_mem _ hb')
      · rintro _ rfl
        rw [hb]
        rfl
      · rintro _ rfl
        exact hC _ hst

/-- What the statements of a batch preserve, the batch preserves, wherever it stops. -/
theorem batch_invariant {step : β → σ → Except ε σ} {J : σ → Prop} (bs : List β)
    (hstep : ∀ b s s', J s → step b s = .ok s' → J s') :
    Triple J (Script.batch step bs) (fun _ => J) (fun _ => J) J := by
  refine forM (I := fun _ => J) (fun b _ => statement (fun s hs => ?_) fun _ hs => hs) bs
  cases hb : step b s with
  | ok s' => exact hstep b s s' hs hb
  | error e => exact hs

/-- **A transaction takes effect as a whole or not at all.** -/
theorem transaction {keep : α → Bool} {st : σ} (hx : Triple (· = st) x Q E C) :
    Triple (· = st) (Script.transaction keep x)
      (fun a st' => ∃ mid, Q a mid ∧ st' = if keep a then mid else st)
      (fun e st' => st' = st ∧ ∃ mid, E e mid) (fun st' => st' = st) := by
  refine bind (Q := fun _ => (· = st)) (tick (fun _ h => h) fun _ h => h) fun _ => ?_
  rintro s rfl
  have h := hx s rfl
  dsimp only
  match hxs : x s with
  | (.error (.failed e), s') => rw [hxs] at h; exact ⟨rfl, _, h⟩
  | (.error .cut, s') => rw [hxs] at h; exact ⟨rfl, h.2⟩
  | (.ok a, ⟨mid, none⟩) => rw [hxs] at h; exact ⟨⟨mid, h.1, rfl⟩, h.2⟩
  | (.ok a, ⟨mid, some 0⟩) =>
    rw [hxs] at h
    exact ⟨rfl, fun hb => Option.some_ne_none 0 (h.2 hb)⟩
  | (.ok a, ⟨mid, some (n + 1)⟩) =>
    rw [hxs] at h
    exact ⟨⟨mid, h.1, rfl⟩, fun hb => absurd (h.2 hb) (Option.some_ne_none _)⟩

end Triple

end Script
