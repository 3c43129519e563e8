import Mathlib.Data.List.Forall2

/-!
# Reads in a loop

A loop that reads something for each entry of a list stops at the first read that fails. A map that
such a loop fills holds what the reads returned.

## Main definitions

* `Fetch.okOr` — a missing value as an error
* `Fetch.find`, `Fetch.insertVacant` — a map, and the loop body that reads each key once

## Main results

* `mapM_eq_ok_iff`, `mapM_eq_ok_map` — a loop returns exactly when every read does, with what the
  reads return
* `find_of_mapM`, `foldlM_insertVacant` — the maps of the two loops that fill one
-/

namespace Fetch

universe u

variable {ε κ : Type*} {α β : Type u}

/-- The value, or an error when there is none. -/
def okOr (o : Option α) (e : ε) : Except ε α := o.elim (.error e) .ok

@[simp] theorem okOr_some (a : α) (e : ε) : okOr (some a) e = .ok a := rfl

@[simp] theorem okOr_none (e : ε) : okOr (none : Option α) e = .error e := rfl

theorem okOr_eq_ok_iff {o : Option α} {e : ε} {a : α} : okOr o e = .ok a ↔ o = some a := by
  cases o with
  | none => simp
  | some b => simp

theorem bind_eq_ok_iff {x : Except ε α} {f : α → Except ε β} {b : β} :
    x >>= f = .ok b ↔ ∃ a, x = .ok a ∧ f a = .ok b := by
  cases x with
  | error e => simp [bind, Except.bind]
  | ok a => simp [bind, Except.bind]

theorem map_eq_ok_iff {x : Except ε α} {f : α → β} {b : β} :
    x.map f = .ok b ↔ ∃ a, x = .ok a ∧ f a = b := by
  cases x with
  | error e => simp [Except.map]
  | ok a => simp [Except.map]

theorem exists_error_iff {x : Except ε α} : (∃ e, x = .error e) ↔ ¬ ∃ a, x = .ok a := by
  cases x with
  | error e => simp
  | ok a => simp

/-! ### Loops -/

section Loop

variable {γ : Type*} {f : γ → Except ε β} {l : List γ}

/-- **A loop returns when every read does**, with what the reads return, in order. -/
theorem mapM_eq_ok_iff {bs : List β} :
    l.mapM f = .ok bs ↔ List.Forall₂ (fun a b => f a = .ok b) l bs := by
  induction l generalizing bs with
  | nil =>
    rw [List.mapM_nil, List.forall₂_nil_left_iff]
    simp [pure, Except.pure, eq_comm]
  | cons a l ih =>
    rw [List.mapM_cons, List.forall₂_cons_left_iff, bind_eq_ok_iff]
    refine exists_congr fun b => ?_
    rw [exists_and_left, bind_eq_ok_iff]
    refine and_congr_right fun _ => exists_congr fun bs' => and_congr ih ?_
    simp [pure, Except.pure, eq_comm]

/-- A loop whose reads are known returns their values. -/
theorem mapM_eq_ok_map {g : γ → β} (h : ∀ a ∈ l, f a = .ok (g a)) : l.mapM f = .ok (l.map g) := by
  rw [mapM_eq_ok_iff, List.forall₂_map_right_iff, List.forall₂_same]
  exact h

theorem exists_forall₂_iff {δ : Type*} {r : γ → δ → Prop} :
    (∃ bs, List.Forall₂ r l bs) ↔ ∀ a ∈ l, ∃ b, r a b := by
  induction l with
  | nil => simp
  | cons a l ih =>
    rw [List.forall_mem_cons, ← ih]
    constructor
    · rintro ⟨bs, h⟩
      obtain ⟨b, bs', hb, hbs', -⟩ := List.forall₂_cons_left_iff.mp h
      exact ⟨⟨b, hb⟩, bs', hbs'⟩
    · rintro ⟨⟨b, hb⟩, bs, hbs⟩
      exact ⟨b :: bs, .cons hb hbs⟩

/-- What is true of each read is true of the loop: a view of the results that the entries determine
is the list of what they determine. -/
theorem map_of_mapM {δ : Type*} {bs : List β} {p : β → δ} {q : γ → δ} (h : l.mapM f = .ok bs)
    (hpq : ∀ a ∈ l, ∀ b, f a = .ok b → p b = q a) : bs.map p = l.map q := by
  rw [mapM_eq_ok_iff] at h
  induction h with
  | nil => rfl
  | cons hread _ ih =>
    obtain ⟨ha, hl⟩ := List.forall_mem_cons.mp hpq
    rw [List.map_cons, List.map_cons, ha _ hread, ih hl]

/-- The same for a loop that knows the position of each entry. -/
theorem map_of_mapM_zipIdx {δ : Type*} {bs : List β} {p : β → δ} {q : γ → δ}
    {f : ℕ → γ → Except ε β} (h : l.zipIdx.mapM (fun entry => f entry.2 entry.1) = .ok bs)
    (hpq : ∀ a ∈ l, ∀ i b, f i a = .ok b → p b = q a) : bs.map p = l.map q := by
  have hmap : bs.map p = l.zipIdx.map fun entry => q entry.1 :=
    map_of_mapM h fun entry hentry b hread =>
      hpq entry.1 (List.fst_mem_of_mem_zipIdx hentry) entry.2 b hread
  rw [hmap, show (fun entry : γ × ℕ => q entry.1) = q ∘ Prod.fst from rfl, ← List.map_map,
    List.zipIdx_map_fst]

/-- A loop returns exactly when every read does. -/
theorem exists_mapM_iff : (∃ bs, l.mapM f = .ok bs) ↔ ∀ a ∈ l, ∃ b, f a = .ok b := by
  simp only [mapM_eq_ok_iff]
  exact exists_forall₂_iff

/-- Only the entries of the list matter. -/
theorem forall₂_congr_left {δ : Type*} {r s : γ → δ → Prop} {bs : List δ}
    (h : ∀ a ∈ l, ∀ b, r a b ↔ s a b) : List.Forall₂ r l bs ↔ List.Forall₂ s l bs := by
  induction l generalizing bs with
  | nil => rw [List.forall₂_nil_left_iff, List.forall₂_nil_left_iff]
  | cons a l ih =>
    obtain ⟨ha, hl⟩ := List.forall_mem_cons.mp h
    rw [List.forall₂_cons_left_iff, List.forall₂_cons_left_iff]
    exact exists_congr fun b => exists_congr fun bs' => and_congr (ha b) (and_congr_left' (ih hl))

/-- What is computed from the values of a partial function on a list. -/
theorem map_of_forall₂ {δ τ : Type*} {g : γ → Option δ} {bs : List δ}
    (h : List.Forall₂ (fun a b => g a = some b) l bs) {p : δ → τ} {cs : List τ}
    (hcs : l.map (fun a => (g a).map p) = cs.map some) : bs.map p = cs := by
  refine List.map_injective_iff.mpr (fun _ _ => Option.some.inj) ?_
  rw [← hcs, List.map_map, ← List.forall₂_eq_eq_eq, List.forall₂_map_left_iff,
    List.forall₂_map_right_iff]
  refine h.flip.imp fun b a hab => ?_
  rw [hab]
  rfl

end Loop

/-! ### Maps that loops fill -/

section Map

variable [DecidableEq κ]

/-- The value of a key. -/
def find (m : List (κ × α)) (k : κ) : Option α := (m.find? (·.1 = k)).map Prod.snd

theorem find_cons (k : κ) (a : α) (m : List (κ × α)) (k' : κ) :
    find ((k, a) :: m) k' = if k = k' then some a else find m k' := by
  unfold find
  rw [List.find?_cons]
  by_cases h : k = k' <;> simp [h]

theorem find_concat (m : List (κ × α)) (k : κ) (a : α) (k' : κ) :
    find (m ++ [(k, a)]) k' = (find m k').or (if k = k' then some a else none) := by
  unfold find
  rw [List.find?_append]
  by_cases h : k = k' <;> cases m.find? (·.1 = k') <;> simp [h]

/-- A map with one entry for each pass of the loop. -/
theorem find_of_mapM {read : κ → Except ε α} {keys : List κ} {m : List (κ × α)}
    (h : keys.mapM (fun k => (read k).map fun a => (k, a)) = .ok m) {k : κ} (hk : k ∈ keys) :
    ∃ a, read k = .ok a ∧ find m k = some a := by
  induction keys generalizing m with
  | nil => cases hk
  | cons k₀ keys ih =>
    rw [List.mapM_cons] at h
    obtain ⟨⟨k₁, a⟩, hread, h⟩ := bind_eq_ok_iff.mp h
    obtain ⟨m', hm', h⟩ := bind_eq_ok_iff.mp h
    cases h
    have ha : read k₀ = .ok a ∧ k₀ = k₁ := by
      cases hr : read k₀ with
      | error e => rw [hr] at hread; cases hread
      | ok a' => rw [hr] at hread; cases hread; exact ⟨rfl, rfl⟩
    obtain ⟨ha, rfl⟩ := ha
    by_cases heq : k₀ = k
    · subst heq
      exact ⟨a, ha, by rw [find_cons, if_pos rfl]⟩
    · obtain ⟨a', ha', hfind⟩ := ih hm' (List.mem_of_ne_of_mem (Ne.symm heq) hk)
      exact ⟨a', ha', by rw [find_cons, if_neg heq, hfind]⟩

/-- One pass of the other loop: read the key unless the map has it. -/
def insertVacant (read : κ → Except ε α) (m : List (κ × α)) (k : κ) : Except ε (List (κ × α)) :=
  if (find m k).isSome then .ok m else (read k).map fun a => m ++ [(k, a)]

/-- Every key of the loop is in the map, with what its read returned. -/
theorem foldlM_insertVacant {read : κ → Except ε α} {value : κ → α} {keys : List κ}
    (hread : ∀ k ∈ keys, read k = .ok (value k)) {m : List (κ × α)}
    (hm : ∀ k a, find m k = some a → a = value k) :
    ∃ m', keys.foldlM (insertVacant read) m = .ok m' ∧
      (∀ k a, find m' k = some a → a = value k) ∧
      ∀ k, k ∈ keys ∨ (find m k).isSome → find m' k = some (value k) := by
  induction keys generalizing m with
  | nil =>
    refine ⟨m, rfl, hm, fun k hk => ?_⟩
    obtain ⟨a, ha⟩ := Option.isSome_iff_exists.mp (hk.resolve_left List.not_mem_nil)
    rw [ha, hm k a ha]
  | cons k₀ keys ih =>
    obtain ⟨hk₀, hkeys⟩ := List.forall_mem_cons.mp hread
    obtain ⟨m₁, hstep, hm₁, hfind₁⟩ : ∃ m₁, insertVacant read m k₀ = .ok m₁ ∧
        (∀ k a, find m₁ k = some a → a = value k) ∧
        ∀ k, k = k₀ ∨ (find m k).isSome → (find m₁ k).isSome := by
      by_cases hseen : (find m k₀).isSome
      · refine ⟨m, if_pos hseen, hm, fun k hk => ?_⟩
        rcases hk with rfl | hk
        · exact hseen
        · exact hk
      · refine ⟨m ++ [(k₀, value k₀)], ?_, fun k a ha => ?_, fun k hk => ?_⟩
        · rw [insertVacant, if_neg hseen, hk₀]
          rfl
        · rw [find_concat, Option.or_eq_some_iff] at ha
          rcases ha with ha | ⟨-, ha⟩
          · exact hm k a ha
          · split at ha
            · next heq => cases ha; rw [heq]
            · cases ha
        · rw [find_concat, Option.isSome_or]
          rcases hk with rfl | hk
          · simp
          · rw [hk, Bool.true_or]
    obtain ⟨m', hfold, hm', hfind'⟩ := ih hkeys hm₁
    refine ⟨m', ?_, hm', fun k hk => hfind' k ?_⟩
    · rw [List.foldlM_cons, hstep]
      exact hfold
    · rcases hk with hk | hk
      · rcases List.mem_cons.mp hk with hk | hk
        · exact Or.inr (hfind₁ k (Or.inl hk))
        · exact Or.inl hk
      · exact Or.inr (hfind₁ k (Or.inr hk))

end Map

end Fetch
