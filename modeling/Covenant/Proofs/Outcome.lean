import Mathlib.Data.List.Forall2

/-!
# Outcomes of fallible steps

Computations that may fail are values of `Except`.  They are read apart one step at a time, so that no later proof has
to unfold a sequence of steps.
-/

namespace Covenant.Outcome

open List

variable {ε ε' α β γ : Type} {b : β} {f : α → Except ε β} {x : Except ε α} {as : List α} {bs : List β}

theorem ok_bind (a : α) (f : α → Except ε β) : (Except.ok a >>= f) = f a := rfl

theorem bind_eq_ok : (x >>= f) = .ok b ↔ ∃ a, x = .ok a ∧ f a = .ok b := by
  cases x with
  | error e => simp [bind, Except.bind]
  | ok a => simp [bind, Except.bind]

theorem check_eq_ok {x : Except ε Unit} {f : Unit → Except ε β} : (x >>= f) = .ok b ↔ x = .ok () ∧ f () = .ok b := by
  rw [bind_eq_ok]
  exact ⟨fun ⟨_, hx, hf⟩ => ⟨hx, hf⟩, fun ⟨hx, hf⟩ => ⟨(), hx, hf⟩⟩

theorem bind_eq_error {e : ε} : (x >>= f) = .error e ↔ x = .error e ∨ ∃ a, x = .ok a ∧ f a = .error e := by
  cases x with
  | error e' => simp [bind, Except.bind]
  | ok a => simp [bind, Except.bind]

theorem pure_eq_ok {a b : α} : (pure a : Except ε α) = .ok b ↔ a = b := by simp [pure, Except.pure]

theorem mapError_eq_ok {f : ε → ε'} {a : α} : x.mapError f = .ok a ↔ x = .ok a := by
  cases x <;> simp [Except.mapError]

theorem throw_ne_ok {e : ε} {a : α} : (throw e : Except ε α) ≠ .ok a := by
  simp [throw, throwThe, MonadExceptOf.throw]

theorem throwIf_eq_ok {c : Prop} [Decidable c] {e : ε} {x : Except ε β} :
    (if c then throw e >>= f else x) = .ok b ↔ ¬c ∧ x = .ok b := by
  by_cases hc : c
  · rw [if_pos hc, bind_eq_ok]
    exact iff_of_false (fun ⟨_, h, _⟩ => throw_ne_ok h) fun h => h.1 hc
  · rw [if_neg hc, and_iff_right hc]

theorem error_bind (e : ε) (f : α → Except ε β) : (Except.error e >>= f) = .error e := rfl

theorem errorIf_eq_ok {c : Prop} [Decidable c] {e : ε} {a : α} :
    (if c then .error e else x) = .ok a ↔ ¬c ∧ x = .ok a := by
  by_cases hc : c <;> simp [hc]

/-- A traversal succeeds with lists in step. -/
theorem mapM_eq_ok : as.mapM f = .ok bs ↔ Forall₂ (fun a b => f a = .ok b) as bs := by
  induction as generalizing bs with
  | nil => rw [mapM_nil, pure_eq_ok, forall₂_nil_left_iff, eq_comm]
  | cons a as ih =>
    rw [mapM_cons, forall₂_cons_left_iff]
    simp only [bind_eq_ok, pure_eq_ok, ih]
    constructor
    · rintro ⟨b, hb, bs', hbs, rfl⟩
      exact ⟨b, bs', hb, hbs, rfl⟩
    · rintro ⟨b, bs', hb, hbs, rfl⟩
      exact ⟨b, hb, bs', hbs, rfl⟩

theorem exists_mapM_eq_ok : (∃ bs, as.mapM f = .ok bs) ↔ ∀ a ∈ as, ∃ b, f a = .ok b := by
  induction as with
  | nil => simp [pure_eq_ok]
  | cons a as ih =>
    simp only [mapM_cons, bind_eq_ok, pure_eq_ok, forall_mem_cons, ← ih]
    constructor
    · rintro ⟨_, b, hb, bs, hbs, _⟩
      exact ⟨⟨b, hb⟩, bs, hbs⟩
    · rintro ⟨⟨b, hb⟩, bs, hbs⟩
      exact ⟨b :: bs, b, hb, bs, hbs, rfl⟩

/-- What succeeds on every element by one function does so by a related one. -/
theorem mapM_transfer (f' : α → Except ε β) {R : β → β → Prop} (h : as.mapM f = .ok bs)
    (hf : ∀ a b, f a = .ok b → ∃ b', f' a = .ok b' ∧ R b b') : ∃ bs', as.mapM f' = .ok bs' ∧ Forall₂ R bs bs' := by
  have hsteps : ∃ bs', Forall₂ (fun a b' => f' a = .ok b') as bs' ∧ Forall₂ R bs bs' := by
    rw [mapM_eq_ok] at h
    induction h with
    | nil => exact ⟨[], .nil, .nil⟩
    | cons hab _ ih =>
      obtain ⟨b', hb', hR⟩ := hf _ _ hab
      obtain ⟨bs', hbs', hRs⟩ := ih
      exact ⟨b' :: bs', .cons hb' hbs', .cons hR hRs⟩
  obtain ⟨bs', hbs', hR⟩ := hsteps
  exact ⟨bs', mapM_eq_ok.2 hbs', hR⟩

/-- Every failure of the computation is of the kind. -/
def FailsOnly (E : ε → Prop) (x : Except ε α) : Prop := ∀ e, x = .error e → E e

namespace FailsOnly

variable {E : ε → Prop} {x : Except ε α}

theorem ok (a : α) : FailsOnly E (.ok a : Except ε α) := fun _ h => by cases h

theorem error {e : ε} (h : E e) : FailsOnly E (.error e : Except ε α) := fun _ heq => Except.error.inj heq ▸ h

/-- Two steps fail in one way if each does. -/
theorem bind {f : α → Except ε β} (hx : FailsOnly E x) (hf : ∀ a, x = .ok a → FailsOnly E (f a)) :
    FailsOnly E (x >>= f) := by
  intro e he
  rcases bind_eq_error.1 he with he | ⟨a, ha, he⟩
  · exact hx e he
  · exact hf a ha e he

theorem mapError {E' : ε' → Prop} {f : ε → ε'} (h : FailsOnly (fun e => E' (f e)) x) :
    FailsOnly E' (x.mapError f) := by
  cases x with
  | ok a => exact .ok a
  | error e => exact .error (h e rfl)

theorem mapM {f : α → Except ε β} {as : List α} (h : ∀ a ∈ as, FailsOnly E (f a)) : FailsOnly E (as.mapM f) := by
  induction as with
  | nil => exact .ok []
  | cons a as ih =>
    rw [mapM_cons]
    refine (h a (.head _)).bind fun b _ => ?_
    exact (ih fun a' ha' => h a' (.tail a ha')).bind fun bs _ => .ok (b :: bs)

theorem throwIf {c : Prop} [Decidable c] {e : ε} {f : β → Except ε α} (he : E e) (hx : FailsOnly E x) :
    FailsOnly E (if c then throw e >>= f else x) := by
  split
  · exact .error he
  · exact hx

end FailsOnly

/-- The computation fails, and in a way that passes the test. -/
def failsWith (test : ε → Bool) : Except ε α → Bool
  | .error e => test e
  | .ok _ => false

theorem failsWith_eq_true {test : ε → Bool} : failsWith test x = true ↔ ∃ e, x = .error e ∧ test e = true := by
  cases x with
  | ok a => simp [failsWith]
  | error e => simp [failsWith]

theorem toOption_map_eq_some {f : α → β} : x.toOption.map f = some b ↔ ∃ a, x = .ok a ∧ f a = b := by
  cases x with
  | ok a => simp [Except.toOption]
  | error e => simp [Except.toOption]

theorem toOption_bind_eq_some {f : α → Option β} : x.toOption.bind f = some b ↔ ∃ a, x = .ok a ∧ f a = some b := by
  cases x with
  | ok a => simp [Except.toOption]
  | error e => simp [Except.toOption]

theorem mapError_map (g : α → β) (f : ε → ε') (x : Except ε α) : (g <$> x).mapError f = g <$> x.mapError f := by
  cases x <;> rfl

theorem mapM_map (g : β → γ) (f : α → Except ε β) (as : List α) :
    as.mapM (fun a => g <$> f a) = List.map g <$> as.mapM f := by
  induction as with
  | nil => rfl
  | cons a as ih => simp only [mapM_cons, ih, map_bind, bind_map_left, map_pure, map_cons]

theorem exists_of_mem_right {R : α → β → Prop} (h : Forall₂ R as bs) {b : β} (hb : b ∈ bs) :
    ∃ a ∈ as, R a b := by
  induction h with
  | nil => cases hb
  | cons hab _ ih =>
    rcases mem_cons.1 hb with rfl | hb
    · exact ⟨_, .head _, hab⟩
    · obtain ⟨a, ha, hab⟩ := ih hb
      exact ⟨a, .tail _ ha, hab⟩

theorem map_eq_of_forall₂ {R R' : α → β → Prop} {f : β → γ} (hf : ∀ {a b b'}, R a b → R' a b' → f b = f b')
    {bs bs' : List β} (h : Forall₂ R as bs) (h' : Forall₂ R' as bs') : bs.map f = bs'.map f := by
  induction h generalizing bs' with
  | nil =>
    cases h'
    rfl
  | cons hab _ ih =>
    cases h' with
    | cons hab' hs' => rw [map_cons, map_cons, hf hab hab', ih hs']

theorem forall₂_iff_of_forall₂ {α' β' : Type} {R : α → β → Prop} {R' : α' → β' → Prop} {P : α → α' → Prop}
    {Q : β → β' → Prop} (hPQ : ∀ {a b a' b'}, R a b → R' a' b' → (P a a' ↔ Q b b')) {as' : List α'} {bs' : List β'}
    (h : Forall₂ R as bs) (h' : Forall₂ R' as' bs') : Forall₂ P as as' ↔ Forall₂ Q bs bs' := by
  induction h generalizing as' bs' with
  | nil =>
    cases h' with
    | nil => simp
    | cons _ _ => simp
  | cons hab _ ih =>
    cases h' with
    | nil => simp
    | cons hab' hs' => rw [forall₂_cons, forall₂_cons, hPQ hab hab', ih hs']

end Covenant.Outcome
