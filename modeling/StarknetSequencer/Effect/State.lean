import Mathlib.Data.List.Basic

namespace Effect

variable {ε σ τ α β : Type}

def final : EStateM.Result ε σ α → σ
  | .ok _ s => s
  | .error _ s => s

def value : EStateM.Result ε σ α → Except ε α
  | .ok a _ => .ok a
  | .error e _ => .error e

@[simp] theorem final_ok (a : α) (s : σ) : final (.ok a s : EStateM.Result ε σ α) = s := rfl

@[simp] theorem final_error (e : ε) (s : σ) :
    final (.error e s : EStateM.Result ε σ α) = s := rfl

@[simp] theorem value_ok (a : α) (s : σ) :
    value (.ok a s : EStateM.Result ε σ α) = .ok a := rfl

@[simp] theorem value_error (e : ε) (s : σ) :
    value (.error e s : EStateM.Result ε σ α) = .error e := rfl

@[simp] theorem toOption_eq_some {r : Except ε α} {a : α} :
    r.toOption = some a ↔ r = .ok a := by
  cases r <;> simp [Except.toOption]

def lift : Except ε α → EStateM ε σ α
  | .ok a => pure a
  | .error e => throw e

def orThrow (e : ε) : Option α → EStateM ε σ α
  | some a => pure a
  | none => throw e

def attempt (m : EStateM ε σ α) : EStateM β σ (Except ε α) := fun s =>
  .ok (value (m.run s)) (final (m.run s))

def zoom (get : σ → τ) (put : σ → τ → σ) (m : EStateM ε τ α) : EStateM ε σ α := fun s =>
  match m.run (get s) with
  | .ok a t => .ok a (put s t)
  | .error e t => .error e (put s t)

@[simp] theorem run_map (f : α → β) (m : EStateM ε σ α) (s : σ) :
    (f <$> m).run s = match m.run s with
      | .ok a s => .ok (f a) s
      | .error e s => .error e s := rfl

@[simp] theorem run_lift_ok (a : α) (s : σ) :
    (lift (.ok a) : EStateM ε σ α).run s = .ok a s := rfl

@[simp] theorem run_lift_error (e : ε) (s : σ) :
    (lift (.error e) : EStateM ε σ α).run s = .error e s := rfl

theorem run_lift_eq_ok {r : Except ε α} {a : α} {s t : σ} :
    (lift r : EStateM ε σ α).run s = .ok a t ↔ r = .ok a ∧ t = s := by
  cases r with
  | ok b => simp [eq_comm]
  | error e => simp

@[simp] theorem run_orThrow_some (e : ε) (a : α) (s : σ) :
    (orThrow e (some a) : EStateM ε σ α).run s = .ok a s := rfl

@[simp] theorem run_orThrow_none (e : ε) (s : σ) :
    (orThrow e none : EStateM ε σ α).run s = .error e s := rfl

theorem run_orThrow_eq_ok {e : ε} {o : Option α} {a : α} {s t : σ} :
    (orThrow e o : EStateM ε σ α).run s = .ok a t ↔ o = some a ∧ t = s := by
  cases o with
  | some b => simp [eq_comm]
  | none => simp

@[simp] theorem run_attempt (m : EStateM ε σ α) (s : σ) :
    (attempt m : EStateM β σ (Except ε α)).run s =
      .ok (value (m.run s)) (final (m.run s)) := rfl

theorem run_zoom (get : σ → τ) (put : σ → τ → σ) (m : EStateM ε τ α) (s : σ) :
    (zoom get put m).run s = match m.run (get s) with
      | .ok a t => .ok a (put s t)
      | .error e t => .error e (put s t) := rfl

theorem run_bind_ok {m : EStateM ε σ α} {f : α → EStateM ε σ β} {s s'' : σ} {b : β} :
    (m >>= f).run s = .ok b s'' ↔
      ∃ a s', m.run s = .ok a s' ∧ (f a).run s' = .ok b s'' := by
  rw [EStateM.run_bind]
  cases m.run s with
  | ok a s' => simp
  | error e s' => simp

theorem run_bind_congr {m : EStateM ε σ α} {f g : α → EStateM ε σ β} {s : σ}
    (h : ∀ a t, m.run s = .ok a t → (f a).run t = (g a).run t) :
    (m >>= f).run s = (m >>= g).run s := by
  rw [EStateM.run_bind, EStateM.run_bind]
  cases hm : m.run s with
  | ok a t => exact h a t hm
  | error e t => rfl

theorem run_mapM_nil {f : α → EStateM ε σ β} {s : σ} :
    (List.mapM f []).run s = .ok [] s := by
  simp

theorem run_mapM_cons {f : α → EStateM ε σ β} {a : α} {as : List α} {bs : List β} {s s'' : σ} :
    (List.mapM f (a :: as)).run s = .ok bs s'' ↔
      ∃ b bs' s', (f a).run s = .ok b s' ∧ (List.mapM f as).run s' = .ok bs' s'' ∧
        bs = b :: bs' := by
  rw [List.mapM_cons, run_bind_ok]
  constructor
  · rintro ⟨b, s', hb, h⟩
    obtain ⟨bs', t, hbs, h⟩ := run_bind_ok.mp h
    cases h
    exact ⟨b, bs', s', hb, hbs, rfl⟩
  · rintro ⟨b, bs', s', hb, hbs, rfl⟩
    exact ⟨b, s', hb, run_bind_ok.mpr ⟨bs', s'', hbs, rfl⟩⟩

theorem run_mapM_singleton {f : α → EStateM ε σ β} {a : α} {bs : List β} {s s' : σ} :
    (List.mapM f [a]).run s = .ok bs s' ↔ ∃ b, (f a).run s = .ok b s' ∧ bs = [b] := by
  rw [run_mapM_cons]
  constructor
  · rintro ⟨b, bs', t, hb, hnil, rfl⟩
    cases run_mapM_nil.symm.trans hnil
    exact ⟨b, hb, rfl⟩
  · rintro ⟨b, hb, rfl⟩
    exact ⟨b, [], s', hb, run_mapM_nil, rfl⟩

theorem run_mapM_append {f : α → EStateM ε σ β} {as as' : List α} {bs : List β} {s s'' : σ} :
    (List.mapM f (as ++ as')).run s = .ok bs s'' ↔
      ∃ bs₁ bs₂ s', (List.mapM f as).run s = .ok bs₁ s' ∧
        (List.mapM f as').run s' = .ok bs₂ s'' ∧ bs = bs₁ ++ bs₂ := by
  rw [List.mapM_append, run_bind_ok]
  constructor
  · rintro ⟨bs₁, s', h₁, h⟩
    obtain ⟨bs₂, t, h₂, h⟩ := run_bind_ok.mp h
    cases h
    exact ⟨bs₁, bs₂, s', h₁, h₂, rfl⟩
  · rintro ⟨bs₁, bs₂, s', h₁, h₂, rfl⟩
    exact ⟨bs₁, s', h₁, run_bind_ok.mpr ⟨bs₂, s'', h₂, rfl⟩⟩

theorem length_of_run_mapM {f : α → EStateM ε σ β} {as : List α} {bs : List β} {s s' : σ}
    (h : (List.mapM f as).run s = .ok bs s') : bs.length = as.length := by
  induction as generalizing s bs with
  | nil =>
    rw [run_mapM_nil] at h
    cases h
    rfl
  | cons a as ih =>
    obtain ⟨b, bs', t, -, hbs, rfl⟩ := run_mapM_cons.mp h
    rw [List.length_cons, List.length_cons, ih hbs]

section Moves

variable (R : σ → σ → Prop)

def Moves (m : EStateM ε σ α) : Prop :=
  ∀ s, R s (final (m.run s))

variable {R}

theorem Moves.pure (refl : ∀ s, R s s) (a : α) : Moves R (pure a : EStateM ε σ α) :=
  fun s => refl s

theorem Moves.bind (trans : ∀ s t u, R s t → R t u → R s u) {m : EStateM ε σ α}
    {f : α → EStateM ε σ β} (hm : Moves R m) (hf : ∀ a, Moves R (f a)) :
    Moves R (m >>= f) := by
  intro s
  have hs := hm s
  rw [EStateM.run_bind]
  cases h : m.run s with
  | ok a t =>
    rw [h] at hs
    exact trans _ _ _ hs (hf a t)
  | error e t =>
    rw [h] at hs
    exact hs

theorem Moves.lift (refl : ∀ s, R s s) (r : Except ε α) :
    Moves R (lift r : EStateM ε σ α) := by
  intro s
  cases r <;> exact refl s

theorem Moves.orThrow (refl : ∀ s, R s s) (e : ε) (o : Option α) :
    Moves R (orThrow e o : EStateM ε σ α) := by
  intro s
  cases o <;> exact refl s

end Moves

end Effect
