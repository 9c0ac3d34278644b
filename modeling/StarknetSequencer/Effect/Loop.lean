import StarknetSequencer.Effect.State

namespace Effect

variable {ε σ α : Type} {f : α → EStateM ε σ Unit}

theorem run_forM_cons (f : α → EStateM ε σ Unit) (a : α) (as : List α) (s : σ) :
    (forM (a :: as) f).run s = match (f a).run s with
      | .ok _ t => (forM as f).run t
      | .error e t => .error e t := by
  rw [List.forM_cons, EStateM.run_bind]
  cases (f a).run s <;> rfl

theorem run_forM_append (f : α → EStateM ε σ Unit) (as bs : List α) (s : σ) :
    (forM (as ++ bs) f).run s = match (forM as f).run s with
      | .ok _ t => (forM bs f).run t
      | .error e t => .error e t := by
  rw [List.forM_append, EStateM.run_bind]
  cases (forM as f).run s <;> rfl

theorem run_forM_append_error {as bs : List α} {s t : σ} {e : ε}
    (h : (forM as f).run s = .error e t) : (forM (as ++ bs) f).run s = .error e t := by
  rw [run_forM_append, h]

theorem run_forM_append_ok {as bs : List α} {s t : σ} :
    (forM (as ++ bs) f).run s = .ok () t ↔
      ∃ u, (forM as f).run s = .ok () u ∧ (forM bs f).run u = .ok () t := by
  rw [run_forM_append]
  cases (forM as f).run s with
  | ok _ u => simp
  | error e u => simp

theorem forM_flatMap {β : Type} (f : α → EStateM ε σ Unit) (g : β → List α) (bs : List β) :
    forM (bs.flatMap g) f = forM bs fun b => forM (g b) f := by
  induction bs with
  | nil => rfl
  | cons b bs ih => rw [List.flatMap_cons, List.forM_append, List.forM_cons, ih]

-- a loop that fails does so at one element, after every element before it has succeeded
theorem run_forM_error {as : List α} {s t : σ} {e : ε} :
    (forM as f).run s = .error e t ↔
      ∃ done a rest u, as = done ++ a :: rest ∧ (forM done f).run s = .ok () u ∧
        (f a).run u = .error e t := by
  constructor
  · intro h
    induction as generalizing s with
    | nil => cases h
    | cons a as ih =>
      rw [run_forM_cons] at h
      cases ha : (f a).run s with
      | ok _ u =>
        rw [ha] at h
        obtain ⟨done, b, rest, v, rfl, hdone, hb⟩ := ih h
        refine ⟨a :: done, b, rest, v, rfl, ?_, hb⟩
        rw [run_forM_cons, ha]
        exact hdone
      | error e' u =>
        rw [ha] at h
        cases h
        exact ⟨[], a, as, s, rfl, rfl, ha⟩
  · rintro ⟨done, a, rest, u, rfl, hdone, ha⟩
    rw [run_forM_append, hdone]
    simp only [run_forM_cons, ha]

-- whether an element succeeds does not depend on the state it is met in
theorem run_forM_ok_iff {P : α → Prop} (h : ∀ a s, (∃ t, (f a).run s = .ok () t) ↔ P a)
    {as : List α} {s : σ} : (∃ t, (forM as f).run s = .ok () t) ↔ ∀ a ∈ as, P a := by
  induction as generalizing s with
  | nil => exact iff_of_true ⟨s, rfl⟩ (by simp)
  | cons a as ih =>
    rw [List.forall_mem_cons, run_forM_cons]
    cases ha : (f a).run s with
    | ok _ u =>
      have hP : P a := (h a s).mp ⟨u, ha⟩
      rw [and_iff_right hP]
      exact ih
    | error e u =>
      have hP : ¬ P a := by
        intro hP
        obtain ⟨t, ht⟩ := (h a s).mpr hP
        cases ha.symm.trans ht
      exact iff_of_false (by rintro ⟨t, ⟨⟩⟩) fun hall => hP hall.1

theorem run_forM_foldl {effect : σ → α → σ}
    (h : ∀ a s t, (f a).run s = .ok () t → t = effect s a) {as : List α} {s t : σ}
    (hrun : (forM as f).run s = .ok () t) : t = as.foldl effect s := by
  induction as generalizing s with
  | nil =>
    cases hrun
    rfl
  | cons a as ih =>
    rw [run_forM_cons] at hrun
    cases ha : (f a).run s with
    | ok _ u =>
      rw [ha] at hrun
      rw [ih hrun, h a s u ha, List.foldl_cons]
    | error e u =>
      rw [ha] at hrun
      cases hrun

theorem Moves.forM {R : σ → σ → Prop} (refl : ∀ s, R s s) (trans : ∀ s t u, R s t → R t u → R s u)
    {as : List α} (h : ∀ a ∈ as, Moves R (f a)) : Moves R (forM as f) := by
  induction as with
  | nil => exact Moves.pure refl ()
  | cons a as ih =>
    rw [List.forall_mem_cons] at h
    rw [List.forM_cons]
    exact Moves.bind trans h.1 fun _ => ih h.2

end Effect
