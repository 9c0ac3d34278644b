import Mathlib.Logic.Function.Basic

namespace Registry

variable {K V : Type} (held : V → Prop)

def Covers (m n : K → V) : Prop :=
  ∀ k, held (m k) → held (n k)

def Within (m n : K → V) : Prop :=
  ∀ k, held (m k) → n k = m k

variable {held}

theorem Covers.refl (m : K → V) : Covers held m m := fun _ h => h

theorem Covers.trans {m n o : K → V} (h₁ : Covers held m n) (h₂ : Covers held n o) :
    Covers held m o :=
  fun k h => h₂ k (h₁ k h)

theorem Within.refl (m : K → V) : Within held m m := fun _ _ => rfl

theorem Within.trans {m n o : K → V} (h₁ : Within held m n) (h₂ : Within held n o) :
    Within held m o := by
  intro k hk
  have hn := h₁ k hk
  rw [← hn] at hk
  exact (h₂ k hk).trans hn

variable [DecidableEq K]

theorem update_covers (m : K → V) (k : K) {v : V} (hv : held v) :
    Covers held m (Function.update m k v) := by
  intro j hj
  by_cases h : j = k
  · rwa [h, Function.update_self]
  · rwa [Function.update_of_ne h]

variable (held)

def claim [DecidablePred held] (m : K → V) (k : K) (v : V) : K → V :=
  if held (m k) then m else Function.update m k v

variable {held} [DecidablePred held]

theorem claim_of_free {m : K → V} {k : K} (v : V) (h : ¬ held (m k)) :
    claim held m k v = Function.update m k v := if_neg h

theorem claim_of_held {m : K → V} {k : K} (v : V) (h : held (m k)) : claim held m k v = m :=
  if_pos h

theorem claim_within (m : K → V) (k : K) (v : V) : Within held m (claim held m k v) := by
  intro j hj
  by_cases hk : held (m k)
  · rw [claim_of_held v hk]
  · have hne : j ≠ k := by
      rintro rfl
      exact hk hj
    rw [claim_of_free v hk, Function.update_of_ne hne]

-- `present` may be weaker than `held`: a cell may be written and still be free
theorem claim_covers {present : V → Prop} (m : K → V) (k : K) {v : V} (hv : present v) :
    Covers present m (claim held m k v) := by
  by_cases hk : held (m k)
  · rw [claim_of_held v hk]
    exact Covers.refl m
  · rw [claim_of_free v hk]
    exact update_covers m k hv

theorem claim_present {present : V → Prop} (m : K → V) (k : K) {v : V} (hv : present v)
    (himp : ∀ u, held u → present u) : present (claim held m k v k) := by
  by_cases hk : held (m k)
  · rw [claim_of_held v hk]
    exact himp _ hk
  · rwa [claim_of_free v hk, Function.update_self]

end Registry
