import Mathlib
import StarknetSequencer.Effect.State

open Std.Do

set_option mvcgen.warning false

namespace Effect

section Triples

variable {ε σ α β : Type} {m : EStateM ε σ α} {P : σ → Prop} {Q : α → σ → Prop}
  {E : ε → σ → Prop} {s t : σ}

theorem triple_ok (h : ⦃fun s => ⌜P s⌝⦄ m ⦃post⟨fun a t => ⌜Q a t⌝, fun e t => ⌜E e t⌝⟩⦄)
    (hs : P s) {a : α} (hrun : m.run s = .ok a t) : Q a t := by
  have hwp := h s hs
  simp only [WP.wp, PredTrans.apply, hrun] at hwp
  exact hwp

theorem triple_error (h : ⦃fun s => ⌜P s⌝⦄ m ⦃post⟨fun a t => ⌜Q a t⌝, fun e t => ⌜E e t⌝⟩⦄)
    (hs : P s) {e : ε} (hrun : m.run s = .error e t) : E e t := by
  have hwp := h s hs
  simp only [WP.wp, PredTrans.apply, hrun] at hwp
  exact hwp

theorem never_bind (h : ∀ s a t, m.run s ≠ .ok a t) (f g : α → EStateM ε σ β) :
    (m >>= f) = (m >>= g) := by
  funext s
  exact run_bind_congr fun a t hrun => absurd hrun (h s a t)

end Triples

@[spec]
theorem lift_spec {ε σ α : Type} {r : Except ε α} {s : σ} :
    ⦃fun u => ⌜u = s⌝⦄ (lift r : EStateM ε σ α)
    ⦃post⟨fun a t => ⌜r = .ok a ∧ t = s⌝, fun e t => ⌜r = .error e ∧ t = s⌝⟩⦄ := by
  cases r <;> mvcgen [lift]

end Effect
