import StarknetSequencer.Effect.State

namespace Effect

variable {ε σ τ α β : Type}

def mapFinal (g : σ → σ) : EStateM.Result ε σ α → EStateM.Result ε σ α
  | .ok a s => .ok a (g s)
  | .error e s => .error e (g s)

@[simp] theorem value_mapFinal (g : σ → σ) (r : EStateM.Result ε σ α) :
    value (mapFinal g r) = value r := by
  cases r <;> rfl

@[simp] theorem final_mapFinal (g : σ → σ) (r : EStateM.Result ε σ α) :
    final (mapFinal g r) = g (final r) := by
  cases r <;> rfl

-- `m` neither reads nor writes what `g` changes
def Commutes (g : σ → σ) (m : EStateM ε σ α) : Prop :=
  ∀ s, m.run (g s) = mapFinal g (m.run s)

namespace Commutes

variable {g : σ → σ}

theorem pure (a : α) : Commutes g (Pure.pure a : EStateM ε σ α) := fun _ => rfl

theorem bind {m : EStateM ε σ α} {f : α → EStateM ε σ β} (hm : Commutes g m)
    (hf : ∀ a, Commutes g (f a)) : Commutes g (m >>= f) := by
  intro s
  rw [EStateM.run_bind, EStateM.run_bind, hm s]
  cases m.run s with
  | ok a t => exact hf a t
  | error e t => rfl

theorem map {m : EStateM ε σ α} (f : α → β) (hm : Commutes g m) : Commutes g (f <$> m) := by
  intro s
  rw [run_map, run_map, hm s]
  cases m.run s <;> rfl

theorem lift (r : Except ε α) : Commutes g (Effect.lift r : EStateM ε σ α) := by
  intro s
  cases r <;> rfl

theorem orThrow (e : ε) (o : Option α) : Commutes g (Effect.orThrow e o : EStateM ε σ α) := by
  intro s
  cases o <;> rfl

theorem modify {f : σ → σ} (h : ∀ s, f (g s) = g (f s)) :
    Commutes g (modify f : EStateM ε σ PUnit) := by
  intro s
  change EStateM.Result.ok PUnit.unit (f (g s)) = EStateM.Result.ok PUnit.unit (g (f s))
  rw [h]

theorem zoom {get : σ → τ} {put : σ → τ → σ} (m : EStateM ε τ α) (hget : ∀ s, get (g s) = get s)
    (hput : ∀ s t, put (g s) t = g (put s t)) : Commutes g (Effect.zoom get put m) := by
  intro s
  rw [run_zoom, run_zoom, hget]
  cases m.run (get s) with
  | ok a t => exact congrArg (EStateM.Result.ok a) (hput s t)
  | error e t => exact congrArg (EStateM.Result.error e) (hput s t)

end Commutes

end Effect
