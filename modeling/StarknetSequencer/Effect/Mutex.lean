import StarknetSequencer.Effect.State

namespace Effect

structure Mutex (σ : Type) where
  data : σ
  poisoned : Bool
deriving DecidableEq

namespace Mutex

variable {ε σ α : Type}

def new (s : σ) : Mutex σ where
  data := s
  poisoned := false

def lockMap (m : EStateM ε σ α) : EStateM ε (Mutex σ) (Option α) := fun mutex =>
  if mutex.poisoned then .ok none mutex
  else match m.run mutex.data with
    | .ok a s => .ok (some a) ⟨s, false⟩
    | .error e s => .error e ⟨s, true⟩

theorem run_lockMap_poisoned (m : EStateM ε σ α) {mutex : Mutex σ} (h : mutex.poisoned = true) :
    (lockMap m).run mutex = .ok none mutex := if_pos h

theorem run_lockMap (m : EStateM ε σ α) {mutex : Mutex σ} (h : mutex.poisoned = false) :
    (lockMap m).run mutex = match m.run mutex.data with
      | .ok a s => .ok (some a) ⟨s, false⟩
      | .error e s => .error e ⟨s, true⟩ := if_neg (by simp [h])

end Mutex

end Effect
