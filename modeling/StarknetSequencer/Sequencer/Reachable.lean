import StarknetSequencer.Sequencer.Block

namespace Sequencer

open Wire Effect StarknetApp

variable {C S I : Type} (L : Starknet C S I)

-- a panic unwinds the one connection that made the call; the others go on with what it left
inductive Reachable : StarknetApp S → Prop
  | new {heightFile : Option Bytes} {app : StarknetApp S} :
    StarknetApp.new L heightFile = .ok app → Reachable app
  | handle {app : StarknetApp S} (request : Request) :
    Reachable app → Reachable (final ((request.handle L).run app))

structure StarknetApp.Running (app : StarknetApp S) : Prop where
  hasher : app.hasher.poisoned = false
  atHeight : ∃ height, app.AtHeight height

variable {L}

theorem final_map {α β : Type} (f : α → β) (m : Hook S α) (app : StarknetApp S) :
    final ((f <$> m).run app) = final (m.run app) := by
  rw [run_map]
  cases m.run app <;> rfl

theorem new_running {heightFile : Option Bytes} {app : StarknetApp S}
    (h : StarknetApp.new L heightFile = .ok app) : app.Running := by
  cases heightFile with
  | none =>
    cases h
    exact ⟨rfl, 0, fresh_atHeight⟩
  | some bytes =>
    cases hd : HeightFile.decode bytes with
    | none => simp [StarknetApp.new, HeightFile.readOrCreate, hd] at h
    | some height =>
      simp only [StarknetApp.new, HeightFile.readOrCreate, EStateM.run_bind, EStateM.run_get, hd,
        run_orThrow_some, Except.ok.injEq] at h
      rw [← h]
      exact ⟨rfl, height, bytes, rfl, hd⟩

theorem handle_running (request : Request) {app : StarknetApp S} (h : app.Running) :
    (final ((request.handle L).run app)).Running := by
  obtain ⟨height, ha⟩ := h.atHeight
  cases request with
  | initChain => exact h
  | info =>
    rw [Request.handle, final_map, run_info ha]
    exact h
  | query => exact h
  | checkTx tx =>
    rw [Request.handle, final_map, StarknetApp.checkTx]
    cases transactionCodec.deserialize tx <;> exact h
  | beginBlock => exact ⟨h.hasher, h.atHeight⟩
  | deliverTx tx =>
    obtain ⟨hfile, hhash⟩ := final_deliverTx (L := L) tx h.hasher
    rw [Request.handle, final_map]
    exact ⟨by rw [hhash], height, ha.imp fun bytes hb => ⟨hfile.trans hb.1, hb.2⟩⟩
  | endBlock => exact h
  | commit =>
    rw [Request.handle, final_map, run_commit h.hasher ha]
    exact ⟨h.hasher, _, _, rfl, HeightFile.decode_encode _⟩
  | prepareProposal txs maxTxBytes => exact h
  | processProposal => exact h

theorem handle_starknetState {request : Request} {app : StarknetApp S} (h : app.Running)
    (hr : ∀ tx, request ≠ .deliverTx tx) :
    (final ((request.handle L).run app)).starknetState = app.starknetState := by
  obtain ⟨height, ha⟩ := h.atHeight
  cases request with
  | info =>
    rw [Request.handle, final_map, run_info ha]
    rfl
  | checkTx tx =>
    rw [Request.handle, final_map, StarknetApp.checkTx]
    cases transactionCodec.deserialize tx <;> rfl
  | deliverTx tx => exact absurd rfl (hr tx)
  | commit =>
    rw [Request.handle, final_map, run_commit h.hasher ha]
    rfl
  | initChain => rfl
  | query => rfl
  | beginBlock => rfl
  | endBlock => rfl
  | prepareProposal txs maxTxBytes => rfl
  | processProposal => rfl

theorem Reachable.running {app : StarknetApp S} (h : Reachable L app) : app.Running := by
  induction h with
  | new hnew => exact new_running hnew
  | handle request _ ih => exact handle_running request ih

theorem Reachable.deliverTx {app app' : StarknetApp S} {tx : Bytes} {r : ResponseDeliverTx}
    (h : Reachable L app) (hrun : (deliverTx L tx).run app = .ok r app') : Reachable L app' := by
  have hnext := h.handle (.deliverTx tx)
  rwa [Request.handle, final_map, hrun] at hnext

end Sequencer
