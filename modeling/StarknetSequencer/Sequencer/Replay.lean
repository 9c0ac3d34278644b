import StarknetSequencer.Sequencer.Reachable
import StarknetSequencer.Sequencer.Reference

namespace Sequencer

open Wire Effect StarknetApp

variable {C S I : Type} (L : Starknet C S I)

def StarknetApp.deliverInterrupted (txs : List Bytes) (j : Nat) :
    Hook S (ResponseInfo × List ResponseDeliverTx × ResponseCommit) := do
  beginBlock
  let _ ← deliverTxs L (txs.take j)
  let response ← info
  let result ← deliverBlock L txs
  return (response, result)

variable {L}

theorem run_deliverInterrupted_ok {txs : List Bytes} {j : Nat} {response : ResponseInfo}
    {result : List ResponseDeliverTx × ResponseCommit} {app app' : StarknetApp S} :
    (deliverInterrupted L txs j).run app = .ok (response, result) app' ↔
      ∃ rs app₁ app₂,
        (deliverTxs L (txs.take j)).run { app with transactions := 0 } = .ok rs app₁ ∧
        info.run app₁ = .ok response app₂ ∧ (deliverBlock L txs).run app₂ = .ok result app' := by
  constructor
  · intro h
    obtain ⟨_, app₀, hb, h⟩ := run_bind_ok.mp h
    cases hb
    obtain ⟨rs, app₁, hd, h⟩ := run_bind_ok.mp h
    obtain ⟨response', app₂, hi, h⟩ := run_bind_ok.mp h
    obtain ⟨result', app₃, hb, h⟩ := run_bind_ok.mp h
    cases h
    exact ⟨rs, app₁, app₂, hd, hi, hb⟩
  · rintro ⟨rs, app₁, app₂, hd, hi, hb⟩
    apply run_bind_ok.mpr
    refine ⟨(), { app with transactions := 0 }, rfl, ?_⟩
    apply run_bind_ok.mpr
    refine ⟨rs, app₁, hd, ?_⟩
    apply run_bind_ok.mpr
    refine ⟨response, app₂, hi, ?_⟩
    exact run_bind_ok.mpr ⟨result, app', hb, rfl⟩

theorem deliverInterrupted_hasher {txs : List Bytes} {j : Nat} {response : ResponseInfo}
    {result : List ResponseDeliverTx × ResponseCommit} {app app' : StarknetApp S} {height : Int64}
    (hh : app.hasher.poisoned = false) (ha : app.AtHeight height)
    (h : (deliverInterrupted L txs j).run app = .ok (response, result) app') :
    app'.hasher = ⟨app.hasher.data ++ (((txs.take j).map (streamOf L)).flatten ++
      (txs.map (streamOf L)).flatten), false⟩ := by
  obtain ⟨rs, app₁, app₂, hd, hinfo, hb⟩ := run_deliverInterrupted_ok.mp h
  obtain ⟨hf₁, hs₁⟩ := deliverTxs_hasher hd hh
  have ha₁ : app₁.AtHeight height := ha.imp fun bytes hb => ⟨hf₁.trans hb.1, hb.2⟩
  rw [run_info ha₁] at hinfo
  cases hinfo
  rw [deliverBlock_hasher (by rw [hs₁]) ha₁ hb, hs₁, List.append_assoc]

theorem block_atomic_iff {app app' : StarknetApp S} (hr : Reachable L app) {txs : List Bytes}
    {result : List ResponseDeliverTx × ResponseCommit}
    (hrun : (deliverBlock L txs).run app = .ok result app') (j : Nat) :
    (∃ response app'',
      (deliverInterrupted L txs j).run app = .ok (response, result) app'' ∧
      app.AtHeight response.lastBlockHeight ∧ app''.hasher = app'.hasher ∧
      app''.starknetState = app'.starknetState) ↔
    ∀ tx ∈ txs.take j, passed L tx = none := by
  obtain ⟨height, ha⟩ := hr.running.atHeight
  have hh := hr.running.hasher
  constructor
  · rintro ⟨response, app'', hi, -, hhash, -⟩
    rw [deliverInterrupted_hasher hh ha hi, deliverBlock_hasher hh ha hrun, Mutex.mk.injEq,
      List.append_cancel_left_eq] at hhash
    exact streams_eq_nil.mp (List.append_left_eq_self.mp hhash.1)
  · intro hp
    obtain ⟨app₁, hd, -⟩ := run_deliverBlock_ok.mp hrun
    rw [← List.take_append_drop j txs] at hd
    obtain ⟨rs, rs', app₂, hfirst, -, -⟩ := run_mapM_append.mp hd
    have happ := deliverTxs_not_passed hp hfirst
    have ha₂ : app₂.AtHeight height := by
      rw [happ]
      exact ha
    have hagain : (deliverBlock L txs).run app₂ = .ok result app' := by
      rw [happ]
      exact hrun
    refine ⟨⟨"cairo-app", "0.1.0", 1, height, []⟩, app', ?_, ha, rfl, rfl⟩
    exact run_deliverInterrupted_ok.mpr ⟨rs, app₂, app₂, hfirst, run_info ha₂, hagain⟩

theorem block_atomic_iff_stray :
    (∃ response app'',
      (deliverInterrupted Reference.starknet [Reference.request Reference.stray] 1).run
          (fresh Reference.starknet) =
        .ok (response, [accepted Reference.stray], ⟨utf8 Reference.stray.transactionHash, 0⟩) app'' ∧
      (fresh Reference.starknet).AtHeight response.lastBlockHeight ∧
      app''.hasher = ⟨utf8 Reference.stray.transactionHash, false⟩ ∧
      app''.starknetState = (fresh Reference.starknet).starknetState) ↔
    ∀ tx ∈ [Reference.request Reference.stray], passed Reference.starknet tx = none :=
  block_atomic_iff (.new new_missing) (Reference.run_block_stray rfl fresh_atHeight) 1

theorem interrupted_block_hashed_twice :
    ∃ result app',
      (deliverBlock Reference.starknet [Reference.request Reference.stray]).run
          (fresh Reference.starknet) = .ok result app' ∧
      ¬ ∃ response app'',
        (deliverInterrupted Reference.starknet [Reference.request Reference.stray] 1).run
            (fresh Reference.starknet) = .ok (response, result) app'' ∧
        app''.hasher = app'.hasher ∧ app''.starknetState = app'.starknetState := by
  refine ⟨_, _, Reference.run_block_stray rfl fresh_atHeight, ?_⟩
  rintro ⟨response, app'', hi, hhash, -⟩
  rw [deliverInterrupted_hasher rfl fresh_atHeight hi] at hhash
  have hlen := congrArg (fun hasher => hasher.data.length) hhash
  have hnil : utf8 Reference.stray.transactionHash = [] := by
    simpa [fresh, Mutex.new, streamOf_passed Reference.passed_stray] using hlen
  exact transactionHash_ne Reference.passed_stray hnil

end Sequencer
