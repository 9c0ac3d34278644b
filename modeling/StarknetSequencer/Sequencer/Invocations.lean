import StarknetSequencer.Sequencer.Reachable
import StarknetSequencer.Sequencer.Reference

namespace Sequencer

open Wire Effect StarknetApp

variable {C S I : Type} (L : Starknet C S I)

structure Call where
  contractAddress : Felt252
  function : String
  inputs : Option (List Int32)

def callOf (request : Bytes) : Option Call :=
  (passed L request).bind fun tx =>
  match tx.transactionType with
  | .invoke address function inputs => (parseTail L address).map (⟨·, function, inputs⟩)
  | _ => none

def lookup (contractAddress : Felt252) : EStateM String S ClassHash := do
  let classHash ← L.getClassHashAt contractAddress
  let _ ← L.getContractClass classHash
  return classHash

namespace Call

variable (call : Call)

def execution (classHash : ClassHash) : EStateM String S I :=
  L.execute (entryPoint L call.contractAddress call.function call.inputs classHash)
    (executionContext L)

def run : EStateM String S I := do
  let classHash ← lookup L call.contractAddress
  call.execution L classHash

def delivered : EStateM Panic S (Except String I) :=
  executeInvoke L call.contractAddress call.function call.inputs

end Call

-- every call answers `Ok` in the delivered run
def Executed : List Call → S → Prop
  | [], _ => True
  | call :: calls, s => ∃ info t, (call.delivered L).run s = .ok (.ok info) t ∧ Executed calls t

def ReadOnly : List Call → S → Prop
  | [], _ => True
  | call :: calls, s => ∀ classHash t, (lookup L call.contractAddress).run s = .ok classHash t →
    final ((call.execution L classHash).run t) = t ∧ ReadOnly calls t

def stateAfter (app : StarknetApp S) (txs : List Bytes) : S :=
  (final ((deliverTxs L txs).run app)).starknetState.data

variable {L}

theorem callOf_eq_some {request : Bytes} {call : Call} :
    callOf L request = some call ↔ ∃ tx address tail, passed L request = some tx ∧
      tx.transactionType = .invoke address call.function call.inputs ∧
      sliceFrom 2 address = .ok tail ∧ L.fromStrRadix16 tail = .ok call.contractAddress := by
  simp only [callOf, Option.bind_eq_some_iff]
  constructor
  · rintro ⟨tx, hp, h⟩
    split at h
    · rename_i address function inputs ht
      obtain ⟨felt, hf, rfl⟩ := Option.map_eq_some_iff.mp h
      obtain ⟨tail, hs, hf⟩ := Option.bind_eq_some_iff.mp hf
      exact ⟨tx, address, tail, hp, ht, toOption_eq_some.mp hs, toOption_eq_some.mp hf⟩
    · cases h
  · rintro ⟨tx, address, tail, hp, ht, hs, hf⟩
    refine ⟨tx, hp, ?_⟩
    simp only [ht, parseTail, hs, hf, Except.toOption, Option.bind_some, Option.map_some]

theorem run_delivered_ok {call : Call} {info : I} {s t : S} :
    (call.delivered L).run s = .ok (.ok info) t ↔ ∃ classHash,
      (lookup L call.contractAddress).run s = .ok classHash t ∧
      value ((call.execution L classHash).run t) = .ok info := by
  rw [Call.delivered, run_executeInvoke]
  simp only [lookup, Call.execution, EStateM.run_bind]
  cases hh : (L.getClassHashAt call.contractAddress).run s with
  | error e u => simp
  | ok classHash u =>
    simp only
    cases hc : (L.getContractClass classHash).run u with
    | error e v => simp
    | ok contractClass v =>
      simp only [value_ok, final_ok, EStateM.run_pure, EStateM.Result.ok.injEq]
      constructor
      · rintro ⟨hv, rfl⟩
        refine ⟨classHash, ⟨rfl, rfl⟩, ?_⟩
        cases hx : value ((L.execute (entryPoint L call.contractAddress call.function call.inputs
          classHash) (executionContext L)).run v) with
        | error e => simp [hx, Except.mapError] at hv
        | ok info' => simpa [hx, Except.mapError] using hv
      · rintro ⟨classHash', ⟨rfl, rfl⟩, hv⟩
        simp [hv, Except.mapError]

theorem execution_of_delivered {call : Call} {info : I} {s t : S}
    (h : (call.delivered L).run s = .ok (.ok info) t) : ∃ classHash t',
      (lookup L call.contractAddress).run s = .ok classHash t ∧
      (call.execution L classHash).run t = .ok info t' ∧ (call.run L).run s = .ok info t' := by
  obtain ⟨classHash, hlook, hinfo⟩ := run_delivered_ok.mp h
  have hstep : (call.run L).run s = (call.execution L classHash).run t := by
    simp only [Call.run, EStateM.run_bind, hlook]
  cases hr : (call.execution L classHash).run t with
  | error e u =>
    rw [hr] at hinfo
    cases hinfo
  | ok i u =>
    rw [hr] at hinfo
    cases hinfo
    exact ⟨classHash, u, hlook, hr, hstep.trans hr⟩

theorem readOnly_cons {call : Call} {calls : List Call} {classHash : ClassHash} {info : I}
    {s t t' : S} (hlook : (lookup L call.contractAddress).run s = .ok classHash t)
    (hexec : (call.execution L classHash).run t = .ok info t') :
    ReadOnly L (call :: calls) s ↔ t' = t ∧ ReadOnly L calls t := by
  constructor
  · intro h
    obtain ⟨hfinal, hreads⟩ := h classHash t hlook
    rw [hexec] at hfinal
    exact ⟨hfinal, hreads⟩
  · rintro ⟨rfl, hreads⟩ classHash' u hu
    cases hlook.symm.trans hu
    rw [hexec]
    exact ⟨rfl, hreads⟩

theorem deliverTx_call {request : Bytes} {call : Call} (hc : callOf L request = some call)
    {result : Except String I} {t : S} {app : StarknetApp S}
    (hh : app.hasher.poisoned = false) (hs : app.starknetState.poisoned = false)
    (hx : (call.delivered L).run app.starknetState.data = .ok result t) :
    ∃ tx app', (deliverTx L request).run app = .ok (accepted tx) app' ∧
      app'.hasher.poisoned = false ∧ app'.starknetState = ⟨t, false⟩ := by
  obtain ⟨tx, address, tail, hp, ht, htail, hf⟩ := callOf_eq_some.mp hc
  have hs' : (app.hashed tx).starknetState.poisoned = false := hs
  have hx' : (executeInvoke L call.contractAddress call.function call.inputs).run
      (app.hashed tx).starknetState.data = .ok result t := hx
  refine ⟨tx, { app.hashed tx with starknetState := ⟨t, false⟩ }, ?_, rfl, rfl⟩
  rw [run_deliverTx_passed hp hh, ht, deliver, EStateM.run_bind, run_runInvokeTx htail hs', hf]
  simp only [hx', EStateM.run_pure]

theorem deliverTx_call_poisoned {request : Bytes} {call : Call}
    (hc : callOf L request = some call) {r : ResponseDeliverTx} {app app' : StarknetApp S}
    (hh : app.hasher.poisoned = false) (hs : app.starknetState.poisoned = true) :
    (deliverTx L request).run app ≠ .ok r app' := by
  obtain ⟨tx, address, tail, hp, ht, htail, hf⟩ := callOf_eq_some.mp hc
  have hs' : (app.hashed tx).starknetState.poisoned = true := hs
  intro h
  rw [run_deliverTx_passed hp hh, ht, deliver, runInvokeTx] at h
  simp only [EStateM.run_bind, htail, run_lift_ok, hf, run_withState_poisoned _ hs',
    run_orThrow_none] at h
  cases h

theorem stateAfter_cons {request : Bytes} {txs : List Bytes} {r : ResponseDeliverTx}
    {app app' : StarknetApp S} (h : (deliverTx L request).run app = .ok r app') :
    stateAfter L app (request :: txs) = stateAfter L app' txs := by
  simp only [stateAfter, deliverTxs, List.mapM_cons, EStateM.run_bind, h]
  cases (List.mapM (deliverTx L) txs).run app' <;> rfl

theorem sequential_iff_readOnly {txs : List Bytes} {calls : List Call} {app : StarknetApp S}
    (hcalls : txs.map (callOf L) = calls.map some) (hh : app.hasher.poisoned = false)
    (hs : app.starknetState.poisoned = false) (hx : Executed L calls app.starknetState.data) :
    (∀ j ≤ calls.length, ∃ infos, (List.mapM (Call.run L) (calls.take j)).run
      app.starknetState.data = .ok infos (stateAfter L app (txs.take j))) ↔
    ReadOnly L calls app.starknetState.data := by
  induction calls generalizing txs app with
  | nil =>
    rw [List.map_nil, List.map_eq_nil_iff] at hcalls
    subst hcalls
    simp [ReadOnly, stateAfter, deliverTxs]
  | cons call calls ih =>
    cases txs with
    | nil => cases hcalls
    | cons request txs =>
      rw [List.map_cons, List.map_cons, List.cons.injEq] at hcalls
      obtain ⟨info, t, hd, hx⟩ := hx
      obtain ⟨tx, app₁, hrun, hh₁, hs₁⟩ := deliverTx_call hcalls.1 hh hs hd
      obtain ⟨classHash, t', hlook, hexec, hstep⟩ := execution_of_delivered hd
      have hrest := ih hcalls.2 hh₁ (by rw [hs₁]) (by rw [hs₁]; exact hx)
      rw [hs₁] at hrest
      have hone : stateAfter L app [request] = t := by
        rw [stateAfter_cons hrun]
        exact congrArg Mutex.data hs₁
      rw [readOnly_cons hlook hexec, ← hrest]
      constructor
      · intro h
        obtain ⟨infos, hfirst⟩ := h 1 (by simp)
        obtain ⟨info', hcall, -⟩ := run_mapM_singleton.mp hfirst
        rw [hstep] at hcall
        injection hcall with _ hfinal
        refine ⟨hfinal.trans hone, fun j hj => ?_⟩
        obtain ⟨infos, hmap⟩ := h (j + 1) (by simpa using hj)
        obtain ⟨info', infos', u, hcall, hmap, -⟩ := run_mapM_cons.mp hmap
        rw [hstep] at hcall
        injection hcall with _ hu
        rw [← hu, hfinal.trans hone, List.take_succ_cons, stateAfter_cons hrun] at hmap
        exact ⟨infos', hmap⟩
      · rintro ⟨rfl, h⟩ j hj
        cases j with
        | zero => exact ⟨[], run_mapM_nil⟩
        | succ j =>
          obtain ⟨infos, hmap⟩ := h j (by simpa using hj)
          rw [← stateAfter_cons hrun] at hmap
          exact ⟨info :: infos, run_mapM_cons.mpr ⟨info, infos, _, hstep, hmap, rfl⟩⟩

theorem invokes_sequential_iff {app app' : StarknetApp S} (hr : Reachable L app)
    {txs : List Bytes} {calls : List Call} {rs : List ResponseDeliverTx}
    (hcalls : txs.map (callOf L) = calls.map some)
    (hrun : (deliverTxs L txs).run app = .ok rs app')
    (hx : Executed L calls app.starknetState.data) :
    (∀ j ≤ calls.length, ∃ infos, (List.mapM (Call.run L) (calls.take j)).run
      app.starknetState.data = .ok infos (stateAfter L app (txs.take j))) ↔
    ReadOnly L calls app.starknetState.data := by
  have hh := hr.running.hasher
  cases hs : app.starknetState.poisoned with
  | false => exact sequential_iff_readOnly hcalls hh hs hx
  | true =>
    cases txs with
    | nil =>
      have hnil : calls = [] := List.map_eq_nil_iff.mp hcalls.symm
      subst hnil
      simp [ReadOnly, stateAfter, deliverTxs]
    | cons request txs =>
      cases calls with
      | nil => cases hcalls
      | cons call calls =>
        obtain ⟨r, rs', app₁, htx, -, -⟩ := run_mapM_cons.mp hrun
        exact absurd htx (deliverTx_call_poisoned (List.cons.inj hcalls).1 hh hs)

namespace Reference

def counterCall : Call := ⟨6, "f", none⟩

theorem deployedApp_reachable : Reachable starknet deployedApp :=
  ((Reachable.new new_missing).deliverTx run_declaredApp).deliverTx run_deployedApp

theorem callOf_call : callOf starknet (request call) = some counterCall :=
  callOf_eq_some.mpr ⟨call, "0x06", "06", passed_call, rfl, rfl, rfl⟩

theorem run_lookup : (lookup starknet 6).run deployedCache = .ok (feltToHash 5) deployedCache := by
  have ha : deployedCache.contracts 6 = some (feltToHash 5) := by
    simp [deployedCache, Cache.deploy]
  have hc : deployedCache.classes (feltToHash 5) = some 5 := by
    simp [deployedCache, Cache.deploy, Cache.declare]
  change (getClassHashAt 6 >>= fun classHash => getContractClass classHash >>= fun _ =>
    pure classHash).run deployedCache = _
  simp only [EStateM.run_bind, run_getClassHashAt, ha, run_getContractClass, hc, EStateM.run_pure]

theorem run_counterCall : (counterCall.run starknet).run deployedCache =
    .ok 0 { deployedCache with counter := 1 } := by
  have hlook : (lookup starknet counterCall.contractAddress).run deployedCache = _ := run_lookup
  simp only [Call.run, EStateM.run_bind, hlook]
  rfl

theorem delivered_counterCall :
    (counterCall.delivered starknet).run deployedCache = .ok (.ok 0) deployedCache :=
  run_delivered_ok.mpr ⟨feltToHash 5, run_lookup, rfl⟩

theorem calls_counterCall : [request call].map (callOf starknet) = [counterCall].map some :=
  congrArg (fun call => [call]) callOf_call

theorem executed_counterCall : Executed starknet [counterCall] deployedCache :=
  ⟨0, deployedCache, delivered_counterCall, trivial⟩

theorem run_call : ∃ tx app', (deliverTxs starknet [request call]).run deployedApp =
    .ok [accepted tx] app' ∧ app'.starknetState.data = deployedCache := by
  have hx : (counterCall.delivered starknet).run deployedApp.starknetState.data = _ :=
    delivered_counterCall
  obtain ⟨tx, app', hrun, -, hs⟩ := deliverTx_call callOf_call rfl rfl hx
  exact ⟨tx, app', run_mapM_singleton.mpr ⟨_, hrun, rfl⟩, congrArg Mutex.data hs⟩

end Reference

theorem invokes_sequential_iff_counter :
    (∀ j ≤ 1, ∃ infos,
      (List.mapM (Call.run Reference.starknet) ([Reference.counterCall].take j)).run
        Reference.deployedCache = .ok infos (stateAfter Reference.starknet Reference.deployedApp
          ([Reference.request Reference.call].take j))) ↔
    ReadOnly Reference.starknet [Reference.counterCall] Reference.deployedCache := by
  obtain ⟨tx, app', hrun, -⟩ := Reference.run_call
  exact invokes_sequential_iff Reference.deployedApp_reachable
    Reference.calls_counterCall hrun Reference.executed_counterCall

theorem invoke_write_lost :
    Reachable Reference.starknet Reference.deployedApp ∧
    callOf Reference.starknet (Reference.request Reference.call) = some Reference.counterCall ∧
    Executed Reference.starknet [Reference.counterCall] Reference.deployedApp.starknetState.data ∧
    ∃ rs app',
      (deliverTxs Reference.starknet [Reference.request Reference.call]).run
        Reference.deployedApp = .ok rs app' ∧
      ¬ ∃ infos, (List.mapM (Call.run Reference.starknet) [Reference.counterCall]).run
        Reference.deployedApp.starknetState.data = .ok infos app'.starknetState.data := by
  obtain ⟨tx, app', hrun, hs⟩ := Reference.run_call
  refine ⟨Reference.deployedApp_reachable, Reference.callOf_call,
    Reference.executed_counterCall, _, app', hrun, ?_⟩
  rintro ⟨infos, h⟩
  obtain ⟨info, h, -⟩ := run_mapM_singleton.mp h
  rw [hs] at h
  have hcount := congrArg (fun s => (final s).counter) (Reference.run_counterCall.symm.trans h)
  change 1 = 0 at hcount
  omega

end Sequencer
