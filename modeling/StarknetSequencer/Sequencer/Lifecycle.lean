import StarknetSequencer.Sequencer.Admission

namespace Sequencer

open Wire Effect StarknetApp

variable {C S I : Type} {L : Starknet C S I}

def handleAll (L : Starknet C S I) (requests : List Request) : Hook S (List Response) :=
  requests.mapM (Request.handle L)

theorem withType_ok {t : TransactionType} {uuid : String} {tx : Transaction} :
    Transaction.withType L t uuid = .ok (.ok tx) ↔
      t.computeAndHash L = .ok (.ok tx.transactionHash) ∧ tx.transactionType = t ∧ tx.id = uuid := by
  rw [Transaction.withType]
  cases hc : t.computeAndHash L with
  | error p => simp [Except.map]
  | ok result =>
    cases result with
    | error e => simp [Except.map]
    | ok hash =>
      simp only [Except.map, Except.ok.injEq]
      constructor
      · rintro rfl
        exact ⟨rfl, rfl, rfl⟩
      · rintro ⟨rfl, rfl, rfl⟩
        rfl

theorem sliceFrom_prefixed (s : String) : sliceFrom 2 ("0x" ++ s) = .ok s := by
  have hd : dropBytes 2 ("0x".toList ++ s.toList) = some s.toList := by
    change dropBytes 2 ('0' :: 'x' :: s.toList) = some s.toList
    cases s.toList <;> rfl
  rw [sliceFrom, String.toList_append, hd]
  exact congrArg Except.ok String.ofList_toList

theorem mapError_ne {result : Except String I} (address : String) :
    (result.mapError fun _ => "Error running Invoke Tx") ≠
        .error ("Could not parse address: " ++ address) ∧
      (result.mapError fun _ => "Error running Invoke Tx") ≠
        .error "No contract class found for contract address (Contract not deployed)" := by
  cases result with
  | ok info => simp [Except.mapError]
  | error e =>
    simp only [Except.mapError, ne_eq, Except.error.injEq]
    refine ⟨fun h => ?_, by decide⟩
    have hl := congrArg String.toList h
    rw [String.toList_append] at hl
    cases hl

section FeltLaws

variable (hF : L.FeltLaws)

include hF

theorem parseTail_hashOf (felt : Felt252) : parseTail L (hashOf L felt) = some felt := by
  rw [parseTail, hashOf, sliceFrom_prefixed]
  change (L.fromStrRadix16 (hexEncode (L.toBytesBe felt))).toOption = some felt
  rw [hF.fromStrRadix16_hexEncode felt]
  rfl

theorem stringToHash_hashOf (felt : Felt252) :
    L.stringToHash (hashOf L felt) = some (L.feltToHash felt) := by
  rw [hashOf, hF.stringToHash_prefixed, hF.fromStrRadix16_hexEncode felt]
  rfl

end FeltLaws

section StateLaws

variable (hL : L.StateLaws)

include hL

theorem handle_extends {request : Request} {r : Response} {app app' : StarknetApp S}
    (hh : app.Healthy) (hr : app.Running) (h : (request.handle L).run app = .ok r app') :
    app'.Healthy ∧ app'.Running ∧
      Ledger.Extends (L.ledger app.starknetState.data) (L.ledger app'.starknetState.data) := by
  have hr' := handle_running (L := L) request hr
  rw [h, final_ok] at hr'
  by_cases hd : ∃ tx, request = .deliverTx tx
  · obtain ⟨tx, rfl⟩ := hd
    rw [Request.handle, run_map] at h
    split at h
    · rename_i r' app₁ hrun
      cases h
      obtain ⟨hh', -, hc⟩ := deliverTx_ok hL hh hrun
      have hext := Chain.deliverAll_extends (L := L) (app.chain L) [tx]
      change Ledger.Extends _ ((app.chain L).deliver L tx).ledger at hext
      rw [← hc] at hext
      exact ⟨hh', hr', hext⟩
    · cases h
  · have hs := handle_starknetState (L := L) hr fun tx htx => hd ⟨tx, htx⟩
    rw [h, final_ok] at hs
    rw [hs]
    exact ⟨⟨hr'.hasher, by rw [hs]; exact hh.starknetState⟩, hr', Ledger.Extends.refl _⟩

theorem handleAll_extends {requests : List Request} {rs : List Response}
    {app app' : StarknetApp S} (hh : app.Healthy) (hr : app.Running)
    (h : (handleAll L requests).run app = .ok rs app') :
    app'.Healthy ∧ app'.Running ∧
      Ledger.Extends (L.ledger app.starknetState.data) (L.ledger app'.starknetState.data) := by
  induction requests generalizing app rs with
  | nil =>
    cases run_mapM_nil.symm.trans h
    exact ⟨hh, hr, Ledger.Extends.refl _⟩
  | cons request requests ih =>
    obtain ⟨r, rs', app₁, hfirst, hrest, -⟩ := run_mapM_cons.mp h
    obtain ⟨hh₁, hr₁, he₁⟩ := handle_extends hL hh hr hfirst
    obtain ⟨hh', hr', he'⟩ := ih hh₁ hr₁ hrest
    exact ⟨hh', hr', he₁.trans he'⟩

theorem deliverTx_extends {request : Bytes} {tx : Transaction} {r : ResponseDeliverTx}
    {app app' : StarknetApp S} (hp : passed L request = some tx) (hh : app.Healthy)
    (hr : app.Running) (h : (deliverTx L request).run app = .ok r app') :
    app'.Healthy ∧ app'.Running ∧ L.ledger app'.starknetState.data =
      effect L tx.transactionType (L.ledger app.starknetState.data) := by
  obtain ⟨hh', -, hc⟩ := deliverTx_ok hL hh h
  have hr' := handle_running (L := L) (.deliverTx request) hr
  rw [Request.handle, final_map, h, final_ok] at hr'
  rw [Chain.deliver_passed hp] at hc
  exact ⟨hh', hr', congrArg Chain.ledger hc⟩

theorem runInvokeTx_deployed (hF : L.FeltLaws) {address : Felt252} {hash : ClassHash}
    {contractClass : C} {app : StarknetApp S} (hh : app.Healthy)
    (ha : L.classHashAt app.starknetState.data address = .ok hash)
    (hc : L.classAt app.starknetState.data hash = .ok contractClass) (function : String)
    (inputs : Option (List Int32)) :
    ∃ s, L.Same app.starknetState.data s ∧
      (runInvokeTx L (hashOf L address) function inputs).run app =
        .ok ((value ((L.execute (entryPoint L address function inputs hash)
          (executionContext L)).run s)).mapError fun _ => "Error running Invoke Tx")
          { app with starknetState := ⟨s, false⟩ } := by
  have hlook := hL.getClassHashAt_same address app.starknetState.data
  rw [Starknet.classHashAt] at ha
  cases hr : (L.getClassHashAt address).run app.starknetState.data with
  | error e t =>
    rw [hr] at ha
    cases ha
  | ok hash' t =>
    rw [hr] at ha hlook
    cases ha
    have hclass := hL.getContractClass_same hash t
    have hvalue : value ((L.getContractClass hash).run t) = .ok contractClass := by
      rw [← hc, ← hlook.classes]
      rfl
    refine ⟨_, hlook.trans hclass, ?_⟩
    rw [hashOf, run_runInvokeTx (sliceFrom_prefixed _) hh.starknetState, hF.fromStrRadix16_hexEncode]
    simp only [run_executeInvoke, hr, hvalue]

theorem declare_deploy_invoke (hF : L.FeltLaws) {heightFile : Option Bytes}
    {app app₁ app₂ app₃ app₄ app₅ : StarknetApp S} {before between after : List Request}
    {rs rs' rs'' : List Response} {r r' : ResponseDeliverTx} {request request' : Bytes}
    {program uuid uuid' : String} {salt : Int32} {inputs : Option (List Int32)}
    {tx tx' : Transaction} {c : Felt252} {contractClass : C} {address : Felt252}
    (hnew : StarknetApp.new L heightFile = .ok app)
    (hbefore : (handleAll L before).run app = .ok rs app₁)
    (hprogram : declared L program = some (c, contractClass)) (hc : c ≠ 0)
    (htx : Transaction.withType L (.declare program) uuid = .ok (.ok tx))
    (hrequest : transactionCodec.deserialize request = some tx)
    (hdeclare : (deliverTx L request).run app₁ = .ok r app₂)
    (hbetween : (handleAll L between).run app₂ = .ok rs' app₃)
    (htx' : Transaction.withType L (.deployAccount tx.transactionHash salt inputs) uuid' =
      .ok (.ok tx'))
    (hrequest' : transactionCodec.deserialize request' = some tx')
    (haddress : deployed L tx.transactionHash salt inputs = some address) (ha : address ≠ 0)
    (hvacant : L.Vacant app₃.starknetState.data address)
    (hdeploy : (deliverTx L request').run app₃ = .ok r' app₄)
    (hafter : (handleAll L after).run app₄ = .ok rs'' app₅)
    (function : String) (calldata : Option (List Int32)) :
    L.classAt app₂.starknetState.data (L.feltToHash c) = .ok contractClass ∧
    parseTail L tx'.transactionHash = some address ∧
    L.classHashAt app₅.starknetState.data address = .ok (L.feltToHash c) ∧
    ∃ result app₆, (runInvokeTx L tx'.transactionHash function calldata).run app₅ =
        .ok result app₆ ∧
      result = ((value ((L.execute (entryPoint L address function calldata (L.feltToHash c))
        (executionContext L)).run app₆.starknetState.data)).mapError
          fun _ => "Error running Invoke Tx") ∧
      result ≠ .error ("Could not parse address: " ++ tx'.transactionHash) ∧
      result ≠ .error "No contract class found for contract address (Contract not deployed)" := by
  obtain ⟨hcompute, htype, -⟩ := withType_ok.mp htx
  obtain ⟨hcompute', htype', -⟩ := withType_ok.mp htx'
  obtain ⟨felt, class', hd, hhash⟩ := computeAndHash_declare.mp hcompute
  cases hprogram.symm.trans hd
  obtain ⟨address', hd', hhash'⟩ := computeAndHash_deployAccount.mp hcompute'
  cases haddress.symm.trans hd'
  have hp : passed L request = some tx := passed_iff.mpr ⟨hrequest, by rw [htype, hcompute]⟩
  have hp' : passed L request' = some tx' := passed_iff.mpr ⟨hrequest', by rw [htype', hcompute']⟩
  obtain ⟨hh₁, hr₁, -⟩ := handleAll_extends hL (new_healthy hnew) (new_running hnew) hbefore
  obtain ⟨hh₂, hr₂, hl₂⟩ := deliverTx_extends hL hp hh₁ hr₁ hdeclare
  obtain ⟨hh₃, hr₃, he₃⟩ := handleAll_extends hL hh₂ hr₂ hbetween
  obtain ⟨hh₄, hr₄, hl₄⟩ := deliverTx_extends hL hp' hh₃ hr₃ hdeploy
  obtain ⟨hh₅, -, he₅⟩ := handleAll_extends hL hh₄ hr₄ hafter
  rw [htype, effect, hprogram] at hl₂
  rw [htype', effect, haddress, hhash, stringToHash_hashOf hF] at hl₄
  have hstored : L.classAt app₂.starknetState.data (L.feltToHash c) = .ok contractClass := by
    change (L.ledger app₂.starknetState.data).classes (L.feltToHash c) = _
    rw [hl₂]
    exact Function.update_self ..
  have hbound : L.classHashAt app₄.starknetState.data address = .ok (L.feltToHash c) := by
    change (L.ledger app₄.starknetState.data).contracts address = _
    rw [hl₄]
    exact Ledger.deploy_free _ ha (Starknet.vacant_iff.mp hvacant)
  have hat : L.classHashAt app₅.starknetState.data address = .ok (L.feltToHash c) :=
    (he₅.contracts address ⟨_, hbound, hF.feltToHash_ne hc⟩).trans hbound
  have hkept := (he₃.trans (hl₄ ▸ Ledger.deploy_extends _ _ _)).trans he₅
  obtain ⟨stored, hclassAt⟩ := hkept.classes (L.feltToHash c) ⟨_, hstored⟩
  obtain ⟨s, -, hrun⟩ := runInvokeTx_deployed hL hF hh₅ hat hclassAt function calldata
  rw [hhash']
  exact ⟨hstored, parseTail_hashOf hF address, hat, _, _, hrun, rfl, mapError_ne _⟩

end StateLaws

theorem declare_deploy_invoke_counter :
    Reference.starknet.classAt Reference.declaredApp.starknetState.data
        (Reference.feltToHash 5) = .ok 5 ∧
    parseTail Reference.starknet Reference.deployment.transactionHash = some 6 ∧
    Reference.starknet.classHashAt Reference.deployedApp.starknetState.data 6 =
      .ok (Reference.feltToHash 5) ∧
    ∃ result app₆,
      (runInvokeTx Reference.starknet Reference.deployment.transactionHash "f" none).run
        Reference.deployedApp = .ok result app₆ ∧
      result = ((value ((Reference.execute
        (entryPoint Reference.starknet 6 "f" none (Reference.feltToHash 5))
        (executionContext Reference.starknet)).run app₆.starknetState.data)).mapError
          fun _ => "Error running Invoke Tx") ∧
      result ≠ .error ("Could not parse address: " ++ Reference.deployment.transactionHash) ∧
      result ≠ .error "No contract class found for contract address (Contract not deployed)" := by
  have hprogram : declared Reference.starknet "5" = some (5, 5) := rfl
  have htx : Transaction.withType Reference.starknet (.declare "5") "1" =
      .ok (.ok Reference.declaration) := rfl
  have htx' : Transaction.withType Reference.starknet (.deployAccount "0x05" 0 none) "1" =
      .ok (.ok Reference.deployment) := rfl
  have haddress : deployed Reference.starknet "0x05" 0 none = some 6 := rfl
  have hvacant : Reference.starknet.Vacant Reference.declaredApp.starknetState.data 6 :=
    (Reference.vacant_iff _ _).mpr rfl
  have hnone (app : StarknetApp Reference.Cache) :
      (handleAll Reference.starknet []).run app = .ok [] app := run_mapM_nil
  exact declare_deploy_invoke Reference.stateLaws Reference.feltLaws new_missing (hnone _)
    hprogram (by decide) htx (passed_iff.mp Reference.passed_declaration).1
    Reference.run_declaredApp (hnone _) htx' (passed_iff.mp Reference.passed_deployment).1
    haddress (by decide) hvacant Reference.run_deployedApp (hnone _) "f" none

end Sequencer
