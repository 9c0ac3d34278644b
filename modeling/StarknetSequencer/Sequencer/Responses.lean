import StarknetSequencer.Sequencer.Invocations

namespace Sequencer

open Wire Effect StarknetApp

variable {C S I : Type} (L : Starknet C S I)

-- the state operation of a transaction is carried out on `s` and answers `Ok`
inductive Succeeds : TransactionType → S → Prop
  | declare {program : String} {felt : Felt252} {contractClass : C} {s t : S} :
    declared L program = some (felt, contractClass) →
    (L.setContractClass (L.feltToHash felt) contractClass).run s = .ok () t →
    Succeeds (.declare program) s
  | deployAccount {classHash : String} {salt : Int32} {inputs : Option (List Int32)}
    {address : Felt252} {hash : ClassHash} {s t : S} :
    deployed L classHash salt inputs = some address →
    L.stringToHash classHash = some hash →
    (L.deployContract address hash).run s = .ok () t →
    Succeeds (.deployAccount classHash salt inputs) s
  | invoke {address function : String} {inputs : Option (List Int32)}
    {contractAddress : Felt252} {info : I} {s t : S} :
    parseTail L address = some contractAddress →
    (executeInvoke L contractAddress function inputs).run s = .ok (.ok info) t →
    Succeeds (.invoke address function inputs) s

structure Truthful (app : StarknetApp S) (request : Bytes) (r : ResponseDeliverTx)
    (app' : StarknetApp S) : Prop where
  code_zero : r.code = 0 ↔ ∃ tx, passed L request = some tx ∧
    app.starknetState.poisoned = false ∧ Succeeds L tx.transactionType app.starknetState.data
  unchanged : r.code ≠ 0 → app'.hasher = app.hasher ∧ app'.starknetState = app.starknetState

def Executable (app : StarknetApp S) : TransactionType → Prop
  | .declare _ => True
  | .deployAccount classHash salt inputs => app.starknetState.poisoned = false ∧
    ∃ address, deployed L classHash salt inputs = some address ∧ address ≠ 0 ∧
      L.Vacant app.starknetState.data address
  | .invoke address function inputs => ∃ contractAddress classHash info s,
    parseTail L address = some contractAddress ∧
    (lookup L contractAddress).run app.starknetState.data = .ok classHash s ∧
    value ((L.execute (entryPoint L contractAddress function inputs classHash)
      (executionContext L)).run s) = .ok info

variable {L}

theorem parseTail_eq_some {address : String} {felt : Felt252} :
    parseTail L address = some felt ↔
      ∃ tail, sliceFrom 2 address = .ok tail ∧ L.fromStrRadix16 tail = .ok felt := by
  simp only [parseTail, Option.bind_eq_some_iff, toOption_eq_some]

theorem healthy_of_declare {program : String} {app app' : StarknetApp S}
    (h : (deliver L (.declare program)).run app = .ok () app') :
    app.starknetState.poisoned = false := by
  by_contra hs
  rw [Bool.not_eq_false] at hs
  rw [deliver, deliverDeclare] at h
  obtain ⟨contractClass, app₁, hclass, hrest⟩ := run_bind_ok.mp h
  obtain ⟨felt, app₂, hfelt, hput⟩ := run_bind_ok.mp hrest
  obtain ⟨done, app₃, hset, hdone⟩ := run_bind_ok.mp hput
  obtain ⟨-, rfl⟩ := run_orThrow_eq_ok.mp hclass
  obtain ⟨-, rfl⟩ := run_lift_eq_ok.mp hfelt
  cases (run_withState_poisoned _ hs).symm.trans hset
  cases hdone

theorem healthy_of_invoke {address function : String} {inputs : Option (List Int32)}
    {felt : Felt252} {app app' : StarknetApp S} (hf : parseTail L address = some felt)
    (h : (deliver L (.invoke address function inputs)).run app = .ok () app') :
    app.starknetState.poisoned = false := by
  by_contra hs
  rw [Bool.not_eq_false] at hs
  obtain ⟨tail, htail, hfelt⟩ := parseTail_eq_some.mp hf
  simp only [deliver, runInvokeTx, htail, hfelt, EStateM.run_bind, run_lift_ok,
    run_withState_poisoned _ hs, run_orThrow_none] at h
  cases h

section StateLaws

variable (hL : L.StateLaws)

include hL

theorem deployContract_ok_iff {address : Felt252} {hash : ClassHash} {s : S} :
    (∃ t, (L.deployContract address hash).run s = .ok () t) ↔
      address ≠ 0 ∧ L.Vacant s address := by
  constructor
  · rintro ⟨t, ht⟩
    by_contra hfree
    obtain ⟨e, u, hu, -⟩ := hL.deployContract_taken address hash s hfree
    cases ht.symm.trans hu
  · rintro ⟨ha, hv⟩
    obtain ⟨t, ht, -⟩ := hL.deployContract_free address hash s ha hv
    exact ⟨t, ht⟩

theorem succeeds_iff {request : Bytes} {tx : Transaction} {app app' : StarknetApp S}
    {r : ResponseDeliverTx} (hp : passed L request = some tx)
    (h : (deliverTx L request).run app = .ok r app') :
    (app.starknetState.poisoned = false ∧ Succeeds L tx.transactionType app.starknetState.data) ↔
      Executable L app tx.transactionType := by
  obtain ⟨-, app₁, happ, hd⟩ := deliver_of_passed hp h
  obtain ⟨-, hc⟩ := passed_iff.mp hp
  rw [← happ]
  cases ht : tx.transactionType with
  | declare program =>
    rw [ht] at hd hc
    obtain ⟨felt, c, hprogram, -⟩ := computeAndHash_declare.mp hc
    obtain ⟨t, hset, -⟩ := hL.setContractClass_ok (L.feltToHash felt) c app₁.starknetState.data
    exact iff_of_true ⟨healthy_of_declare hd, .declare hprogram hset⟩ trivial
  | deployAccount classHash salt inputs =>
    rw [ht] at hd hc
    obtain ⟨address, haddress, -⟩ := computeAndHash_deployAccount.mp hc
    rw [Executable, ← happ]
    constructor
    · rintro ⟨hs, hop⟩
      cases hop with
      | deployAccount ha hhash hput =>
        obtain ⟨hne, hv⟩ := (deployContract_ok_iff hL).mp ⟨_, hput⟩
        exact ⟨hs, _, ha, hne, hv⟩
    · rintro ⟨hs, address', ha, hne, hv⟩
      obtain ⟨t, hD, -⟩ := (deliverDeployAccount_iff haddress hs).mp hd
      cases hD with
      | deployAccount ha' hhash hx =>
        obtain ⟨t, ht'⟩ := (deployContract_ok_iff hL).mpr ⟨hne, hv⟩
        exact ⟨hs, .deployAccount ha hhash ht'⟩
  | invoke address function inputs =>
    rw [ht] at hd
    rw [Executable, ← happ]
    constructor
    · rintro ⟨hs, hop⟩
      cases hop with
      | @invoke _ _ _ contractAddress info _ t hf hx =>
        have hcall : (Call.delivered L ⟨contractAddress, function, inputs⟩).run
            app₁.starknetState.data = .ok (.ok info) t := hx
        obtain ⟨classHash, hlook, hinfo⟩ := run_delivered_ok.mp hcall
        exact ⟨contractAddress, classHash, info, t, hf, hlook, hinfo⟩
    · rintro ⟨contractAddress, classHash, info, s, hf, hlook, hinfo⟩
      have hx : (Call.delivered L ⟨contractAddress, function, inputs⟩).run
          app₁.starknetState.data = .ok (.ok info) s :=
        run_delivered_ok.mpr ⟨classHash, hlook, hinfo⟩
      exact ⟨healthy_of_invoke hf hd, .invoke hf hx⟩

theorem response_truthful_iff {app app' : StarknetApp S} {request : Bytes}
    {r : ResponseDeliverTx} (h : (deliverTx L request).run app = .ok r app') :
    Truthful L app request r app' ↔
      ∀ tx, passed L request = some tx → Executable L app tx.transactionType := by
  constructor
  · rintro ⟨hcode, -⟩ tx hp
    have hzero := (deliverTx_code_zero h).mpr ⟨tx, hp, (deliver_of_passed hp h).1⟩
    obtain ⟨tx', hp', hs⟩ := hcode.mp hzero
    cases hp.symm.trans hp'
    exact (succeeds_iff hL hp h).mp hs
  · intro hexec
    constructor
    · constructor
      · intro hzero
        obtain ⟨tx, hp, -⟩ := (deliverTx_code_zero h).mp hzero
        exact ⟨tx, hp, (succeeds_iff hL hp h).mpr (hexec tx hp)⟩
      · rintro ⟨tx, hp, -⟩
        exact (deliverTx_code_zero h).mpr ⟨tx, hp, (deliver_of_passed hp h).1⟩
    · intro hne
      cases hp : passed L request with
      | none =>
        obtain ⟨rfl, -⟩ := deliverTx_not_passed hp h
        exact ⟨rfl, rfl⟩
      | some tx => exact absurd ((deliverTx_code_zero h).mpr ⟨tx, hp, (deliver_of_passed hp h).1⟩) hne

end StateLaws

theorem response_truthful_iff_stray :
    Truthful Reference.starknet (fresh Reference.starknet) (Reference.request Reference.stray)
        (accepted Reference.stray) ((fresh Reference.starknet).hashed Reference.stray) ↔
      ∀ tx, passed Reference.starknet (Reference.request Reference.stray) = some tx →
        Executable Reference.starknet (fresh Reference.starknet) tx.transactionType :=
  response_truthful_iff Reference.stateLaws (Reference.run_stray rfl)

-- an Invoke whose address is no number runs nothing, is only logged and answers 0
theorem failed_call_answers_zero :
    Reachable Reference.starknet (fresh Reference.starknet) ∧
    (deliverTx Reference.starknet (Reference.request Reference.stray)).run
      (fresh Reference.starknet) =
        .ok (accepted Reference.stray) ((fresh Reference.starknet).hashed Reference.stray) ∧
    (accepted Reference.stray).code = 0 ∧
    ¬ Truthful Reference.starknet (fresh Reference.starknet) (Reference.request Reference.stray)
      (accepted Reference.stray) ((fresh Reference.starknet).hashed Reference.stray) := by
  refine ⟨.new new_missing, Reference.run_stray rfl, rfl, ?_⟩
  intro h
  obtain ⟨tx, hp, -, hs⟩ := h.code_zero.mp rfl
  cases Reference.passed_stray.symm.trans hp
  have hnone : parseTail Reference.starknet "0xzz" = none := rfl
  cases hs with
  | invoke hf hx => cases hnone.symm.trans hf

end Sequencer
