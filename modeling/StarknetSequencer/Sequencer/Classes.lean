import StarknetSequencer.Sequencer.ClassHash

namespace Sequencer

open Wire Effect StarknetApp

variable {C S I : Type} (L : Starknet C S I)

def missingClass : String :=
  "No contract class found for contract address (Contract not deployed)"

def Bound (s : S) (address : Felt252) (hash : ClassHash) : Prop :=
  Adds L L.newState s address hash

def Stored (requests : List Bytes) (hash : ClassHash) : Prop :=
  ∃ request ∈ requests, ∃ tx program felt contractClass, passed L request = some tx ∧
    tx.transactionType = .declare program ∧ declared L program = some (felt, contractClass) ∧
    L.feltToHash felt = hash

structure ClassesDeclared (requests : List Bytes) (s : S) : Prop where
  stored : ∀ address hash, Bound L s address hash → Stored L requests hash
  found : ∀ address hash, Bound L s address hash → ∀ function inputs result t,
    (executeInvoke L address function inputs).run s = .ok result t → result ≠ .error missingClass

-- `deliver_tx` of `request` at `s` has `deploy_contract` bind `address` to `hash`
structure Binds (s : S) (request : Bytes) (address : Felt252) (hash : ClassHash) : Prop where
  deployment : ∃ tx classHash salt inputs, passed L request = some tx ∧
    tx.transactionType = .deployAccount classHash salt inputs ∧
    deployed L classHash salt inputs = some address ∧ L.stringToHash classHash = some hash
  nonzero : address ≠ 0
  vacant : L.Vacant s address

def NamesDeclared (requests : List Bytes) (s : S) (request : Bytes) : Prop :=
  ∀ address hash, Binds L s request address hash → L.classHashAt L.newState address ≠ .ok hash →
    Stored L requests hash

variable {L}

theorem Binds.not_stored {s : S} {request : Bytes} {address : Felt252} {hash hash' : ClassHash}
    (h : Binds L s request address hash) : ¬ Stored L [request] hash' := by
  obtain ⟨tx, classHash, salt, inputs, hp, ht, -⟩ := h.deployment
  rintro ⟨request', hr, tx', program, felt, c, hp', ht', -⟩
  cases List.mem_singleton.mp hr
  cases hp.symm.trans hp'
  cases ht.symm.trans ht'

theorem stored_append {done rest : List Bytes} {hash : ClassHash} :
    Stored L (done ++ rest) hash ↔ Stored L done hash ∨ Stored L rest hash := by
  simp only [Stored, List.mem_append]
  constructor
  · rintro ⟨request, hr | hr, h⟩
    · exact .inl ⟨request, hr, h⟩
    · exact .inr ⟨request, hr, h⟩
  · rintro (⟨request, hr, h⟩ | ⟨request, hr, h⟩)
    · exact ⟨request, .inl hr, h⟩
    · exact ⟨request, .inr hr, h⟩

theorem classes_declare {l : Ledger C} {hash hash' : ClassHash} {c : C} :
    Present ((l.declare hash c).classes hash') ↔ Present (l.classes hash') ∨ hash = hash' := by
  rcases eq_or_ne hash' hash with rfl | hne
  · simp [Ledger.declare_present]
  · simp [Ledger.declare, Function.update_of_ne hne, hne.symm]

theorem classes_effect {request : Bytes} {tx : Transaction} (hp : passed L request = some tx)
    {l : Ledger C} {hash : ClassHash} :
    Present ((effect L tx.transactionType l).classes hash) ↔
      Present (l.classes hash) ∨ Stored L [request] hash := by
  have hone : Stored L [request] hash ↔ ∃ program felt c, tx.transactionType = .declare program ∧
      declared L program = some (felt, c) ∧ L.feltToHash felt = hash := by
    simp [Stored, hp]
  rw [hone]
  cases ht : tx.transactionType with
  | declare program =>
    obtain ⟨-, hc⟩ := passed_iff.mp hp
    rw [ht] at hc
    obtain ⟨felt, c, hd, -⟩ := computeAndHash_declare.mp hc
    simp only [effect, hd, classes_declare]
    simp [hd]
  | deployAccount classHash salt inputs =>
    have hkeep : (effect L (.deployAccount classHash salt inputs) l).classes = l.classes := by
      rw [effect]
      split
      · rw [Ledger.deploy]
        split <;> rfl
      · rfl
    simp [hkeep]
  | invoke address function inputs => simp [effect]

section StateLaws

variable (hL : L.StateLaws)

include hL

theorem deliverTx_classes {request : Bytes} {r : ResponseDeliverTx} {app app' : StarknetApp S}
    (hh : app.Healthy) (h : (deliverTx L request).run app = .ok r app') {hash : ClassHash} :
    Present (L.classAt app'.starknetState.data hash) ↔
      Present (L.classAt app.starknetState.data hash) ∨ Stored L [request] hash := by
  obtain ⟨-, -, hc⟩ := deliverTx_ok hL hh h
  have hclasses : L.classAt app'.starknetState.data =
      ((app.chain L).deliver L request).ledger.classes :=
    congrArg (fun chain => chain.ledger.classes) hc
  rw [hclasses]
  cases hp : passed L request with
  | none =>
    rw [Chain.deliver_not_passed hp]
    simp [Stored, hp, StarknetApp.chain, Starknet.ledger]
  | some tx =>
    rw [Chain.deliver_passed hp]
    exact classes_effect hp

theorem deliverTx_contracts {request : Bytes} {r : ResponseDeliverTx} {app app' : StarknetApp S}
    (hh : app.Healthy) (h : (deliverTx L request).run app = .ok r app') :
    (L.classHashAt app'.starknetState.data = L.classHashAt app.starknetState.data) ∨
      ∃ address hash, Binds L app.starknetState.data request address hash ∧
        L.classHashAt app'.starknetState.data =
          Function.update (L.classHashAt app.starknetState.data) address (.ok hash) := by
  cases hp : passed L request with
  | none =>
    obtain ⟨rfl, -⟩ := deliverTx_not_passed hp h
    exact .inl rfl
  | some tx =>
    obtain ⟨-, app₁, happ, hd⟩ := deliver_of_passed hp h
    rw [← happ]
    have hs : app₁.starknetState.poisoned = false := by
      rw [happ]
      exact hh.starknetState
    obtain ⟨t, hD, rfl⟩ := (deliver_iff hp hs).mp hd
    rcases delivers_contracts hL hD with hat | ⟨_, _, _, address, hash, ht, hd, hstring, hne, hv, hat⟩
    · exact .inl hat
    · exact .inr ⟨address, hash, ⟨⟨tx, _, _, _, hp, ht, hd, hstring⟩, hne, hv⟩, hat⟩

theorem deliverTx_binds {request : Bytes} {r : ResponseDeliverTx} {app app' : StarknetApp S}
    {address : Felt252} {hash : ClassHash} (hh : app.Healthy)
    (hb : Binds L app.starknetState.data request address hash)
    (h : (deliverTx L request).run app = .ok r app') :
    L.classHashAt app'.starknetState.data address = .ok hash := by
  obtain ⟨tx, classHash, salt, inputs, hp, ht, hd, hs⟩ := hb.deployment
  obtain ⟨-, app₁, happ, hrun⟩ := deliver_of_passed hp h
  rw [ht] at hrun
  have hs₁ : app₁.starknetState.poisoned = false := by
    rw [happ]
    exact hh.starknetState
  obtain ⟨t, hD, rfl⟩ := (deliverDeployAccount_iff hd hs₁).mp hrun
  cases hD with
  | deployAccount hd' hs' hx =>
    cases hd.symm.trans hd'
    cases hs.symm.trans hs'
    rw [happ]
    obtain ⟨u, hu, hat, -⟩ :=
      hL.deployContract_free address hash app.starknetState.data hb.nonzero hb.vacant
    rw [hu, final_ok, hat, Function.update_self]

theorem executeInvoke_found {address : Felt252} {hash : ClassHash} {c : C} {s t : S}
    (ha : L.classHashAt s address = .ok hash) (hc : L.classAt s hash = .ok c) {function : String}
    {inputs : Option (List Int32)} {result : Except String I}
    (h : (executeInvoke L address function inputs).run s = .ok result t) :
    result ≠ .error missingClass := by
  have hlook := hL.getClassHashAt_same address s
  rw [Starknet.classHashAt] at ha
  cases hr : (L.getClassHashAt address).run s with
  | error e u =>
    rw [hr] at ha
    cases ha
  | ok hash' u =>
    rw [hr] at ha hlook
    cases ha
    have hvalue : value ((L.getContractClass hash).run u) = .ok c := by
      rw [← hc, ← hlook.classes]
      rfl
    simp only [run_executeInvoke, hr, hvalue] at h
    injection h with h
    rw [← h]
    exact (mapError_ne "").2

theorem deliverTxs_classes {requests : List Bytes} {rs : List ResponseDeliverTx}
    {app app' : StarknetApp S} (hh : app.Healthy)
    (h : (deliverTxs L requests).run app = .ok rs app') {hash : ClassHash} :
    Present (L.classAt app'.starknetState.data hash) ↔
      Present (L.classAt app.starknetState.data hash) ∨ Stored L requests hash := by
  induction requests generalizing app rs with
  | nil =>
    cases run_mapM_nil.symm.trans h
    simp [Stored]
  | cons request requests ih =>
    obtain ⟨r, rs', app₁, hfirst, hrest, -⟩ := run_mapM_cons.mp h
    rw [ih (deliverTx_ok hL hh hfirst).1 hrest, deliverTx_classes hL hh hfirst, or_assoc,
      ← stored_append, List.singleton_append]

theorem stored_iff {heightFile : Option Bytes} {app app' : StarknetApp S} {requests : List Bytes}
    {rs : List ResponseDeliverTx} (hnew : StarknetApp.new L heightFile = .ok app)
    (h : (deliverTxs L requests).run app = .ok rs app') {hash : ClassHash} :
    (∃ c, L.classAt app'.starknetState.data hash = .ok c) ↔ Stored L requests hash := by
  have hempty : ¬ Present (L.classAt app.starknetState.data hash) := by
    obtain ⟨file, rfl⟩ := new_fresh hnew
    exact Starknet.new_class_not_present hL hash
  have hclasses : Present (L.classAt app'.starknetState.data hash) ↔ _ :=
    deliverTxs_classes hL (new_healthy hnew) h
  exact hclasses.trans (or_iff_right hempty)

theorem ClassesDeclared.of_stored {heightFile : Option Bytes} {app app' : StarknetApp S}
    {requests : List Bytes} {rs : List ResponseDeliverTx}
    (hnew : StarknetApp.new L heightFile = .ok app)
    (h : (deliverTxs L requests).run app = .ok rs app')
    (hstored : ∀ address hash, Bound L app'.starknetState.data address hash →
      Stored L requests hash) : ClassesDeclared L requests app'.starknetState.data := by
  refine ⟨hstored, ?_⟩
  intro address hash hb function inputs result t hrun
  obtain ⟨c, hc⟩ := (stored_iff hL hnew h).mpr (hstored address hash hb)
  exact executeInvoke_found hL hb.2 hc hrun

theorem bound_step {requests : List Bytes} {request : Bytes} {r : ResponseDeliverTx}
    {app app' : StarknetApp S} (hh : app.Healthy)
    (hnamed : NamesDeclared L requests app.starknetState.data request)
    (hdeclared : ClassesDeclared L requests app.starknetState.data)
    (h : (deliverTx L request).run app = .ok r app') {address : Felt252} {hash : ClassHash}
    (hb : Bound L app'.starknetState.data address hash) : Stored L requests hash := by
  obtain ⟨hnew, hat⟩ := hb
  rcases deliverTx_contracts hL hh h with hkeep | ⟨address', hash', hbinds, hput⟩
  · rw [hkeep] at hat
    exact hdeclared.stored address hash ⟨hnew, hat⟩
  · rw [hput] at hat
    rcases eq_or_ne address address' with rfl | hne
    · rw [Function.update_self] at hat
      cases hat
      exact hnamed address hash hbinds hnew
    · rw [Function.update_of_ne hne] at hat
      exact hdeclared.stored address hash ⟨hnew, hat⟩

theorem deployed_classes_declared_iff {heightFile : Option Bytes} {app app' : StarknetApp S}
    {requests : List Bytes} {rs : List ResponseDeliverTx}
    (hnew : StarknetApp.new L heightFile = .ok app)
    (hrun : (deliverTxs L requests).run app = .ok rs app') :
    (∀ done rest, requests = done ++ rest → ∀ rs₁ app₁,
      (deliverTxs L done).run app = .ok rs₁ app₁ →
        ClassesDeclared L done app₁.starknetState.data) ↔
    ∀ done request rest, requests = done ++ request :: rest → ∀ rs₁ app₁,
      (deliverTxs L done).run app = .ok rs₁ app₁ →
        NamesDeclared L done app₁.starknetState.data request := by
  have hh := new_healthy hnew
  constructor
  · rintro h done request rest rfl rs₁ app₁ hdone address hash hbinds hinitial
    obtain ⟨_, _, app₂, hdone', hrest, -⟩ := run_mapM_append.mp hrun
    cases hdone.symm.trans hdone'
    obtain ⟨r, rs₂, app₃, hfirst, -, -⟩ := run_mapM_cons.mp hrest
    have hstep : (deliverTxs L (done ++ [request])).run app = .ok (rs₁ ++ [r]) app₃ :=
      run_mapM_append.mpr ⟨rs₁, [r], app₁, hdone, run_mapM_singleton.mpr ⟨r, hfirst, rfl⟩, rfl⟩
    have hbound : Bound L app₃.starknetState.data address hash :=
      ⟨hinitial, deliverTx_binds hL (deliverTxs_ok hL hh hdone).1 hbinds hfirst⟩
    have hstored := (h (done ++ [request]) rest (by simp) _ _ hstep).stored address hash hbound
    exact (stored_append.mp hstored).resolve_right hbinds.not_stored
  · intro h done
    induction done using List.reverseRecOn with
    | nil =>
      intro rest _ rs₁ app₁ hdone
      apply ClassesDeclared.of_stored hL hnew hdone
      cases run_mapM_nil.symm.trans hdone
      obtain ⟨file, rfl⟩ := new_fresh hnew
      rintro address hash ⟨hinitial, hat⟩
      exact absurd hat hinitial
    | append_singleton done request ih =>
      rintro rest rfl rs₁ app₁ hdone
      obtain ⟨rs₂, _, app₂, hprefix, hlast, -⟩ := run_mapM_append.mp hdone
      obtain ⟨r, hlast, -⟩ := run_mapM_singleton.mp hlast
      have hsplit : done ++ [request] ++ rest = done ++ request :: rest := by simp
      have hdeclared := ih (request :: rest) hsplit rs₂ app₂ hprefix
      have hnamed := h done request rest hsplit rs₂ app₂ hprefix
      apply ClassesDeclared.of_stored hL hnew hdone
      intro address hash hb
      exact stored_append.mpr (.inl (bound_step hL (deliverTxs_ok hL hh hprefix).1 hnamed
        hdeclared hlast hb))

end StateLaws

namespace Reference

def undeclaredApp : StarknetApp Cache :=
  { (fresh starknet).hashed deployment with
    starknetState := ⟨starknet.newState.deploy 6 (feltToHash 5), false⟩ }

theorem run_undeclared : (deliverTxs starknet [request deployment]).run (fresh starknet) =
    .ok [accepted deployment] undeclaredApp :=
  run_mapM_singleton.mpr ⟨_, run_deployment rfl rfl rfl, rfl⟩

theorem run_declared : (deliverTxs starknet [request declaration, request deployment]).run
    (fresh starknet) = .ok [accepted declaration, accepted deployment] deployedApp :=
  run_mapM_cons.mpr ⟨_, _, _, run_declaredApp, run_mapM_singleton.mpr ⟨_, run_deployedApp, rfl⟩, rfl⟩

end Reference

theorem deployed_classes_declared_iff_declared :
    (∀ done rest, [Reference.request Reference.declaration,
      Reference.request Reference.deployment] = done ++ rest → ∀ rs₁ app₁,
        (deliverTxs Reference.starknet done).run (fresh Reference.starknet) = .ok rs₁ app₁ →
          ClassesDeclared Reference.starknet done app₁.starknetState.data) ↔
    ∀ done request rest, [Reference.request Reference.declaration,
      Reference.request Reference.deployment] = done ++ request :: rest → ∀ rs₁ app₁,
        (deliverTxs Reference.starknet done).run (fresh Reference.starknet) = .ok rs₁ app₁ →
          NamesDeclared Reference.starknet done app₁.starknetState.data request :=
  deployed_classes_declared_iff Reference.stateLaws new_missing Reference.run_declared

theorem undeclared_class_deployed :
    (deliverTxs Reference.starknet [Reference.request Reference.deployment]).run
      (fresh Reference.starknet) =
        .ok [accepted Reference.deployment] Reference.undeclaredApp ∧
    Bound Reference.starknet Reference.undeclaredApp.starknetState.data 6
      (Reference.feltToHash 5) ∧
    ¬ Stored Reference.starknet [Reference.request Reference.deployment]
      (Reference.feltToHash 5) ∧
    (executeInvoke Reference.starknet 6 "f" none).run
      Reference.undeclaredApp.starknetState.data =
        .ok (.error missingClass) Reference.undeclaredApp.starknetState.data := by
  refine ⟨Reference.run_undeclared, Reference.adds_deploy rfl, ?_, rfl⟩
  rintro ⟨request, hr, tx, program, felt, c, hp, ht, -⟩
  cases List.mem_singleton.mp hr
  cases Reference.passed_deployment.symm.trans hp
  cases ht

end Sequencer
