import StarknetSequencer.Sequencer.Delivery

namespace Sequencer

open Wire Effect StarknetApp

structure Chain (C : Type) where
  stream : Bytes
  ledger : Ledger C

variable {C S I : Type} (L : Starknet C S I)

def effect : TransactionType → Ledger C → Ledger C
  | .declare program, l =>
    match declared L program with
    | some (felt, contractClass) => l.declare (L.feltToHash felt) contractClass
    | none => l
  | .deployAccount classHash salt inputs, l =>
    match deployed L classHash salt inputs, L.stringToHash classHash with
    | some address, some hash => l.deploy address hash
    | _, _ => l
  | .invoke .., l => l

namespace Chain

def genesis : Chain C where
  stream := []
  ledger := L.ledger L.newState

def apply (chain : Chain C) (tx : Transaction) : Chain C where
  stream := chain.stream ++ utf8 tx.transactionHash
  ledger := effect L tx.transactionType chain.ledger

def deliver (chain : Chain C) (request : Bytes) : Chain C :=
  match passed L request with
  | some tx => chain.apply L tx
  | none => chain

def deliverAll (chain : Chain C) (requests : List Bytes) : Chain C :=
  requests.foldl (deliver L) chain

end Chain

def StarknetApp.chain (app : StarknetApp S) : Chain C where
  stream := app.hasher.data
  ledger := L.ledger app.starknetState.data

structure StarknetApp.Healthy (app : StarknetApp S) : Prop where
  hasher : app.hasher.poisoned = false
  starknetState : app.starknetState.poisoned = false

variable {L}

theorem effect_extends (t : TransactionType) (l : Ledger C) :
    Ledger.Extends l (effect L t l) := by
  cases t with
  | declare program =>
    rw [effect]
    split
    · exact Ledger.declare_extends l _ _
    · exact Ledger.Extends.refl l
  | deployAccount classHash salt inputs =>
    rw [effect]
    split
    · exact Ledger.deploy_extends l _ _
    · exact Ledger.Extends.refl l
  | invoke address function inputs => exact Ledger.Extends.refl l

namespace Chain

theorem deliver_passed {request : Bytes} {tx : Transaction} (h : passed L request = some tx)
    (chain : Chain C) : chain.deliver L request = chain.apply L tx := by
  rw [deliver, h]

theorem deliver_not_passed {request : Bytes} (h : passed L request = none)
    (chain : Chain C) : chain.deliver L request = chain := by
  rw [deliver, h]

theorem deliverAll_append (chain : Chain C) (requests requests' : List Bytes) :
    chain.deliverAll L (requests ++ requests') =
      (chain.deliverAll L requests).deliverAll L requests' :=
  List.foldl_append

theorem deliverAll_eq (chain : Chain C) (requests : List Bytes) :
    chain.deliverAll L requests = (requests.filterMap (passed L)).foldl (apply L) chain := by
  induction requests generalizing chain with
  | nil => rfl
  | cons request requests ih =>
    rw [deliverAll, List.foldl_cons]
    cases h : passed L request with
    | none =>
      rw [deliver_not_passed h, List.filterMap_cons_none h]
      exact ih chain
    | some tx =>
      rw [deliver_passed h, List.filterMap_cons_some h]
      exact ih (chain.apply L tx)

theorem foldl_apply_stream (chain : Chain C) (txs : List Transaction) :
    (txs.foldl (apply L) chain).stream =
      chain.stream ++ (txs.map fun tx => utf8 tx.transactionHash).flatten := by
  induction txs generalizing chain with
  | nil => simp
  | cons tx txs ih =>
    rw [List.foldl_cons, ih, apply, List.map_cons, List.flatten_cons, List.append_assoc]

theorem foldl_apply_ledger (chain : Chain C) (txs : List Transaction) :
    (txs.foldl (apply L) chain).ledger =
      txs.foldl (fun l tx => effect L tx.transactionType l) chain.ledger := by
  induction txs generalizing chain with
  | nil => rfl
  | cons tx txs ih => exact ih (chain.apply L tx)

theorem deliverAll_extends (chain : Chain C) (requests : List Bytes) :
    Ledger.Extends chain.ledger (chain.deliverAll L requests).ledger := by
  induction requests generalizing chain with
  | nil => exact Ledger.Extends.refl _
  | cons request requests ih =>
    have hstep : Ledger.Extends chain.ledger (chain.deliver L request).ledger := by
      cases h : passed L request with
      | none =>
        rw [deliver_not_passed h]
        exact Ledger.Extends.refl _
      | some tx =>
        rw [deliver_passed h]
        exact effect_extends _ _
    exact hstep.trans (ih (chain.deliver L request))

end Chain

section StateLaws

variable (hL : L.StateLaws)

include hL

theorem executeInvoke_same (contractAddress : Felt252) (function : String)
    (inputs : Option (List Int32)) (s : S) :
    L.Same s (final ((executeInvoke L contractAddress function inputs).run s)) := by
  have hlook := hL.getClassHashAt_same contractAddress s
  rw [run_executeInvoke]
  cases hr : (L.getClassHashAt contractAddress).run s with
  | error e t =>
    rw [hr] at hlook
    exact hlook
  | ok classHash t =>
    rw [hr] at hlook
    have hclass := hL.getContractClass_same classHash t
    simp only
    cases value ((L.getContractClass classHash).run t) <;> exact hlook.trans hclass

-- no other delivery touches the contracts
theorem delivers_contracts {t : TransactionType} {s s' : S} (h : Delivers L t s s') :
    L.classHashAt s' = L.classHashAt s ∨ ∃ classHash salt inputs address hash,
      t = .deployAccount classHash salt inputs ∧ deployed L classHash salt inputs = some address ∧
      L.stringToHash classHash = some hash ∧ address ≠ 0 ∧ L.Vacant s address ∧
      L.classHashAt s' = Function.update (L.classHashAt s) address (.ok hash) := by
  cases h with
  | @declare program felt c s s' hd hs =>
    obtain ⟨u, hu, -, hat⟩ := hL.setContractClass_ok (L.feltToHash felt) c s
    cases hs.symm.trans hu
    exact .inl hat
  | @deployAccount classHash salt inputs address txHash hash s hd hs hx =>
    by_cases hfree : address ≠ 0 ∧ L.Vacant s address
    · obtain ⟨u, hu, hat, -⟩ := hL.deployContract_free address hash s hfree.1 hfree.2
      rw [hu, final_ok]
      exact .inr ⟨classHash, salt, inputs, address, hash, rfl, hd, hs, hfree.1, hfree.2, hat⟩
    · obtain ⟨e, u, hu, hsame⟩ := hL.deployContract_taken address hash s hfree
      rw [hu, final_error]
      exact .inl hsame.contracts
  | unparsable hs hf => exact .inl rfl
  | @invoke address function tail inputs contractAddress result s s' hs hf hx =>
    have hsame := executeInvoke_same hL contractAddress function inputs s
    rw [hx] at hsame
    exact .inl hsame.contracts

theorem delivers_ledger {t : TransactionType} {s s' : S} (h : Delivers L t s s') :
    L.ledger s' = effect L t (L.ledger s) := by
  cases h with
  | declare hd hs =>
    obtain ⟨u, hu, hl⟩ := Starknet.ledger_setContractClass hL _ _ s
    cases hs.symm.trans hu
    rw [effect, hd]
    exact hl
  | deployAccount hd hs hx =>
    rw [effect, hd, hs]
    exact Starknet.ledger_deployContract hL _ _ s
  | unparsable hs hf => rfl
  | @invoke address function tail inputs contractAddress result s t hs hf hx =>
    have hsame := executeInvoke_same hL contractAddress function inputs s
    rw [hx] at hsame
    exact hsame.ledger

theorem deliver_ok {request : Bytes} {tx : Transaction} {app app' : StarknetApp S}
    (hp : passed L request = some tx) (hh : app.starknetState.poisoned = false)
    (h : (deliver L tx.transactionType).run app = .ok () app') :
    app'.starknetState.poisoned = false ∧
      L.ledger app'.starknetState.data =
        effect L tx.transactionType (L.ledger app.starknetState.data) := by
  obtain ⟨t, hD, rfl⟩ := (deliver_iff hp hh).mp h
  exact ⟨rfl, delivers_ledger hL hD⟩

end StateLaws

end Sequencer
