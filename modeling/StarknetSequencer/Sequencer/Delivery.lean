import StarknetSequencer.Sequencer.Application
import StarknetSequencer.Sequencer.Ledger

namespace Sequencer

open Wire Effect StarknetApp

variable {C S I : Type} (L : Starknet C S I)

def integrityFailed : String := "Error delivering transaction. Integrity check failed."

def checked (request : Bytes) : Except Panic (Except String Transaction) :=
  match transactionCodec.deserialize request with
  | none => .error .unwrap
  | some tx => (tx.transactionType.computeAndHash L).map fun
    | .ok hash => if hash = tx.transactionHash then .ok tx else .error integrityFailed
    | .error e => .error ("Error delivering transaction: " ++ e)

def passed (request : Bytes) : Option Transaction :=
  match checked L request with
  | .ok (.ok tx) => some tx
  | _ => none

def declared (program : String) : Option (Felt252 × C) :=
  (L.contractClassTryFrom program).toOption.bind fun c =>
  (L.computeClassHash c).toOption.map fun felt => (felt, c)

def parseTail (hash : String) : Option Felt252 :=
  (sliceFrom 2 hash).toOption.bind fun tail => (L.fromStrRadix16 tail).toOption

def deployed (classHash : String) (salt : Int32) (inputs : Option (List Int32)) :
    Option Felt252 :=
  (parseTail L classHash).bind fun felt =>
  (L.calculateContractAddress (L.fromI32 salt) felt (calldata L inputs) 0).toOption

inductive Delivers : TransactionType → S → S → Prop
  | declare {program : String} {felt : Felt252} {contractClass : C} {s t : S} :
    declared L program = some (felt, contractClass) →
    (L.setContractClass (L.feltToHash felt) contractClass).run s = .ok () t →
    Delivers (.declare program) s t
  | deployAccount {classHash : String} {salt : Int32} {inputs : Option (List Int32)}
    {address txHash : Felt252} {hash : ClassHash} {s : S} :
    deployed L classHash salt inputs = some address →
    L.stringToHash classHash = some hash →
    L.calculateDeployTransactionHash 0 address (calldata L inputs) 0 = .ok txHash →
    Delivers (.deployAccount classHash salt inputs) s (final ((L.deployContract address hash).run s))
  | unparsable {address function tail e : String} {inputs : Option (List Int32)} {s : S} :
    sliceFrom 2 address = .ok tail →
    L.fromStrRadix16 tail = .error e →
    Delivers (.invoke address function inputs) s s
  | invoke {address function tail : String} {inputs : Option (List Int32)}
    {contractAddress : Felt252} {result : Except String I} {s t : S} :
    sliceFrom 2 address = .ok tail →
    L.fromStrRadix16 tail = .ok contractAddress →
    (executeInvoke L contractAddress function inputs).run s = .ok result t →
    Delivers (.invoke address function inputs) s t

def hashOf (felt : Felt252) : String := "0x" ++ hexEncode (L.toBytesBe felt)

variable {L}

theorem passed_iff {request : Bytes} {tx : Transaction} :
    passed L request = some tx ↔ transactionCodec.deserialize request = some tx ∧
      tx.transactionType.computeAndHash L = .ok (.ok tx.transactionHash) := by
  rw [passed, checked]
  cases hd : transactionCodec.deserialize request with
  | none => simp
  | some tx' =>
    simp only [Option.some.injEq]
    cases hc : tx'.transactionType.computeAndHash L with
    | error p =>
      simp only [Except.map, reduceCtorEq, false_iff, not_and]
      rintro rfl
      simp [hc]
    | ok result =>
      cases result with
      | error e =>
        simp only [Except.map, reduceCtorEq, false_iff, not_and]
        rintro rfl
        simp [hc]
      | ok hash =>
        by_cases hh : hash = tx'.transactionHash
        · simp only [Except.map, if_pos hh, Option.some.injEq]
          constructor
          · rintro rfl
            exact ⟨rfl, by rw [hc, hh]⟩
          · exact fun h => h.1
        · simp only [Except.map, if_neg hh, reduceCtorEq, false_iff, not_and]
          rintro rfl
          simp [hc, hh]

theorem declared_iff {program : String} {felt : Felt252} {c : C} :
    declared L program = some (felt, c) ↔
      L.contractClassTryFrom program = .ok c ∧ L.computeClassHash c = .ok felt := by
  simp only [declared, Option.bind_eq_some_iff, Option.map_eq_some_iff, toOption_eq_some,
    Prod.mk.injEq]
  constructor
  · rintro ⟨c', hc, felt', hf, rfl, rfl⟩
    exact ⟨hc, hf⟩
  · rintro ⟨hc, hf⟩
    exact ⟨c, hc, felt, hf, rfl, rfl⟩

theorem deployed_iff {classHash : String} {salt : Int32} {inputs : Option (List Int32)}
    {address : Felt252} :
    deployed L classHash salt inputs = some address ↔
      ∃ tail felt, sliceFrom 2 classHash = .ok tail ∧ L.fromStrRadix16 tail = .ok felt ∧
        L.calculateContractAddress (L.fromI32 salt) felt (calldata L inputs) 0 = .ok address := by
  simp only [deployed, parseTail, Option.bind_eq_some_iff, toOption_eq_some]
  constructor
  · rintro ⟨felt, ⟨tail, ht, hf⟩, ha⟩
    exact ⟨tail, felt, ht, hf, ha⟩
  · rintro ⟨tail, felt, ht, hf, ha⟩
    exact ⟨felt, ⟨tail, ht, hf⟩, ha⟩

theorem computeAndHash_declare {program hash : String} :
    TransactionType.computeAndHash L (.declare program) = .ok (.ok hash) ↔
      ∃ felt c, declared L program = some (felt, c) ∧ hash = hashOf L felt := by
  simp only [TransactionType.computeAndHash, declared_iff, hashOf, Except.ok.injEq]
  cases hc : L.contractClassTryFrom program with
  | error e => simp [bind, Except.bind]
  | ok c =>
    simp only [bind, Except.bind, Except.ok.injEq]
    cases hf : L.computeClassHash c with
    | error e => simp [hf]
    | ok felt => simp [hf, pure, Except.pure, eq_comm]

theorem computeAndHash_deployAccount {classHash hash : String} {salt : Int32}
    {inputs : Option (List Int32)} :
    TransactionType.computeAndHash L (.deployAccount classHash salt inputs) = .ok (.ok hash) ↔
      ∃ address, deployed L classHash salt inputs = some address ∧ hash = hashOf L address := by
  simp only [TransactionType.computeAndHash, deployed_iff, hashOf]
  cases hs : sliceFrom 2 classHash with
  | error p => simp [bind, Except.bind]
  | ok tail =>
    simp only [bind, Except.bind, Except.ok.injEq]
    cases hf : L.fromStrRadix16 tail with
    | error e => simp [unwrap, hf]
    | ok felt =>
      simp only [unwrap, pure, Except.pure, Except.ok.injEq]
      cases ha : L.calculateContractAddress (L.fromI32 salt) felt (calldata L inputs) 0 with
      | error e => simp [hf, ha]
      | ok address => simp [hf, ha, eq_comm]

theorem run_withState {α : Type} (m : EStateM Panic S α) {app : StarknetApp S}
    (h : app.starknetState.poisoned = false) :
    (withState m).run app = match m.run app.starknetState.data with
      | .ok a s => .ok (some a) { app with starknetState := ⟨s, false⟩ }
      | .error e s => .error e { app with starknetState := ⟨s, true⟩ } := by
  rw [withState, run_zoom, Mutex.run_lockMap m h]
  cases m.run app.starknetState.data <;> rfl

theorem run_withState_poisoned {α : Type} (m : EStateM Panic S α) {app : StarknetApp S}
    (h : app.starknetState.poisoned = true) : (withState m).run app = .ok none app := by
  rw [withState, run_zoom, Mutex.run_lockMap_poisoned m h]

theorem run_withHasher {α : Type} (m : EStateM Panic Bytes α) {app : StarknetApp S}
    (h : app.hasher.poisoned = false) :
    (withHasher m).run app = match m.run app.hasher.data with
      | .ok a s => .ok (some a) { app with hasher := ⟨s, false⟩ }
      | .error e s => .error e { app with hasher := ⟨s, true⟩ } := by
  rw [withHasher, run_zoom, Mutex.run_lockMap m h]
  cases m.run app.hasher.data <;> rfl

theorem withHasher_starknetState {α : Type} (m : EStateM Panic Bytes α) (app : StarknetApp S) :
    (final ((withHasher m).run app)).starknetState = app.starknetState := by
  rw [withHasher, run_zoom]
  cases (Mutex.lockMap m).run app.hasher <;> rfl

theorem run_deliverDeclare {program : String} {felt : Felt252} {c : C} {app : StarknetApp S}
    (hd : declared L program = some (felt, c)) (h : app.starknetState.poisoned = false) :
    (deliverDeclare L program).run app =
      match (L.setContractClass (L.feltToHash felt) c).run app.starknetState.data with
      | .ok _ s => .ok () { app with starknetState := ⟨s, false⟩ }
      | .error _ s => .error .unwrap { app with starknetState := ⟨s, true⟩ } := by
  obtain ⟨hc, hfelt⟩ := declared_iff.mp hd
  simp only [deliverDeclare, hc, hfelt, Except.toOption, unwrap, EStateM.run_bind, run_orThrow_some,
    run_lift_ok, run_withState _ h, EStateM.run_adaptExcept]
  cases (L.setContractClass (L.feltToHash felt) c).run app.starknetState.data <;> rfl

theorem run_deliverDeployAccount {classHash : String} {salt : Int32}
    {inputs : Option (List Int32)} {address : Felt252} {app : StarknetApp S}
    (hd : deployed L classHash salt inputs = some address)
    (h : app.starknetState.poisoned = false) :
    (deliverDeployAccount L classHash salt inputs).run app =
      match L.stringToHash classHash with
      | none => .error .unwrap { app with starknetState := ⟨app.starknetState.data, true⟩ }
      | some hash =>
        match L.calculateDeployTransactionHash 0 address (calldata L inputs) 0 with
        | .ok _ => .ok () { app with starknetState :=
            ⟨final ((L.deployContract address hash).run app.starknetState.data), false⟩ }
        | .error _ => .error .unwrap { app with starknetState :=
            ⟨final ((L.deployContract address hash).run app.starknetState.data), false⟩ } := by
  obtain ⟨tail, felt, htail, hfelt, haddr⟩ := deployed_iff.mp hd
  simp only [deliverDeployAccount, htail, hfelt, haddr, unwrap, EStateM.run_bind, run_lift_ok,
    run_withState _ h]
  cases L.stringToHash classHash with
  | none => rfl
  | some hash =>
    simp only [run_orThrow_some, run_attempt]
    cases L.calculateDeployTransactionHash 0 address (calldata L inputs) 0 <;> rfl

theorem run_executeInvoke (contractAddress : Felt252) (function : String)
    (inputs : Option (List Int32)) (s : S) :
    (executeInvoke L contractAddress function inputs).run s =
      match (L.getClassHashAt contractAddress).run s with
      | .error _ s => .error .unwrap s
      | .ok classHash s =>
        match value ((L.getContractClass classHash).run s) with
        | .error _ => .ok
            (.error "No contract class found for contract address (Contract not deployed)")
            (final ((L.getContractClass classHash).run s))
        | .ok _ => .ok
            ((value ((L.execute (entryPoint L contractAddress function inputs classHash)
              (executionContext L)).run (final ((L.getContractClass classHash).run s)))).mapError
                fun _ => "Error running Invoke Tx")
            (final ((L.getContractClass classHash).run s)) := by
  simp only [executeInvoke, EStateM.run_bind, EStateM.run_adaptExcept]
  cases (L.getClassHashAt contractAddress).run s with
  | error e t => rfl
  | ok classHash t =>
    simp only [run_attempt]
    cases value ((L.getContractClass classHash).run t) <;> rfl

theorem run_runInvokeTx {address function tail : String} {inputs : Option (List Int32)}
    {app : StarknetApp S} (ht : sliceFrom 2 address = .ok tail)
    (h : app.starknetState.poisoned = false) :
    (runInvokeTx L address function inputs).run app =
      match L.fromStrRadix16 tail with
      | .error _ => .ok (.error ("Could not parse address: " ++ address)) app
      | .ok contractAddress =>
        match (executeInvoke L contractAddress function inputs).run app.starknetState.data with
        | .ok result s => .ok result { app with starknetState := ⟨s, false⟩ }
        | .error e s => .error e { app with starknetState := ⟨s, true⟩ } := by
  simp only [runInvokeTx, ht, EStateM.run_bind, run_lift_ok]
  cases L.fromStrRadix16 tail with
  | error e => rfl
  | ok contractAddress =>
    simp only [EStateM.run_bind, run_withState _ h]
    cases (executeInvoke L contractAddress function inputs).run app.starknetState.data <;> rfl

theorem deliverDeclare_iff {program : String} {felt : Felt252} {c : C} {app app' : StarknetApp S}
    (hd : declared L program = some (felt, c)) (hh : app.starknetState.poisoned = false) :
    (deliverDeclare L program).run app = .ok () app' ↔
      ∃ t, Delivers L (.declare program) app.starknetState.data t ∧
        app' = { app with starknetState := ⟨t, false⟩ } := by
  rw [run_deliverDeclare hd hh]
  constructor
  · intro h
    split at h
    · rename_i s hs
      cases h
      exact ⟨s, .declare hd hs, rfl⟩
    · cases h
  · rintro ⟨t, hD, rfl⟩
    cases hD with
    | declare hd' hs =>
      cases hd.symm.trans hd'
      rw [hs]

theorem deliverDeployAccount_iff {classHash : String} {salt : Int32}
    {inputs : Option (List Int32)} {address : Felt252} {app app' : StarknetApp S}
    (hd : deployed L classHash salt inputs = some address)
    (hh : app.starknetState.poisoned = false) :
    (deliverDeployAccount L classHash salt inputs).run app = .ok () app' ↔
      ∃ t, Delivers L (.deployAccount classHash salt inputs) app.starknetState.data t ∧
        app' = { app with starknetState := ⟨t, false⟩ } := by
  rw [run_deliverDeployAccount hd hh]
  constructor
  · intro h
    cases hs : L.stringToHash classHash with
    | none =>
      rw [hs] at h
      cases h
    | some hash =>
      simp only [hs] at h
      split at h
      · rename_i txHash hx
        cases h
        exact ⟨_, .deployAccount hd hs hx, rfl⟩
      · cases h
  · rintro ⟨t, hD, rfl⟩
    cases hD with
    | deployAccount hd' hs hx =>
      cases hd.symm.trans hd'
      simp only [hs, hx]

theorem runInvokeTx_iff {address function : String} {inputs : Option (List Int32)}
    {app app' : StarknetApp S} (hh : app.starknetState.poisoned = false) :
    (∃ result, (runInvokeTx L address function inputs).run app = .ok result app') ↔
      ∃ t, Delivers L (.invoke address function inputs) app.starknetState.data t ∧
        app' = { app with starknetState := ⟨t, false⟩ } := by
  constructor
  · rintro ⟨result, h⟩
    cases hs : sliceFrom 2 address with
    | error p => simp [runInvokeTx, hs] at h
    | ok tail =>
      rw [run_runInvokeTx hs hh] at h
      split at h
      · rename_i e hf
        cases h
        refine ⟨_, .unparsable hs hf, ?_⟩
        rw [← hh]
      · rename_i contractAddress hf
        split at h
        · rename_i result' s hx
          cases h
          exact ⟨s, .invoke hs hf hx, rfl⟩
        · cases h
  · rintro ⟨t, hD, rfl⟩
    cases hD with
    | unparsable hs hf =>
      refine ⟨.error ("Could not parse address: " ++ address), ?_⟩
      rw [run_runInvokeTx hs hh, hf, ← hh]
    | @invoke address function tail inputs contractAddress result s t hs hf hx =>
      refine ⟨result, ?_⟩
      rw [run_runInvokeTx hs hh, hf]
      simp only [hx]

theorem deliver_iff {request : Bytes} {tx : Transaction} (hp : passed L request = some tx)
    {app app' : StarknetApp S} (hh : app.starknetState.poisoned = false) :
    (deliver L tx.transactionType).run app = .ok () app' ↔
      ∃ t, Delivers L tx.transactionType app.starknetState.data t ∧
        app' = { app with starknetState := ⟨t, false⟩ } := by
  obtain ⟨-, hc⟩ := passed_iff.mp hp
  cases ht : tx.transactionType with
  | declare program =>
    rw [ht] at hc
    obtain ⟨felt, c, hd, -⟩ := computeAndHash_declare.mp hc
    exact deliverDeclare_iff hd hh
  | deployAccount classHash salt inputs =>
    rw [ht] at hc
    obtain ⟨address, hd, -⟩ := computeAndHash_deployAccount.mp hc
    exact deliverDeployAccount_iff hd hh
  | invoke address function inputs =>
    rw [← runInvokeTx_iff hh, deliver, run_bind_ok]
    constructor
    · rintro ⟨result, app₁, hrun, h⟩
      cases h
      exact ⟨result, hrun⟩
    · rintro ⟨result, hrun⟩
      exact ⟨result, app', hrun, rfl⟩

def StarknetApp.counted (app : StarknetApp S) : StarknetApp S :=
  { app with transactions := app.transactions + 1 }

def StarknetApp.hashed (app : StarknetApp S) (tx : Transaction) : StarknetApp S :=
  { app.counted with hasher := ⟨app.hasher.data ++ utf8 tx.transactionHash, false⟩ }

theorem checked_cases (request : Bytes) :
    (∃ panic, checked L request = .error panic) ∨
      (∃ message, checked L request = .ok (.error message)) ∨
      ∃ tx, checked L request = .ok (.ok tx) := by
  cases h : checked L request with
  | error panic => exact .inl ⟨panic, rfl⟩
  | ok result =>
    cases result with
    | error message => exact .inr (.inl ⟨message, rfl⟩)
    | ok tx => exact .inr (.inr ⟨tx, rfl⟩)

theorem passed_eq_some {request : Bytes} {tx : Transaction} :
    passed L request = some tx ↔ checked L request = .ok (.ok tx) := by
  rw [passed]
  rcases checked_cases (L := L) request with ⟨p, h⟩ | ⟨m, h⟩ | ⟨tx', h⟩ <;> simp [h]

theorem run_deliverTx_error {request : Bytes} {panic : Panic}
    (h : checked L request = .error panic) (app : StarknetApp S) :
    (deliverTx L request).run app = .error panic app := by
  rw [checked] at h
  cases hd : transactionCodec.deserialize request with
  | none =>
    rw [hd] at h
    cases h
    simp [deliverTx, hd]
  | some tx =>
    simp only [hd] at h
    cases hc : tx.transactionType.computeAndHash L with
    | error p =>
      rw [hc] at h
      cases h
      simp [deliverTx, hd, hc]
    | ok result =>
      rw [hc] at h
      cases h

theorem run_deliverTx_rejected {request : Bytes} {message : String}
    (h : checked L request = .ok (.error message)) (app : StarknetApp S) :
    (deliverTx L request).run app = .ok (rejected message) app.counted := by
  rw [checked] at h
  cases hd : transactionCodec.deserialize request with
  | none =>
    rw [hd] at h
    cases h
  | some tx =>
    simp only [hd] at h
    cases hc : tx.transactionType.computeAndHash L with
    | error p =>
      rw [hc] at h
      cases h
    | ok result =>
      rw [hc] at h
      cases result with
      | error e =>
        cases h
        simp [deliverTx, hd, hc, Except.map, StarknetApp.counted]
      | ok hash =>
        simp only [Except.map, Except.ok.injEq] at h
        split at h
        · cases h
        · rename_i hne
          cases h
          have hbeq : (hash == tx.transactionHash) = false := beq_false_of_ne hne
          simp [deliverTx, hd, hc, Except.map, hbeq, StarknetApp.counted, integrityFailed]

theorem run_deliverTx_passed {request : Bytes} {tx : Transaction}
    (h : passed L request = some tx) {app : StarknetApp S}
    (hh : app.hasher.poisoned = false) :
    (deliverTx L request).run app =
      match (deliver L tx.transactionType).run (app.hashed tx) with
      | .ok _ app => .ok (accepted tx) app
      | .error panic app => .error panic app := by
  obtain ⟨hd, hc⟩ := passed_iff.mp h
  have hcount : app.counted.hasher.poisoned = false := hh
  simp only [deliverTx, hd, hc, EStateM.run_bind, run_orThrow_some, run_lift_ok,
    EStateM.run_modify, Except.map, beq_self_eq_true]
  change ((withHasher (modify fun stream => stream ++ utf8 tx.transactionHash) >>= fun _ =>
    deliver L tx.transactionType >>= fun _ => pure (accepted tx)).run app.counted) = _
  rw [EStateM.run_bind, run_withHasher _ hcount, EStateM.run_modify]
  change (deliver L tx.transactionType >>= fun _ => pure (accepted tx)).run (app.hashed tx) = _
  rw [EStateM.run_bind]
  cases (deliver L tx.transactionType).run (app.hashed tx) <;> rfl

theorem run_deliverTx_unparsable {request : Bytes} {tx : Transaction}
    (h : passed L request = some tx) {address function tail e : String}
    {inputs : Option (List Int32)} (ht : tx.transactionType = .invoke address function inputs)
    (hs : sliceFrom 2 address = .ok tail) (hf : L.fromStrRadix16 tail = .error e)
    {app : StarknetApp S} (hh : app.hasher.poisoned = false) :
    (deliverTx L request).run app = .ok (accepted tx) (app.hashed tx) := by
  have hrun : (deliver L tx.transactionType).run (app.hashed tx) = .ok () (app.hashed tx) := by
    rw [ht]
    simp only [deliver, runInvokeTx, EStateM.run_bind, hs, run_lift_ok, hf, EStateM.run_pure]
  rw [run_deliverTx_passed h hh, hrun]

def answer : Except String Transaction → ResponseDeliverTx
  | .ok tx => accepted tx
  | .error message => rejected message

theorem answer_code_zero {result : Except String Transaction} :
    (answer result).code = 0 ↔ ∃ tx, result = .ok tx := by
  cases result with
  | ok tx => exact iff_of_true rfl ⟨tx, rfl⟩
  | error message => exact iff_of_false Nat.one_ne_zero (by simp)

-- whatever state the two locks are in
theorem deliver_of_passed {request : Bytes} {tx : Transaction} {r : ResponseDeliverTx}
    {app app' : StarknetApp S} (hp : passed L request = some tx)
    (h : (deliverTx L request).run app = .ok r app') :
    r = accepted tx ∧ ∃ app₁, app₁.starknetState = app.starknetState ∧
      (deliver L tx.transactionType).run app₁ = .ok () app' := by
  obtain ⟨hd, hh⟩ := passed_iff.mp hp
  simp only [deliverTx, hd, hh, EStateM.run_bind, run_orThrow_some, run_lift_ok,
    EStateM.run_modify, Except.map, beq_self_eq_true] at h
  obtain ⟨_, app₁, hhash, h⟩ := run_bind_ok.mp h
  obtain ⟨_, app₂, hdeliver, h⟩ := run_bind_ok.mp h
  cases h
  have hkeep := withHasher_starknetState (modify fun stream => stream ++ utf8 tx.transactionHash)
    app.counted
  have hrun : (withHasher (modify fun stream => stream ++ utf8 tx.transactionHash)).run app.counted =
      .ok _ app₁ := hhash
  rw [hrun] at hkeep
  exact ⟨rfl, app₁, hkeep, hdeliver⟩

theorem deliverTx_answer {request : Bytes} {r : ResponseDeliverTx} {app app' : StarknetApp S}
    (h : (deliverTx L request).run app = .ok r app') :
    ∃ result, checked L request = .ok result ∧ r = answer result := by
  rcases checked_cases (L := L) request with ⟨p, hc⟩ | ⟨message, hc⟩ | ⟨tx, hc⟩
  · rw [run_deliverTx_error hc] at h
    cases h
  · rw [run_deliverTx_rejected hc] at h
    cases h
    exact ⟨_, hc, rfl⟩
  · exact ⟨.ok tx, hc, (deliver_of_passed (passed_eq_some.mpr hc) h).1⟩

theorem deliverTx_code_zero {request : Bytes} {r : ResponseDeliverTx} {app app' : StarknetApp S}
    (h : (deliverTx L request).run app = .ok r app') :
    r.code = 0 ↔ ∃ tx, passed L request = some tx ∧ r = accepted tx := by
  obtain ⟨result, hc, rfl⟩ := deliverTx_answer h
  rw [answer_code_zero]
  constructor
  · rintro ⟨tx, rfl⟩
    exact ⟨tx, passed_eq_some.mpr hc, rfl⟩
  · rintro ⟨tx, hp, -⟩
    rw [passed_eq_some, hc] at hp
    exact ⟨tx, Except.ok.inj hp⟩

structure StateOnly (app app' : StarknetApp S) : Prop where
  hasher : app'.hasher = app.hasher
  transactions : app'.transactions = app.transactions
  heightFile : app'.heightFile = app.heightFile

theorem StateOnly.refl (app : StarknetApp S) : StateOnly app app := ⟨rfl, rfl, rfl⟩

theorem StateOnly.trans (app₁ app₂ app₃ : StarknetApp S) (h : StateOnly app₁ app₂)
    (h' : StateOnly app₂ app₃) : StateOnly app₁ app₃ :=
  ⟨h'.hasher.trans h.hasher, h'.transactions.trans h.transactions,
    h'.heightFile.trans h.heightFile⟩

theorem withState_moves {α : Type} (m : EStateM Panic S α) :
    Moves StateOnly (withState m) := by
  intro app
  rw [withState, run_zoom]
  cases (Mutex.lockMap m).run app.starknetState <;> exact ⟨rfl, rfl, rfl⟩

theorem deliver_moves (t : TransactionType) : Moves StateOnly (deliver L t) := by
  have hbind {α β : Type} {m : Hook S α} {f : α → Hook S β} (hm : Moves StateOnly m)
      (hf : ∀ a, Moves StateOnly (f a)) : Moves StateOnly (m >>= f) :=
    Moves.bind StateOnly.trans hm hf
  have hlift {α : Type} (r : Except Panic α) : Moves StateOnly (lift r : Hook S α) :=
    Moves.lift StateOnly.refl r
  have hthrow {α : Type} (o : Option α) (e : Panic) :
      Moves StateOnly (orThrow e o : Hook S α) := Moves.orThrow StateOnly.refl e o
  have hpure {α : Type} (a : α) : Moves StateOnly (pure a : Hook S α) :=
    Moves.pure StateOnly.refl a
  cases t with
  | declare program =>
    apply hbind (hthrow _ _)
    intro contractClass
    apply hbind (hlift _)
    intro felt
    exact hbind (withState_moves _) fun done => hthrow _ _
  | deployAccount classHash salt inputs =>
    apply hbind (hlift _)
    intro tail
    apply hbind (hlift _)
    intro felt
    apply hbind (hlift _)
    intro address
    apply hbind (withState_moves _)
    intro done
    exact hbind (hlift _) fun txHash => hpure ()
  | invoke address function inputs =>
    refine hbind (hbind (hlift _) ?_) fun result => hpure ()
    intro tail
    cases L.fromStrRadix16 tail with
    | error e => exact hpure _
    | ok contractAddress => exact hbind (withState_moves _) fun result => hthrow _ _

end Sequencer
