import StarknetSequencer.Sequencer.Reachable
import StarknetSequencer.Sequencer.Reference
import Mathlib.Logic.Relation

namespace Sequencer

open Wire Effect StarknetApp

variable {C S I : Type} (L : Starknet C S I)

def Deliverable (s : S) : TransactionType → Prop
  | .declare _ => True
  | .deployAccount classHash salt inputs =>
    (L.stringToHash classHash).isSome ∧ ∀ address, deployed L classHash salt inputs = some address →
      ∃ txHash, L.calculateDeployTransactionHash 0 address (calldata L inputs) 0 = .ok txHash
  | .invoke address _ _ => ∃ tail, sliceFrom 2 address = .ok tail ∧
    ∀ contractAddress, L.fromStrRadix16 tail = .ok contractAddress →
      ∃ hash, L.classHashAt s contractAddress = .ok hash

def Admissible (s : S) (request : Bytes) : Prop :=
  ∃ tx, passed L request = some tx ∧ Deliverable L s tx.transactionType

-- what panics while `starknet_state` is locked; every other panic leaves the lock usable
def Poisons (s : S) : TransactionType → Prop
  | .declare _ => False
  | .deployAccount classHash _ _ => L.stringToHash classHash = none
  | .invoke address _ _ => ∃ tail contractAddress, sliceFrom 2 address = .ok tail ∧
    L.fromStrRadix16 tail = .ok contractAddress ∧ ¬ Present (L.classHashAt s contractAddress)

def Orderly (app : StarknetApp S) : Request → Prop
  | .deliverTx request => ∀ tx, passed L request = some tx →
    ¬ Poisons L app.starknetState.data tx.transactionType
  | _ => True

def Step (app app' : StarknetApp S) : Prop :=
  ∃ request, Orderly L app request ∧ app' = final ((Request.handle L request).run app)

abbrev Run : StarknetApp S → StarknetApp S → Prop := Relation.ReflTransGen (Step L)

structure AdmissionSound (app : StarknetApp S) (request : Bytes) : Prop where
  checked : ∃ r, (checkTx request).run app = .ok r app
  delivered : ∀ r, (checkTx request).run app = .ok r app → r.code = 0 →
    ∀ app', Run L app app' → ∃ r' app'', (deliverTx L request).run app' = .ok r' app'' ∧ r'.code = 0

def Keeps (s t : S) : Prop := Registry.Covers Present (L.classHashAt s) (L.classHashAt t)

variable {L}

theorem Keeps.of_same {s t : S} (h : L.Same s t) : Keeps L s t := by
  rw [Keeps, h.contracts]
  exact Registry.Covers.refl _

theorem Deliverable.keeps {s s' : S} {t : TransactionType} (h : Deliverable L s t)
    (hk : Keeps L s s') : Deliverable L s' t := by
  cases t with
  | declare program => trivial
  | deployAccount classHash salt inputs => exact h
  | invoke address function inputs =>
    obtain ⟨tail, hs, hlook⟩ := h
    exact ⟨tail, hs, fun contractAddress hf => hk contractAddress (hlook contractAddress hf)⟩

theorem Admissible.keeps {s t : S} {request : Bytes} (h : Admissible L s request)
    (hk : Keeps L s t) : Admissible L t request := by
  obtain ⟨tx, hp, hd⟩ := h
  exact ⟨tx, hp, hd.keeps hk⟩

theorem executeInvoke_ok_iff (contractAddress : Felt252) (function : String)
    (inputs : Option (List Int32)) (s : S) :
    (∃ result t, (executeInvoke L contractAddress function inputs).run s = .ok result t) ↔
      Present (L.classHashAt s contractAddress) := by
  rw [run_executeInvoke, Starknet.classHashAt]
  cases (L.getClassHashAt contractAddress).run s with
  | error e t => simp [Present]
  | ok classHash t =>
    simp only [Present, value_ok, Except.ok.injEq, exists_eq', iff_true]
    cases value ((L.getContractClass classHash).run t) with
    | error e => exact ⟨_, _, rfl⟩
    | ok contractClass => exact ⟨_, _, rfl⟩

theorem final_deliver_invoke (address function : String) (inputs : Option (List Int32))
    (app : StarknetApp S) :
    final ((deliver L (.invoke address function inputs)).run app) =
      final ((runInvokeTx L address function inputs).run app) := by
  rw [deliver, EStateM.run_bind]
  cases (runInvokeTx L address function inputs).run app <;> rfl

theorem run_runInvokeTx_short {address function : String} {inputs : Option (List Int32)}
    {p : Panic} (h : sliceFrom 2 address = .error p) (app : StarknetApp S) :
    (runInvokeTx L address function inputs).run app = .error p app := by
  simp only [runInvokeTx, h, EStateM.run_bind, run_lift_error]

theorem run_checkTx {request : Bytes} {tx : Transaction}
    (h : transactionCodec.deserialize request = some tx) (app : StarknetApp S) :
    (checkTx request).run app = .ok ⟨0⟩ app := by
  rw [checkTx, h]
  rfl

theorem run_checkTx_ok {request : Bytes} {r : ResponseCheckTx} {app app' : StarknetApp S}
    (h : (checkTx request).run app = .ok r app') :
    ∃ tx, transactionCodec.deserialize request = some tx ∧ r.code = 0 := by
  cases hd : transactionCodec.deserialize request with
  | none =>
    rw [checkTx, hd] at h
    cases h
  | some tx =>
    rw [run_checkTx hd] at h
    cases h
    exact ⟨tx, rfl, rfl⟩

section StateLaws

variable (hL : L.StateLaws)

include hL

theorem deliverable_iff {request : Bytes} {tx : Transaction} (hp : passed L request = some tx)
    (s : S) : Deliverable L s tx.transactionType ↔ ∃ t, Delivers L tx.transactionType s t := by
  obtain ⟨-, hc⟩ := passed_iff.mp hp
  cases ht : tx.transactionType with
  | declare program =>
    rw [ht] at hc
    obtain ⟨felt, c, hd, -⟩ := computeAndHash_declare.mp hc
    obtain ⟨t, hs, -⟩ := hL.setContractClass_ok (L.feltToHash felt) c s
    exact iff_of_true trivial ⟨t, .declare hd hs⟩
  | deployAccount classHash salt inputs =>
    rw [ht] at hc
    obtain ⟨address, hd, -⟩ := computeAndHash_deployAccount.mp hc
    constructor
    · rintro ⟨hs, hx⟩
      obtain ⟨hash, hs⟩ := Option.isSome_iff_exists.mp hs
      obtain ⟨txHash, hx⟩ := hx address hd
      exact ⟨_, .deployAccount hd hs hx⟩
    · rintro ⟨t, hD⟩
      cases hD with
      | @deployAccount _ _ _ address' txHash hash _ hd' hs hx =>
        refine ⟨Option.isSome_iff_exists.mpr ⟨hash, hs⟩, ?_⟩
        intro address'' hd''
        cases hd'.symm.trans hd''
        exact ⟨txHash, hx⟩
  | invoke address function inputs =>
    constructor
    · rintro ⟨tail, hs, hlook⟩
      cases hf : L.fromStrRadix16 tail with
      | error e => exact ⟨s, .unparsable hs hf⟩
      | ok contractAddress =>
        obtain ⟨result, t, hx⟩ :=
          (executeInvoke_ok_iff contractAddress function inputs s).mpr (hlook contractAddress hf)
        exact ⟨t, .invoke hs hf hx⟩
    · rintro ⟨t, hD⟩
      cases hD with
      | @unparsable _ _ tail e _ _ hs hf =>
        refine ⟨tail, hs, ?_⟩
        intro contractAddress hf'
        cases hf.symm.trans hf'
      | @invoke _ _ tail _ contractAddress result _ _ hs hf hx =>
        refine ⟨tail, hs, ?_⟩
        intro contractAddress' hf'
        cases hf.symm.trans hf'
        exact (executeInvoke_ok_iff contractAddress function inputs s).mp ⟨result, t, hx⟩

theorem deployContract_keeps (address : Felt252) (hash : ClassHash) (s : S) :
    Keeps L s (final ((L.deployContract address hash).run s)) := by
  have hext := Ledger.deploy_extends (L.ledger s) address hash
  rw [← Starknet.ledger_deployContract hL] at hext
  exact hext.bindings

theorem deliver_poisons_iff {request : Bytes} {tx : Transaction}
    (hp : passed L request = some tx) {app : StarknetApp S}
    (hs : app.starknetState.poisoned = false) :
    ((final ((deliver L tx.transactionType).run app)).starknetState.poisoned = true ↔
      Poisons L app.starknetState.data tx.transactionType) ∧
    Keeps L app.starknetState.data
      (final ((deliver L tx.transactionType).run app)).starknetState.data := by
  obtain ⟨-, hc⟩ := passed_iff.mp hp
  have hself : Keeps L app.starknetState.data app.starknetState.data := Registry.Covers.refl _
  cases ht : tx.transactionType with
  | declare program =>
    rw [ht] at hc
    obtain ⟨felt, c, hd, -⟩ := computeAndHash_declare.mp hc
    obtain ⟨t, hset, -, hat⟩ :=
      hL.setContractClass_ok (L.feltToHash felt) c app.starknetState.data
    rw [deliver, run_deliverDeclare hd hs, hset]
    refine ⟨iff_of_false Bool.false_ne_true id, ?_⟩
    change Registry.Covers Present _ (L.classHashAt t)
    rw [hat]
    exact Registry.Covers.refl _
  | deployAccount classHash salt inputs =>
    rw [ht] at hc
    obtain ⟨address, hd, -⟩ := computeAndHash_deployAccount.mp hc
    rw [deliver, run_deliverDeployAccount hd hs]
    cases hstring : L.stringToHash classHash with
    | none => exact ⟨iff_of_true rfl hstring, hself⟩
    | some hash =>
      have hn : ¬ Poisons L app.starknetState.data (.deployAccount classHash salt inputs) := by
        simp [Poisons, hstring]
      have hkeep := deployContract_keeps hL address hash app.starknetState.data
      cases L.calculateDeployTransactionHash 0 address (calldata L inputs) 0 with
      | ok txHash => exact ⟨iff_of_false Bool.false_ne_true hn, hkeep⟩
      | error e => exact ⟨iff_of_false Bool.false_ne_true hn, hkeep⟩
  | invoke address function inputs =>
    rw [final_deliver_invoke]
    cases hslice : sliceFrom 2 address with
    | error p =>
      rw [run_runInvokeTx_short hslice]
      refine ⟨iff_of_false (by rw [final_error, hs]; exact Bool.false_ne_true) ?_, hself⟩
      simp [Poisons, hslice]
    | ok tail =>
      rw [run_runInvokeTx hslice hs]
      cases hf : L.fromStrRadix16 tail with
      | error e =>
        refine ⟨iff_of_false (by rw [final_ok, hs]; exact Bool.false_ne_true) ?_, hself⟩
        simp [Poisons, hslice, hf]
      | ok contractAddress =>
        have hiff := executeInvoke_ok_iff (L := L) contractAddress function inputs
          app.starknetState.data
        have hsame := executeInvoke_same hL contractAddress function inputs
          app.starknetState.data
        have hpoisons : Poisons L app.starknetState.data (.invoke address function inputs) ↔
            ¬ Present (L.classHashAt app.starknetState.data contractAddress) := by
          simp [Poisons, hslice, hf]
        rw [hpoisons, ← hiff]
        simp only
        cases hx : (executeInvoke L contractAddress function inputs).run
            app.starknetState.data with
        | ok result t =>
          rw [hx] at hsame
          exact ⟨iff_of_false Bool.false_ne_true (by simp), Keeps.of_same hsame⟩
        | error e t =>
          rw [hx] at hsame
          exact ⟨iff_of_true rfl (by simp), Keeps.of_same hsame⟩

theorem deliverTx_code_zero_iff {request : Bytes} {app : StarknetApp S} (hh : app.Healthy) :
    (∃ r app', (deliverTx L request).run app = .ok r app' ∧ r.code = 0) ↔
      Admissible L app.starknetState.data request := by
  constructor
  · rintro ⟨r, app', hrun, hcode⟩
    cases hp : passed L request with
    | none =>
      obtain ⟨-, message, rfl⟩ := deliverTx_not_passed hp hrun
      cases hcode
    | some tx =>
      rw [run_deliverTx_passed hp hh.hasher] at hrun
      have hs : (app.hashed tx).starknetState.poisoned = false := hh.starknetState
      split at hrun
      · rename_i app₁ hd
        obtain ⟨t, hD, -⟩ := (deliver_iff hp hs).mp hd
        exact ⟨tx, hp, (deliverable_iff hL hp _).mpr ⟨t, hD⟩⟩
      · cases hrun
  · rintro ⟨tx, hp, hd⟩
    have hs : (app.hashed tx).starknetState.poisoned = false := hh.starknetState
    obtain ⟨t, hD⟩ := (deliverable_iff hL hp _).mp hd
    refine ⟨accepted tx, { app.hashed tx with starknetState := ⟨t, false⟩ }, ?_, rfl⟩
    rw [run_deliverTx_passed hp hh.hasher, (deliver_iff hp hs).mpr ⟨t, hD, rfl⟩]

theorem final_deliverTx_orderly {request : Bytes} {app : StarknetApp S} (hh : app.Healthy)
    (ho : Orderly L app (.deliverTx request)) :
    (final ((deliverTx L request).run app)).starknetState.poisoned = false ∧
      Keeps L app.starknetState.data
        (final ((deliverTx L request).run app)).starknetState.data := by
  have hself : Keeps L app.starknetState.data app.starknetState.data := Registry.Covers.refl _
  rcases checked_cases (L := L) request with ⟨p, hc⟩ | ⟨message, hc⟩ | ⟨tx, hc⟩
  · rw [run_deliverTx_error hc]
    exact ⟨hh.starknetState, hself⟩
  · rw [run_deliverTx_rejected hc]
    exact ⟨hh.starknetState, hself⟩
  · have hp := passed_eq_some.mpr hc
    have hs : (app.hashed tx).starknetState.poisoned = false := hh.starknetState
    obtain ⟨hiff, hkeep⟩ := deliver_poisons_iff hL hp hs
    have hclean := Bool.eq_false_iff.mpr fun h => ho tx hp (hiff.mp h)
    rw [run_deliverTx_passed hp hh.hasher]
    cases hd : (deliver L tx.transactionType).run (app.hashed tx) with
    | ok done app' =>
      rw [hd] at hclean hkeep
      exact ⟨hclean, hkeep⟩
    | error p app' =>
      rw [hd] at hclean hkeep
      exact ⟨hclean, hkeep⟩

theorem step_orderly {app app' : StarknetApp S} (hh : app.Healthy) (hr : app.Running)
    (h : Step L app app') :
    app'.Healthy ∧ app'.Running ∧ Keeps L app.starknetState.data app'.starknetState.data := by
  obtain ⟨request, ho, rfl⟩ := h
  have hr' := handle_running (L := L) request hr
  by_cases hd : ∃ tx, request = .deliverTx tx
  · obtain ⟨tx, rfl⟩ := hd
    obtain ⟨hs, hk⟩ := final_deliverTx_orderly hL hh ho
    rw [Request.handle, final_map] at hr' ⊢
    exact ⟨⟨hr'.hasher, hs⟩, hr', hk⟩
  · have hs := handle_starknetState (L := L) hr fun tx htx => hd ⟨tx, htx⟩
    refine ⟨⟨hr'.hasher, ?_⟩, hr', ?_⟩
    · rw [hs]
      exact hh.starknetState
    · rw [hs]
      exact Registry.Covers.refl _

theorem run_orderly {app app' : StarknetApp S} (hh : app.Healthy) (hr : app.Running)
    (h : Run L app app') :
    app'.Healthy ∧ app'.Running ∧ Keeps L app.starknetState.data app'.starknetState.data := by
  induction h with
  | refl => exact ⟨hh, hr, Registry.Covers.refl _⟩
  | tail _ hstep ih =>
    obtain ⟨hh₁, hr₁, hk₁⟩ := ih
    obtain ⟨hh', hr', hk'⟩ := step_orderly hL hh₁ hr₁ hstep
    exact ⟨hh', hr', hk₁.trans hk'⟩

theorem admission_sound_iff {heightFile : Option Bytes} {app app' : StarknetApp S}
    (hnew : StarknetApp.new L heightFile = .ok app) (hrun : Run L app app') (request : Bytes) :
    AdmissionSound L app' request ↔ Admissible L app'.starknetState.data request := by
  obtain ⟨hh, hr, -⟩ := run_orderly hL (new_healthy hnew) (new_running hnew) hrun
  constructor
  · intro h
    obtain ⟨r, hcheck⟩ := h.checked
    obtain ⟨tx, -, hcode⟩ := run_checkTx_ok hcheck
    exact (deliverTx_code_zero_iff hL hh).mp (h.delivered r hcheck hcode app' .refl)
  · rintro ⟨tx, hp, hd⟩
    refine ⟨⟨⟨0⟩, run_checkTx (passed_iff.mp hp).1 app'⟩, ?_⟩
    intro r _ _ app'' hlater
    obtain ⟨hh', -, hk⟩ := run_orderly hL hh hr hlater
    exact (deliverTx_code_zero_iff hL hh').mpr ⟨tx, hp, hd.keeps hk⟩

end StateLaws

theorem admission_sound_iff_stray :
    AdmissionSound Reference.starknet (fresh Reference.starknet)
        (Reference.request Reference.stray) ↔
      Admissible Reference.starknet Reference.starknet.newState
        (Reference.request Reference.stray) :=
  admission_sound_iff Reference.stateLaws new_missing .refl (Reference.request Reference.stray)

-- an Invoke of an address where nothing is deployed is admitted and then panics inside the lock
theorem admitted_call_poisons :
    (checkTx (Reference.request Reference.call)).run (fresh Reference.starknet) =
      .ok ⟨0⟩ (fresh Reference.starknet) ∧
    (deliverTx Reference.starknet (Reference.request Reference.call)).run
        (fresh Reference.starknet) =
      .error .unwrap { (fresh Reference.starknet).hashed Reference.call with
        starknetState := ⟨Reference.starknet.newState, true⟩ } ∧
    ¬ AdmissionSound Reference.starknet (fresh Reference.starknet)
      (Reference.request Reference.call) := by
  have hcheck := run_checkTx (passed_iff.mp Reference.passed_call).1 (fresh Reference.starknet)
  have hdeliver : (deliverTx Reference.starknet (Reference.request Reference.call)).run
      (fresh Reference.starknet) = .error .unwrap
        { (fresh Reference.starknet).hashed Reference.call with
          starknetState := ⟨Reference.starknet.newState, true⟩ } := by
    rw [run_deliverTx_passed Reference.passed_call rfl]
    rfl
  refine ⟨hcheck, hdeliver, ?_⟩
  intro h
  obtain ⟨r, app', hrun, -⟩ := h.delivered ⟨0⟩ hcheck rfl _ .refl
  cases hdeliver.symm.trans hrun

end Sequencer
