import StarknetSequencer.Sequencer.Lifecycle

namespace Sequencer

open Wire Effect StarknetApp

variable {C S I : Type} (L : Starknet C S I)

def Adds (s t : S) (address : Felt252) (hash : ClassHash) : Prop :=
  L.classHashAt s address ≠ .ok hash ∧ L.classHashAt t address = .ok hash

-- `hash` is the felt that the address was computed from, in 32 bytes
structure SameClass (classHash : String) (salt : Int32) (inputs : Option (List Int32))
    (address : Felt252) (hash : ClassHash) (felt : Felt252) : Prop where
  parsed : parseTail L classHash = some felt
  derived : L.calculateContractAddress (L.fromI32 salt) felt (calldata L inputs) 0 = .ok address
  stored : hash = L.feltToHash felt

def Prefixed (classHash : String) : Prop :=
  "0x".toList <+: classHash.toList ∨ "00".toList <+: classHash.toList

instance (classHash : String) : Decidable (Prefixed classHash) :=
  inferInstanceAs (Decidable (_ ∨ _))

variable {L}

theorem prefixed_ox {classHash : String} (h : "0x".toList <+: classHash.toList) :
    ∃ tail, classHash = "0x" ++ tail := by
  obtain ⟨cs, hcs⟩ := h
  refine ⟨String.ofList cs, String.toList_inj.mp ?_⟩
  rw [String.toList_append, ← hcs]
  exact congrArg ("0x".toList ++ ·) String.toList_ofList.symm

theorem sliceFrom_ascii {s tail : String} {a b : Char} {cs : List Char}
    (hs : s.toList = a :: b :: cs) (ha : a.utf8Size = 1) (hb : b.utf8Size = 1)
    (h : sliceFrom 2 s = .ok tail) : tail.toList = cs := by
  have hd : dropBytes 2 s.toList = some cs := by
    rw [hs]
    simp only [dropBytes, ha, hb]
    cases cs <;> rfl
  rw [sliceFrom, hd] at h
  cases h
  exact String.toList_ofList

theorem two_chars {s tail : String} {n : Nat} (hn : hexNumber s.toList = some n)
    (h : sliceFrom 2 s = .ok tail) :
    ∃ a, a.utf8Size = 1 ∧ ∃ b cs, s.toList = a :: b :: cs := by
  cases hl : s.toList with
  | nil =>
    rw [hl] at hn
    cases hn
  | cons a rest =>
    rw [hl] at hn
    obtain ⟨x, hx, -⟩ := Option.bind_eq_some_iff.mp hn
    have ha := (digitValue_some hx).2.1
    cases rest with
    | nil =>
      have hd : dropBytes 2 s.toList = none := by
        rw [hl]
        simp only [dropBytes, ha]
        rfl
      rw [sliceFrom, hd] at h
      cases h
    | cons b cs => exact ⟨a, ha, b, cs, rfl⟩

section Laws

variable (hF : L.FeltLaws) (hR : L.RadixLaws)

include hF

theorem feltToHash_inj {f g : Felt252} (h : L.feltToHash f = L.feltToHash g) : f = g := by
  have hf := hF.feltToHash_value f
  rw [h, hF.feltToHash_value g] at hf
  exact Fin.ext hf.symm

include hR

theorem fromStrRadix16_some {s : String} {f : Felt252} (h : L.fromStrRadix16 s = .ok f) :
    ∃ n, hexNumber s.toList = some n ∧ f = Fin.ofNat feltPrime n := by
  obtain ⟨n, hn⟩ := hR.fromStrRadix16_only h
  refine ⟨n, hn, ?_⟩
  rw [hF.fromStrRadix16_hex hn] at h
  exact (Except.ok.inj h).symm

-- without the prefix the first two digits count for the stored hash and not for the address
theorem parse_plain_iff {classHash tail : String} {felt whole : Felt252}
    (hx : ¬ "0x".toList <+: classHash.toList) (ht : sliceFrom 2 classHash = .ok tail)
    (hf : L.fromStrRadix16 tail = .ok felt) (hw : L.fromStrRadix16 classHash = .ok whole) :
    whole = felt ↔ Prefixed classHash := by
  obtain ⟨m, hm, rfl⟩ := fromStrRadix16_some hF hR hf
  obtain ⟨n, hn, rfl⟩ := fromStrRadix16_some hF hR hw
  obtain ⟨a, ha, b, cs, hl⟩ : ∃ a, a.utf8Size = 1 ∧ ∃ b cs, classHash.toList = a :: b :: cs :=
    two_chars hn ht
  rw [hl] at hn
  obtain ⟨x, y, k, hx', hy', hk, rfl⟩ := hexNumber_cons_cons hn
  obtain ⟨hxlt, -, hxzero⟩ := digitValue_some hx'
  obtain ⟨hylt, hb, hyzero⟩ := digitValue_some hy'
  have htail := sliceFrom_ascii hl ha hb ht
  rw [htail] at hm
  cases hk.symm.trans (hexNumber_eq_some.mp hm).2
  have hvalue : Fin.ofNat feltPrime ((16 * x + y) * 16 ^ cs.length + m) = Fin.ofNat feltPrime m ↔
      16 * x + y = 0 := by
    rw [← mul_pow_sixteen_modEq (by decide : Nat.Coprime 16 feltPrime)
      (lt_trans (by omega : 16 * x + y < 256) (by decide)), Fin.ext_iff]
    rfl
  rw [hvalue, Prefixed, hl]
  constructor
  · intro hzero
    rw [hxzero (by omega), hyzero (by omega)]
    exact .inr ⟨cs, rfl⟩
  · rintro (hp | hp)
    · rw [hl] at hx
      exact absurd hp hx
    · have hzeros : ['0', '0'] <+: a :: b :: cs := hp
      obtain ⟨rfl, hrest⟩ := List.cons_prefix_cons.mp hzeros
      obtain ⟨rfl, -⟩ := List.cons_prefix_cons.mp hrest
      cases hx'.symm.trans (by decide : digitValue '0' = some 0)
      cases hy'.symm.trans (by decide : digitValue '0' = some 0)
      rfl

theorem stored_eq_iff {classHash : String} {felt : Felt252} {hash : ClassHash}
    (hf : parseTail L classHash = some felt) (hh : L.stringToHash classHash = some hash) :
    hash = L.feltToHash felt ↔ Prefixed classHash := by
  by_cases hx : "0x".toList <+: classHash.toList
  · obtain ⟨tail, rfl⟩ := prefixed_ox hx
    rw [parseTail, sliceFrom_prefixed] at hf
    have hf' : (L.fromStrRadix16 tail).toOption = some felt := hf
    rw [hF.stringToHash_prefixed, hf'] at hh
    cases hh
    exact iff_of_true rfl (.inl hx)
  · obtain ⟨tail, ht, hf⟩ := Option.bind_eq_some_iff.mp hf
    rw [hF.stringToHash_plain _ hx] at hh
    obtain ⟨whole, hw, rfl⟩ := Option.map_eq_some_iff.mp hh
    rw [← parse_plain_iff hF hR hx (toOption_eq_some.mp ht) (toOption_eq_some.mp hf)
      (toOption_eq_some.mp hw)]
    exact ⟨feltToHash_inj hF, congrArg L.feltToHash⟩

end Laws

theorem adds_deployContract (hL : L.StateLaws) {a address : Felt252} {h hash : ClassHash} {s : S}
    (hadd : Adds L s (final ((L.deployContract a h).run s)) address hash) :
    address = a ∧ hash = h := by
  by_cases hfree : a ≠ 0 ∧ L.Vacant s a
  · obtain ⟨t, ht, hat, -⟩ := hL.deployContract_free a h s hfree.1 hfree.2
    rw [ht, final_ok, Adds, hat] at hadd
    rcases eq_or_ne address a with rfl | hne
    · rw [Function.update_self] at hadd
      exact ⟨rfl, (Except.ok.inj hadd.2).symm⟩
    · rw [Function.update_of_ne hne] at hadd
      exact absurd hadd.2 hadd.1
  · obtain ⟨e, t, ht, hsame⟩ := hL.deployContract_taken a h s hfree
    rw [ht, final_error, Adds, hsame.contracts] at hadd
    exact absurd hadd.2 hadd.1

theorem withState_poisoned_deploy {classHash : String} {salt : Int32}
    {inputs : Option (List Int32)} {app app' : StarknetApp S}
    (hs : app.starknetState.poisoned = true)
    (h : (deliver L (.deployAccount classHash salt inputs)).run app = .ok () app') :
    app'.starknetState = app.starknetState := by
  rw [deliver, deliverDeployAccount] at h
  obtain ⟨tail, app₁, htail, hrest⟩ := run_bind_ok.mp h
  obtain ⟨felt, app₂, hfelt, hrest⟩ := run_bind_ok.mp hrest
  obtain ⟨address, app₃, haddress, hrest⟩ := run_bind_ok.mp hrest
  obtain ⟨done, app₄, hdone, hrest⟩ := run_bind_ok.mp hrest
  obtain ⟨txHash, app₅, hx, hunit⟩ := run_bind_ok.mp hrest
  obtain ⟨-, rfl⟩ := run_lift_eq_ok.mp htail
  obtain ⟨-, rfl⟩ := run_lift_eq_ok.mp hfelt
  obtain ⟨-, rfl⟩ := run_lift_eq_ok.mp haddress
  cases (run_withState_poisoned _ hs).symm.trans hdone
  obtain ⟨-, rfl⟩ := run_lift_eq_ok.mp hx
  cases hunit
  rfl

theorem class_hash_agrees_iff (hF : L.FeltLaws) (hR : L.RadixLaws) (hL : L.StateLaws)
    {classHash uuid : String} {salt : Int32} {inputs : Option (List Int32)} {tx : Transaction}
    {request : Bytes} {r : ResponseDeliverTx} {app app' : StarknetApp S} {address : Felt252}
    {hash : ClassHash}
    (htx : Transaction.withType L (.deployAccount classHash salt inputs) uuid = .ok (.ok tx))
    (hrequest : transactionCodec.deserialize request = some tx)
    (hrun : (deliverTx L request).run app = .ok r app')
    (hadd : Adds L app.starknetState.data app'.starknetState.data address hash) :
    tx.transactionHash = hashOf L address ∧
      ((∃ felt, SameClass L classHash salt inputs address hash felt) ↔ Prefixed classHash) := by
  obtain ⟨hc, ht, -⟩ := withType_ok.mp htx
  have hp : passed L request = some tx := passed_iff.mpr ⟨hrequest, by rw [ht, hc]⟩
  obtain ⟨-, app₁, happ, hd⟩ := deliver_of_passed hp hrun
  rw [ht] at hd
  rw [← happ] at hadd
  obtain ⟨derived, hderived, hhash⟩ := computeAndHash_deployAccount.mp hc
  cases hs : app₁.starknetState.poisoned with
  | true =>
    rw [withState_poisoned_deploy hs hd] at hadd
    exact absurd hadd.2 hadd.1
  | false =>
    obtain ⟨t, hD, rfl⟩ := (deliverDeployAccount_iff hderived hs).mp hd
    cases hD with
    | @deployAccount _ _ _ address' txHash hash' _ hd' hh hx =>
      cases hderived.symm.trans hd'
      obtain ⟨rfl, rfl⟩ := adds_deployContract hL hadd
      refine ⟨hhash, ?_⟩
      obtain ⟨felt, hfelt, ha⟩ := Option.bind_eq_some_iff.mp hderived
      rw [← stored_eq_iff hF hR hfelt hh]
      constructor
      · rintro ⟨felt', hsame⟩
        cases hfelt.symm.trans hsame.parsed
        exact hsame.stored
      · exact fun hstored => ⟨felt, hfelt, toOption_eq_some.mp ha, hstored⟩

namespace Reference

-- no prefix, so the address is that of class 0x05 and the stored hash that of 0xab05
def bare : Transaction := ⟨.deployAccount "ab05" 0 none, "0x06", "1"⟩

theorem passed_bare : passed starknet (request bare) = some bare := by
  apply passed_request
  · exact ⟨by decide, by simp [inputsSized]⟩
  · decide
  · decide
  · rfl

def bareApp : StarknetApp Cache :=
  { (fresh starknet).hashed bare with
    starknetState := ⟨starknet.newState.deploy 6 (feltToHash 0xab05), false⟩ }

theorem run_bare : (deliverTx starknet (request bare)).run (fresh starknet) =
    .ok (accepted bare) bareApp :=
  run_deploy passed_bare rfl rfl rfl (by decide) rfl rfl rfl

theorem adds_deploy {s : Cache} {address : Felt252} {hash : ClassHash}
    (h : s.contracts address = none) : Adds starknet s (s.deploy address hash) address hash := by
  rw [Adds, classHashAt_eq, classHashAt_eq, h]
  simp [Cache.deploy]

end Reference

theorem class_hash_agrees_iff_deployment :
    Reference.deployment.transactionHash = hashOf Reference.starknet 6 ∧
      ((∃ felt, SameClass Reference.starknet "0x05" 0 none 6 (Reference.feltToHash 5) felt) ↔
        Prefixed "0x05") := by
  have htx : Transaction.withType Reference.starknet (.deployAccount "0x05" 0 none) "1" =
      .ok (.ok Reference.deployment) := rfl
  have hadd : Adds Reference.starknet Reference.declaredApp.starknetState.data
      Reference.deployedApp.starknetState.data 6 (Reference.feltToHash 5) :=
    Reference.adds_deploy rfl
  exact class_hash_agrees_iff Reference.feltLaws Reference.radixLaws Reference.stateLaws htx
    (passed_iff.mp Reference.passed_deployment).1 Reference.run_deployedApp hadd

theorem bare_class_hash_stored_whole :
    Transaction.withType Reference.starknet (.deployAccount "ab05" 0 none) "1" =
      .ok (.ok Reference.bare) ∧
    (deliverTx Reference.starknet (Reference.request Reference.bare)).run
      (fresh Reference.starknet) = .ok (accepted Reference.bare) Reference.bareApp ∧
    Adds Reference.starknet Reference.starknet.newState Reference.bareApp.starknetState.data 6
      (Reference.feltToHash 0xab05) ∧
    ¬ ∃ felt, SameClass Reference.starknet "ab05" 0 none 6 (Reference.feltToHash 0xab05) felt := by
  refine ⟨rfl, Reference.run_bare, Reference.adds_deploy rfl, ?_⟩
  rintro ⟨felt, hsame⟩
  have hfelt : parseTail Reference.starknet "ab05" = some 5 := rfl
  cases hfelt.symm.trans hsame.parsed
  exact absurd (feltToHash_inj Reference.feltLaws hsame.stored) (by decide)

end Sequencer
