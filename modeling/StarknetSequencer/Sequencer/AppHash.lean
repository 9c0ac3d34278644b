import StarknetSequencer.Sequencer.Admission
import StarknetSequencer.Sequencer.Reference
import StarknetSequencer.Wire.Segments

namespace Sequencer

open Wire Effect StarknetApp

variable {C S I : Type} (L : Starknet C S I)

def hashMarkers : Markers Char where
  words := ["0x".toList, "Invoked".toList]
  ne_nil := by decide
  apart m hm m' hm' c hc := by
    rw [List.mem_pair] at hm hm'
    have hall : (m.tail.all fun c => m'.head? != some c) = true := by
      rcases hm with rfl | rfl <;> rcases hm' with rfl | rfl <;> decide
    simpa using List.all_eq_true.mp hall c hc

inductive IsHash : List Char → Prop
  | felt (felt : Felt252) : IsHash (hashOf L felt).toList
  | invoke {address function tail hash : String} {inputs : Option (List Int32)} :
    TransactionType.computeAndHash L (.invoke address function inputs) = .ok (.ok hash) →
    sliceFrom 2 address = .ok tail → IsHash hash.toList

inductive Accepted : Transaction → Prop
  | declare {program id : String} {felt : Felt252} {contractClass : C} :
    declared L program = some (felt, contractClass) →
    Accepted ⟨.declare program, hashOf L felt, id⟩
  | deployAccount {classHash id : String} {salt : Int32} {inputs : Option (List Int32)}
    {address : Felt252} : deployed L classHash salt inputs = some address →
    Accepted ⟨.deployAccount classHash salt inputs, hashOf L address, id⟩
  | invoke {address function hash id : String} {inputs : Option (List Int32)} :
    TransactionType.computeAndHash L (.invoke address function inputs) = .ok (.ok hash) →
    Accepted ⟨.invoke address function inputs, hash, id⟩

-- the hash of an Invoke is free text: `Splits` when one of its prefixes is the hash of another
-- Invoke and what follows it starts like one more hash
def Unambiguous (tx : Transaction) : Prop :=
  match tx.transactionType with
  | .declare _ => True
  | .deployAccount classHash _ _ =>
    L.stringToHash classHash = (parseTail L classHash).map L.feltToHash
  | .invoke .. => ¬ hashMarkers.Splits (IsHash L) tx.transactionHash.toList

def declaredFelt (tx : Transaction) : Option Felt252 :=
  match tx.transactionType with
  | .declare program => (declared L program).map Prod.fst
  | _ => none

def deployedAddress (tx : Transaction) : Option Felt252 :=
  match tx.transactionType with
  | .deployAccount classHash salt inputs => deployed L classHash salt inputs
  | _ => none

def accept (blocks : List (List Bytes)) : List Transaction :=
  blocks.flatten.filterMap (passed L)

def Apart (txs txs' : List Transaction) : Prop :=
  ∀ tx ∈ txs, ∀ tx' ∈ txs', ∀ felt, declaredFelt L tx = some felt →
    deployedAddress L tx' ≠ some felt

def TransactionType.writes : TransactionType → Bool
  | .invoke .. => false
  | _ => true

def writes (txs : List Transaction) : List TransactionType :=
  (txs.map Transaction.transactionType).filter TransactionType.writes

structure Legible (txs txs' : List Transaction) : Prop where
  unambiguous : ∀ tx ∈ txs, Unambiguous L tx
  unambiguous' : ∀ tx ∈ txs', Unambiguous L tx
  apart : Apart L txs txs'
  apart' : Apart L txs' txs

variable {L}

theorem hashOf_toList (felt : Felt252) :
    (hashOf L felt).toList = '0' :: 'x' :: hexChars (L.toBytesBe felt) := by
  rw [hashOf, String.toList_append, toList_hexEncode]
  rfl

theorem marked_hex {cs : List Char} (h : ∀ c ∈ cs, ∃ n < 16, c = hexDigit n) :
    ¬ hashMarkers.Marked cs := by
  have hne {c : Char} (hc : c ∈ cs) : c ≠ 'x' ∧ c ≠ 'I' := by
    obtain ⟨n, hn, rfl⟩ := h c hc
    exact hexDigit_ne hn
  rintro ⟨m, hm, hp⟩
  rcases List.mem_cons.mp hm with rfl | hm
  · exact (hne (hp.subset (by decide))).1 rfl
  · rw [List.mem_singleton.mp hm] at hp
    exact (hne (hp.subset (by decide))).2 rfl

theorem accepted_of_passed {request : Bytes} {tx : Transaction}
    (h : passed L request = some tx) : Accepted L tx := by
  obtain ⟨-, hc⟩ := passed_iff.mp h
  obtain ⟨t, hash, id⟩ := tx
  cases t with
  | declare program =>
    obtain ⟨felt, c, hd, rfl⟩ := computeAndHash_declare.mp hc
    exact .declare hd
  | deployAccount classHash salt inputs =>
    obtain ⟨address, hd, rfl⟩ := computeAndHash_deployAccount.mp hc
    exact .deployAccount hd
  | invoke address function inputs => exact .invoke hc

theorem invoke_hash {address function hash : String} {inputs : Option (List Int32)}
    (h : TransactionType.computeAndHash L (.invoke address function inputs) = .ok (.ok hash)) :
    "Invoked".toList <+: hash.toList := by
  rw [← Except.ok.inj (Except.ok.inj h)]
  simp only [String.toList_append, List.append_assoc]
  exact (by decide : "Invoked".toList <+: "Invoked ".toList).trans (List.prefix_append _ _)

theorem isHash_marked (s : List Char) (h : IsHash L s) : hashMarkers.Marked s := by
  cases h with
  | felt felt =>
    rw [hashOf_toList]
    exact ⟨"0x".toList, by decide, ⟨hexChars (L.toBytesBe felt), rfl⟩⟩
  | invoke hc hs => exact ⟨"Invoked".toList, by decide, invoke_hash hc⟩

theorem hashOf_not_splits (felt : Felt252) :
    ¬ hashMarkers.Splits (IsHash L) (hashOf L felt).toList := by
  rintro ⟨t, w, ht, hw, h⟩
  rw [hashOf_toList] at h
  obtain ⟨m, hm, r, rfl⟩ := isHash_marked t ht
  rcases List.mem_cons.mp hm with rfl | hm
  · rw [List.append_assoc] at h
    have hsplit : hexChars (L.toBytesBe felt) = r ++ w := (List.cons.inj (List.cons.inj h).2).2
    have hdigits : ∀ c ∈ w, ∃ n < 16, c = hexDigit n := by
      intro c hc
      have hmem : c ∈ hexChars (L.toBytesBe felt) := hsplit ▸ List.mem_append_right r hc
      exact hexChars_digits hmem
    exact marked_hex hdigits hw
  · rw [List.mem_singleton.mp hm] at h
    cases h

theorem isHash_of_delivers {tx : Transaction} {s t : S} (ha : Accepted L tx)
    (h : Delivers L tx.transactionType s t) : IsHash L tx.transactionHash.toList := by
  cases ha with
  | declare hd => exact .felt _
  | deployAccount hd => exact .felt _
  | invoke hc =>
    cases h with
    | unparsable hs hf => exact .invoke hc hs
    | invoke hs hf hx => exact .invoke hc hs

theorem not_splits {tx : Transaction} (ha : Accepted L tx) (hu : Unambiguous L tx) :
    ¬ hashMarkers.Splits (IsHash L) tx.transactionHash.toList := by
  cases ha with
  | declare hd => exact hashOf_not_splits _
  | deployAccount hd => exact hashOf_not_splits _
  | invoke hc => exact hu

theorem hashOf_inj (hF : L.FeltLaws) {felt felt' : Felt252} (h : hashOf L felt = hashOf L felt') :
    felt = felt' := by
  apply hF.hexEncode_inj
  have hl := congrArg String.toList h
  rw [hashOf_toList, hashOf_toList] at hl
  apply String.toList_inj.mp
  rw [toList_hexEncode, toList_hexEncode]
  exact (List.cons.inj (List.cons.inj hl).2).2

theorem invoke_hash_ne {address function hash : String} {inputs : Option (List Int32)}
    (h : TransactionType.computeAndHash L (.invoke address function inputs) = .ok (.ok hash))
    (felt : Felt252) : hash ≠ hashOf L felt := by
  rintro rfl
  have hp := invoke_hash h
  rw [hashOf_toList] at hp
  exact absurd (List.cons_prefix_cons.mp hp).1 (by decide)

theorem flatten_utf8_inj {ss ts : List String} (h : (ss.map utf8).flatten = (ts.map utf8).flatten) :
    (ss.map String.toList).flatten = (ts.map String.toList).flatten := by
  have hjoin (ss : List String) :
      (ss.map utf8).flatten = utf8 (String.ofList (ss.map String.toList).flatten) := by
    induction ss with
    | nil => rfl
    | cons s ss ih =>
      rw [List.map_cons, List.flatten_cons, ih, List.map_cons, List.flatten_cons,
        String.ofList_append, utf8_append, String.ofList_toList]
  rw [hjoin, hjoin] at h
  have hs := congrArg String.toList (utf8_inj h)
  rwa [String.toList_ofList, String.toList_ofList] at hs

theorem parseTail_eq (hH : L.HashLaws) {classHash classHash' : String} {salt salt' : Int32}
    {inputs inputs' : Option (List Int32)} {address : Felt252}
    (h : deployed L classHash salt inputs = some address)
    (h' : deployed L classHash' salt' inputs' = some address) :
    parseTail L classHash = parseTail L classHash' := by
  obtain ⟨felt, hf, ha⟩ := Option.bind_eq_some_iff.mp h
  obtain ⟨felt', hf', ha'⟩ := Option.bind_eq_some_iff.mp h'
  obtain ⟨-, hfelt, -⟩ := hH.calculateContractAddress_inj (toOption_eq_some.mp ha)
    (toOption_eq_some.mp ha')
  rw [hf, hf', hfelt]

section Laws

variable (hF : L.FeltLaws) (hH : L.HashLaws)

include hF hH

theorem effect_eq {tx tx' : Transaction} (ha : Accepted L tx) (ha' : Accepted L tx')
    (hu : Unambiguous L tx) (hu' : Unambiguous L tx')
    (hne : ∀ felt, declaredFelt L tx = some felt → deployedAddress L tx' ≠ some felt)
    (hne' : ∀ felt, declaredFelt L tx' = some felt → deployedAddress L tx ≠ some felt)
    (h : tx.transactionHash = tx'.transactionHash) (l : Ledger C) :
    effect L tx.transactionType l = effect L tx'.transactionType l := by
  cases ha with
  | @declare program id felt c hd =>
    have hfelt : declaredFelt L ⟨.declare program, hashOf L felt, id⟩ = some felt := by
      simp only [declaredFelt, hd, Option.map_some]
    cases ha' with
    | declare hd' =>
      cases hashOf_inj hF h
      have hclass := hH.computeClassHash_inj (declared_iff.mp hd).2 (declared_iff.mp hd').2
      rw [effect, effect, hd, hd', hclass]
    | deployAccount hd' =>
      cases hashOf_inj hF h
      exact absurd hd' (hne felt hfelt)
    | invoke hc' => exact absurd h.symm (invoke_hash_ne hc' felt)
  | @deployAccount classHash id salt inputs address hd =>
    cases ha' with
    | @declare program id' felt c hd' =>
      cases hashOf_inj hF h
      have hfelt : declaredFelt L ⟨.declare program, hashOf L address, id'⟩ = some address := by
        simp only [declaredFelt, hd', Option.map_some]
      exact absurd hd (hne' address hfelt)
    | deployAccount hd' =>
      cases hashOf_inj hF h
      have htail := parseTail_eq hH hd hd'
      change L.stringToHash classHash = _ at hu
      change L.stringToHash _ = _ at hu'
      simp only [effect, hd, hd', hu, hu', htail]
    | invoke hc' => exact absurd h.symm (invoke_hash_ne hc' address)
  | invoke hc =>
    cases ha' with
    | @declare program id felt c hd' => exact absurd h (invoke_hash_ne hc felt)
    | @deployAccount classHash id salt inputs address hd' =>
      exact absurd h (invoke_hash_ne hc address)
    | invoke hc' => rfl

theorem foldl_effect_eq {txs txs' : List Transaction}
    (h : txs.map Transaction.transactionHash = txs'.map Transaction.transactionHash)
    (ht : ∀ tx ∈ txs, Accepted L tx ∧ Unambiguous L tx)
    (ht' : ∀ tx ∈ txs', Accepted L tx ∧ Unambiguous L tx)
    (ha : Apart L txs txs') (ha' : Apart L txs' txs) (l : Ledger C) :
    txs.foldl (fun l tx => effect L tx.transactionType l) l =
      txs'.foldl (fun l tx => effect L tx.transactionType l) l := by
  induction txs generalizing txs' l with
  | nil =>
    cases txs' with
    | nil => rfl
    | cons tx' txs' => cases h
  | cons tx txs ih =>
    cases txs' with
    | nil => cases h
    | cons tx' txs' =>
      obtain ⟨hhash, hrest⟩ := List.cons.inj h
      obtain ⟨hA, hu⟩ := ht tx (List.mem_cons_self ..)
      obtain ⟨hA', hu'⟩ := ht' tx' (List.mem_cons_self ..)
      have hstep := effect_eq hF hH hA hA' hu hu' (ha tx (by simp) tx' (by simp))
        (ha' tx' (by simp) tx (by simp)) hhash l
      rw [List.foldl_cons, List.foldl_cons, hstep]
      apply ih hrest
      · exact fun tx htx => ht tx (List.mem_cons_of_mem _ htx)
      · exact fun tx htx => ht' tx (List.mem_cons_of_mem _ htx)
      · exact fun tx htx tx' htx' => ha tx (List.mem_cons_of_mem _ htx) tx'
          (List.mem_cons_of_mem _ htx')
      · exact fun tx htx tx' htx' => ha' tx (List.mem_cons_of_mem _ htx) tx'
          (List.mem_cons_of_mem _ htx')

end Laws

theorem foldl_effect_writes (txs : List Transaction) (l : Ledger C) :
    txs.foldl (fun l tx => effect L tx.transactionType l) l =
      (writes txs).foldl (fun l t => effect L t l) l := by
  induction txs generalizing l with
  | nil => rfl
  | cons tx txs ih =>
    rw [List.foldl_cons, ih, writes, writes, List.map_cons]
    cases ht : tx.transactionType with
    | declare program => rfl
    | deployAccount classHash salt inputs => rfl
    | invoke address function inputs => rfl

theorem last_commit (hL : L.StateLaws) {heightFile : Option Bytes} {blocks : List (List Bytes)}
    {results : List (List ResponseDeliverTx × ResponseCommit)}
    {result : List ResponseDeliverTx × ResponseCommit} {app app' : StarknetApp S}
    (hnew : StarknetApp.new L heightFile = .ok app)
    (hrun : (deliverBlocks L blocks).run app = .ok results app')
    (hlast : results.getLast? = some result) :
    result.2.data =
        L.sha256 ((accept L blocks).map fun tx => utf8 tx.transactionHash).flatten ∧
      L.ledger app'.starknetState.data =
        (accept L blocks).foldl (fun l tx => effect L tx.transactionType l)
          (L.ledger L.newState) := by
  obtain ⟨height, ha⟩ := (new_running hnew).atHeight
  obtain ⟨-, hc, hd⟩ := deliverBlocks_ok hL (new_healthy hnew) ha hrun
  rw [new_chain hnew] at hc hd
  have hne : blocks ≠ [] := by
    rintro rfl
    cases run_mapM_nil.symm.trans hrun
    cases hlast
  have hdata := congrArg List.getLast? hd
  rw [List.getLast?_map, hlast, appHashes_getLast? _ hne, Chain.deliverAll_eq,
    Chain.foldl_apply_stream] at hdata
  have hledger := congrArg Chain.ledger hc
  rw [Chain.deliverAll_eq, Chain.foldl_apply_ledger] at hledger
  exact ⟨Option.some.inj hdata, hledger⟩

theorem accepted_hashes (hL : L.StateLaws) {heightFile : Option Bytes}
    {blocks : List (List Bytes)} {results : List (List ResponseDeliverTx × ResponseCommit)}
    {app app' : StarknetApp S} (hnew : StarknetApp.new L heightFile = .ok app)
    (hrun : (deliverBlocks L blocks).run app = .ok results app') :
    ∀ tx ∈ accept L blocks, Accepted L tx ∧ IsHash L tx.transactionHash.toList := by
  obtain ⟨height, ha⟩ := (new_running hnew).atHeight
  intro tx htx
  obtain ⟨request, hr, hp⟩ := List.mem_filterMap.mp htx
  obtain ⟨s, t, hD⟩ := deliverBlocks_delivers hL (new_healthy hnew) ha hrun request hr tx hp
  exact ⟨accepted_of_passed hp, isHash_of_delivers (accepted_of_passed hp) hD⟩

theorem unambiguous_hashes {txs : List Transaction}
    (hacc : ∀ tx ∈ txs, Accepted L tx ∧ IsHash L tx.transactionHash.toList)
    (hu : ∀ tx ∈ txs, Unambiguous L tx) :
    ∀ t ∈ (txs.map Transaction.transactionHash).map String.toList,
      IsHash L t ∧ ¬ hashMarkers.Splits (IsHash L) t := by
  intro t ht
  obtain ⟨hash, hhash, rfl⟩ := List.mem_map.mp ht
  obtain ⟨tx, htx, rfl⟩ := List.mem_map.mp hhash
  exact ⟨(hacc tx htx).2, not_splits (hacc tx htx).1 (hu tx htx)⟩

theorem hashes_eq {txs txs' : List Transaction}
    (hacc : ∀ tx ∈ txs, Accepted L tx ∧ IsHash L tx.transactionHash.toList)
    (hacc' : ∀ tx ∈ txs', Accepted L tx ∧ IsHash L tx.transactionHash.toList)
    (hlegible : Legible L txs txs')
    (h : (txs.map fun tx => utf8 tx.transactionHash).flatten =
      (txs'.map fun tx => utf8 tx.transactionHash).flatten) :
    txs.map Transaction.transactionHash = txs'.map Transaction.transactionHash := by
  have hmap (txs : List Transaction) : (txs.map fun tx => utf8 tx.transactionHash) =
      (txs.map Transaction.transactionHash).map utf8 := by
    rw [List.map_map]
    rfl
  rw [hmap, hmap] at h
  have htokens := Markers.flatten_inj isHash_marked
    (unambiguous_hashes hacc hlegible.unambiguous)
    (unambiguous_hashes hacc' hlegible.unambiguous') (flatten_utf8_inj h)
  exact List.map_injective_iff.mpr (fun _ _ h => String.toList_inj.mp h) htokens

theorem app_hash_binds_state (hF : L.FeltLaws) (hL : L.StateLaws) (hH : L.HashLaws)
    {heightFile heightFile' : Option Bytes} {blocks blocks' : List (List Bytes)}
    {results results' : List (List ResponseDeliverTx × ResponseCommit)}
    {result result' : List ResponseDeliverTx × ResponseCommit}
    {app₀ app₀' app app' : StarknetApp S}
    (hnew : StarknetApp.new L heightFile = .ok app₀)
    (hnew' : StarknetApp.new L heightFile' = .ok app₀')
    (hrun : (deliverBlocks L blocks).run app₀ = .ok results app)
    (hrun' : (deliverBlocks L blocks').run app₀' = .ok results' app')
    (hlast : results.getLast? = some result) (hlast' : results'.getLast? = some result')
    (hdata : result.2.data = result'.2.data)
    (hcondition : writes (accept L blocks) = writes (accept L blocks') ∨
      Legible L (accept L blocks) (accept L blocks')) :
    L.Same app.starknetState.data app'.starknetState.data := by
  obtain ⟨hd, hl⟩ := last_commit hL hnew hrun hlast
  obtain ⟨hd', hl'⟩ := last_commit hL hnew' hrun' hlast'
  rw [Starknet.same_iff, hl, hl']
  rcases hcondition with hwrites | hlegible
  · rw [foldl_effect_writes, foldl_effect_writes, hwrites]
  · have hacc := accepted_hashes hL hnew hrun
    have hacc' := accepted_hashes hL hnew' hrun'
    rw [hd, hd'] at hdata
    have hhashes := hashes_eq hacc hacc' hlegible (hH.sha256_inj hdata)
    symm
    apply foldl_effect_eq hF hH hhashes
    · exact fun tx htx => ⟨(hacc tx htx).1, hlegible.unambiguous tx htx⟩
    · exact fun tx htx => ⟨(hacc' tx htx).1, hlegible.unambiguous' tx htx⟩
    · exact hlegible.apart
    · exact hlegible.apart'

namespace Reference

def smuggled : Transaction := invocation "0xzz0x05"

theorem passed_smuggled : passed starknet (request smuggled) = some smuggled :=
  passed_invocation (by decide) (by decide)

theorem run_smuggled : (deliverTxs starknet [request smuggled]).run (fresh starknet) =
    .ok [accepted smuggled] ((fresh starknet).hashed smuggled) :=
  run_mapM_singleton.mpr ⟨_, run_deliverTx_unparsable passed_smuggled rfl rfl rfl rfl, rfl⟩

theorem run_strayDeclaration :
    (deliverTxs starknet [request stray, request declaration]).run (fresh starknet) =
      .ok [accepted stray, accepted declaration]
        { ((fresh starknet).hashed stray).hashed declaration with
          starknetState := ⟨starknet.newState.declare (feltToHash 5) 5, false⟩ } := by
  have hsecond : (deliverTxs starknet [request declaration]).run ((fresh starknet).hashed stray) =
      .ok [accepted declaration] _ := run_mapM_singleton.mpr ⟨_, run_declaration rfl rfl, rfl⟩
  exact run_mapM_cons.mpr ⟨_, _, _, run_stray rfl, hsecond, rfl⟩

theorem run_declarationBlock : (deliverTxs starknet [request declaration]).run (fresh starknet) =
    .ok [accepted declaration] declaredApp :=
  run_mapM_singleton.mpr ⟨_, run_declaredApp, rfl⟩

def emptyApp : StarknetApp Cache :=
  { fresh starknet with heightFile := some (HeightFile.encode 1) }

def lateApp : StarknetApp Cache :=
  { declaredApp with heightFile := some (HeightFile.encode 2) }

theorem run_lateDeclaration :
    (deliverBlocks starknet [[], [request declaration]]).run (fresh starknet) =
      .ok [([], ⟨[], 0⟩), ([accepted declaration], ⟨utf8 declaration.transactionHash, 0⟩)]
        lateApp := by
  have hempty : (deliverBlock starknet []).run (fresh starknet) =
      .ok ([], ⟨[], 0⟩) emptyApp := run_block_nil rfl fresh_atHeight
  have hd : (deliverTxs starknet [request declaration]).run { emptyApp with transactions := 0 } =
      .ok [accepted declaration] { declaredApp with heightFile := some (HeightFile.encode 1) } :=
    run_mapM_singleton.mpr ⟨_, run_declaration rfl rfl, rfl⟩
  have hblock := run_deliverBlock hd rfl ⟨_, rfl, HeightFile.decode_encode 1⟩
  exact run_mapM_cons.mpr ⟨_, _, _, hempty, run_mapM_singleton.mpr ⟨_, hblock, rfl⟩, rfl⟩

theorem accept_declaration : accept starknet [[request declaration]] = [declaration] := by
  simp [accept, passed_declaration]

theorem accept_lateDeclaration :
    accept starknet [[], [request declaration]] = [declaration] := by
  simp [accept, passed_declaration]

theorem declaration_unambiguous : ∀ tx ∈ [declaration], Unambiguous starknet tx := by
  intro tx htx
  cases List.mem_singleton.mp htx
  exact trivial

theorem declaration_apart : Apart starknet [declaration] [declaration] := by
  intro tx _ tx' htx'
  cases List.mem_singleton.mp htx'
  simp [deployedAddress, declaration]

end Reference

theorem app_hash_binds_state_declaration :
    Reference.starknet.Same Reference.declaredApp.starknetState.data
      Reference.lateApp.starknetState.data := by
  have hrun := Reference.run_oneBlock Reference.run_declarationBlock rfl rfl
  apply app_hash_binds_state Reference.feltLaws Reference.stateLaws Reference.hashLaws
    new_missing new_missing hrun Reference.run_lateDeclaration rfl rfl rfl
  rw [Reference.accept_declaration, Reference.accept_lateDeclaration]
  right
  constructor
  · exact Reference.declaration_unambiguous
  · exact Reference.declaration_unambiguous
  · exact Reference.declaration_apart
  · exact Reference.declaration_apart

theorem same_hash_different_state :
    ∃ results results' result result' app app',
      (deliverBlocks Reference.starknet
        [[Reference.request Reference.stray, Reference.request Reference.declaration]]).run
          (fresh Reference.starknet) = .ok results app ∧
      (deliverBlocks Reference.starknet [[Reference.request Reference.smuggled]]).run
        (fresh Reference.starknet) = .ok results' app' ∧
      results.getLast? = some result ∧ results'.getLast? = some result' ∧
      result.2.data = result'.2.data ∧
      ¬ Reference.starknet.Same app.starknetState.data app'.starknetState.data := by
  refine ⟨_, _, _, _, _, _, Reference.run_oneBlock Reference.run_strayDeclaration rfl rfl,
    Reference.run_oneBlock Reference.run_smuggled rfl rfl, rfl, rfl, ?_, ?_⟩
  · change utf8 Reference.stray.transactionHash ++ utf8 Reference.declaration.transactionHash =
      utf8 Reference.smuggled.transactionHash
    rw [← utf8_append]
    exact congrArg utf8 (by decide)
  · intro h
    have hclass := congrFun h.classes (Reference.feltToHash 5)
    simp [Reference.classAt_eq, Reference.Cache.declare] at hclass
    cases hclass

end Sequencer
