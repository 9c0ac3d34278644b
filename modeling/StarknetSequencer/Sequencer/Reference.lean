import StarknetSequencer.Sequencer.Block
import Mathlib.Algebra.Group.Fin.Basic

namespace Sequencer.Reference

open Wire Effect StarknetApp

-- a contract class is named by its own hash and every contract counts how often it was run
structure Cache where
  classes : ClassHash → Option Felt252
  contracts : Felt252 → Option ClassHash
  counter : Nat

def parse (digits : List Char) : Except String Felt252 :=
  match hexNumber digits with
  | some n => .ok (Fin.ofNat feltPrime n)
  | none => .error "invalid digit found in string"

def padded (felt : Felt252) : Bytes := (toBytes 32 felt.val).reverse

def toBytesBe (felt : Felt252) : Bytes :=
  match (padded felt).dropWhile (· = 0) with
  | [] => [0]
  | b :: bs => b :: bs

def feltToHash (felt : Felt252) : ClassHash :=
  ⟨(padded felt).toArray, by simp [padded]⟩

def stringToHash (hash : String) : Option ClassHash :=
  let digits := if "0x".toList <+: hash.toList then hash.toList.drop 2 else hash.toList
  (parse digits).toOption.map feltToHash

def calculateContractAddress (salt classHash : Felt252) (constructorCalldata : List Felt252)
    (deployerAddress : Felt252) : Except String Felt252 :=
  if salt = 0 ∧ constructorCalldata = [] ∧ deployerAddress = 0 then .ok (classHash + 1)
  else .error "no address"

def setContractClass (hash : ClassHash) (contractClass : Felt252) : EStateM String Cache Unit :=
  modify fun s => { s with classes := Function.update s.classes hash (some contractClass) }

def getClassHashAt (address : Felt252) : EStateM String Cache ClassHash := do
  match (← get).contracts address with
  | some hash => return hash
  | none => throw "contract not found"

def getContractClass (hash : ClassHash) : EStateM String Cache Felt252 := do
  match (← get).classes hash with
  | some contractClass => return contractClass
  | none => throw "contract class not found"

def deployContract (address : Felt252) (hash : ClassHash) : EStateM String Cache Unit := do
  let s ← get
  if address ≠ 0 ∧ (s.contracts address).all (· = uninitialized) then
    set { s with contracts := Function.update s.contracts address (some hash) }
  else throw "contract address unavailable"

def execute (_ : ExecutionEntryPoint) (_ : TransactionExecutionContext) :
    EStateM String Cache Nat := do
  let s ← get
  set { s with counter := s.counter + 1 }
  return s.counter

def starknet : Starknet Felt252 Cache Nat where
  contractClassTryFrom program := parse program.toList
  computeClassHash contractClass := .ok contractClass
  calculateContractAddress := calculateContractAddress
  calculateDeployTransactionHash _ address _ _ := .ok address
  calculateSnKeccak bytes := bytes
  fromStrRadix16 digits := parse digits.toList
  toBytesBe := toBytesBe
  fromBytesBe bytes := Fin.ofNat feltPrime (bigEndian bytes)
  fromI32 n := Fin.ofNat feltPrime (n.toInt % feltPrime).toNat
  feltToHash := feltToHash
  stringToHash := stringToHash
  newState := ⟨fun _ => none, fun _ => none, 0⟩
  setContractClass := setContractClass
  deployContract := deployContract
  getClassHashAt := getClassHashAt
  getContractClass := getContractClass
  execute := execute
  invokeTxMaxNSteps := 1000000
  sha256 bytes := bytes

theorem bigEndian_append (bs : Bytes) (b : UInt8) :
    bigEndian (bs ++ [b]) = 256 * bigEndian bs + b.toNat := by
  simp [bigEndian, List.foldl_append]

theorem bigEndian_reverse (bs : Bytes) : bigEndian bs.reverse = ofBytes bs := by
  induction bs with
  | nil => rfl
  | cons b bs ih => rw [List.reverse_cons, bigEndian_append, ih, ofBytes_cons, Nat.add_comm]

theorem bigEndian_padded (felt : Felt252) : bigEndian (padded felt) = felt.val := by
  have hlt : felt.val < 256 ^ 32 := lt_trans felt.isLt (by decide)
  rw [padded, bigEndian_reverse, ofBytes_toBytes hlt]

theorem bigEndian_dropWhile (bs : Bytes) :
    bigEndian (bs.dropWhile (· = 0)) = bigEndian bs := by
  induction bs with
  | nil => rfl
  | cons b bs ih =>
    rw [List.dropWhile_cons]
    split
    · rename_i hb
      have hzero : b = 0 := by simpa using hb
      rw [ih, hzero]
      rfl
    · rfl

theorem parse_hex {digits : List Char} {n : Nat} (h : hexNumber digits = some n) :
    parse digits = .ok (Fin.ofNat feltPrime n) := by
  rw [parse, h]

theorem feltLaws : starknet.FeltLaws where
  toBytesBe_ne_nil felt := by
    change toBytesBe felt ≠ []
    rw [toBytesBe]
    split <;> simp
  toBytesBe_value felt := by
    have h := bigEndian_dropWhile (padded felt)
    rw [bigEndian_padded] at h
    change bigEndian (toBytesBe felt) = felt.val
    rw [toBytesBe]
    split
    · rename_i hnil
      rw [hnil] at h
      rw [← h]
      rfl
    · rename_i b bs hcons
      rw [← h, hcons]
  fromStrRadix16_hex h := parse_hex h
  feltToHash_value felt := bigEndian_padded felt
  stringToHash_prefixed s := by
    change stringToHash ("0x" ++ s) = (parse s.toList).toOption.map feltToHash
    have hp : "0x".toList <+: ("0x" ++ s).toList := by
      rw [String.toList_append]
      exact List.prefix_append _ _
    rw [stringToHash, if_pos hp, String.toList_append]
    rfl
  stringToHash_plain s h := by
    change stringToHash s = (parse s.toList).toOption.map feltToHash
    rw [stringToHash, if_neg h]

theorem run_getClassHashAt (address : Felt252) (s : Cache) :
    (getClassHashAt address).run s = match s.contracts address with
      | some hash => .ok hash s
      | none => .error "contract not found" s := by
  simp only [getClassHashAt, EStateM.run_bind, EStateM.run_get]
  cases s.contracts address <;> rfl

theorem run_getContractClass (hash : ClassHash) (s : Cache) :
    (getContractClass hash).run s = match s.classes hash with
      | some contractClass => .ok contractClass s
      | none => .error "contract class not found" s := by
  simp only [getContractClass, EStateM.run_bind, EStateM.run_get]
  cases s.classes hash <;> rfl

theorem classHashAt_eq (s : Cache) (address : Felt252) :
    starknet.classHashAt s address = match s.contracts address with
      | some hash => .ok hash
      | none => .error "contract not found" := by
  change value ((getClassHashAt address).run s) = _
  rw [run_getClassHashAt]
  cases s.contracts address <;> rfl

theorem classAt_eq (s : Cache) (hash : ClassHash) :
    starknet.classAt s hash = match s.classes hash with
      | some contractClass => .ok contractClass
      | none => .error "contract class not found" := by
  change value ((getContractClass hash).run s) = _
  rw [run_getContractClass]
  cases s.classes hash <;> rfl

theorem vacant_iff (s : Cache) (address : Felt252) :
    starknet.Vacant s address ↔ (s.contracts address).all (· = uninitialized) := by
  rw [Starknet.Vacant, classHashAt_eq]
  cases s.contracts address with
  | none => simp
  | some hash => simp

theorem radixLaws : starknet.RadixLaws where
  fromStrRadix16_only := by
    intro s f h
    change parse s.toList = .ok f at h
    rw [parse] at h
    split at h
    · rename_i n hn
      exact ⟨n, hn⟩
    · cases h

theorem stateLaws : starknet.StateLaws where
  new_class hash contractClass h := by
    rw [classAt_eq] at h
    cases h
  new_vacant address := (vacant_iff _ _).mpr rfl
  getClassHashAt_same address s := by
    change starknet.Same s (final ((getClassHashAt address).run s))
    rw [run_getClassHashAt]
    cases s.contracts address <;> exact Starknet.Same.refl s
  getContractClass_same hash s := by
    change starknet.Same s (final ((getContractClass hash).run s))
    rw [run_getContractClass]
    cases s.classes hash <;> exact Starknet.Same.refl s
  setContractClass_ok hash contractClass s := by
    refine ⟨_, rfl, ?_, ?_⟩
    · funext g
      rw [classAt_eq]
      rcases eq_or_ne g hash with rfl | hne
      · simp only [Function.update_self]
      · simp only [Function.update_of_ne hne]
        exact (classAt_eq s g).symm
    · funext address
      rw [classHashAt_eq, classHashAt_eq]
  deployContract_free address hash s ha hv := by
    have hfree := (vacant_iff s address).mp hv
    have hrun : (deployContract address hash).run s =
        .ok () { s with contracts := Function.update s.contracts address (some hash) } := by
      simp only [deployContract, EStateM.run_bind, EStateM.run_get, if_pos (And.intro ha hfree)]
      rfl
    refine ⟨_, hrun, ?_, ?_⟩
    · funext b
      rw [classHashAt_eq]
      rcases eq_or_ne b address with rfl | hne
      · simp only [Function.update_self]
      · simp only [Function.update_of_ne hne]
        exact (classHashAt_eq s b).symm
    · funext g
      rw [classAt_eq, classAt_eq]
  deployContract_taken address hash s h := by
    rw [vacant_iff] at h
    refine ⟨"contract address unavailable", s, ?_, Starknet.Same.refl s⟩
    change (deployContract address hash).run s = _
    simp only [deployContract, EStateM.run_bind, EStateM.run_get, if_neg h]
    rfl

theorem hashLaws : starknet.HashLaws where
  sha256_inj _ _ h := h
  computeClassHash_inj := by
    intro c d f hc hd
    cases hc
    cases hd
    rfl
  calculateContractAddress_inj := by
    intro salt salt' hash hash' data data' origin origin' f h h'
    change calculateContractAddress salt hash data origin = .ok f at h
    change calculateContractAddress salt' hash' data' origin' = .ok f at h'
    rw [calculateContractAddress] at h h'
    split at h
    · rename_i hs
      split at h'
      · rename_i hs'
        obtain ⟨rfl, rfl, rfl⟩ := hs
        obtain ⟨rfl, rfl, rfl⟩ := hs'
        have hadd : hash + 1 = hash' + 1 := Except.ok.inj (h.trans h'.symm)
        exact ⟨rfl, add_right_cancel hadd, rfl, rfl⟩
      · cases h'
    · cases h

def invocation (address : String) : Transaction where
  transactionType := .invoke address "f" none
  transactionHash := "Invoked f with inputs None for contract in address " ++ address
  id := "1"

def request (tx : Transaction) : Bytes := transactionCodec.encode tx

theorem passed_request {tx : Transaction} (ht : tx.transactionType.Sized)
    (hh : Sized tx.transactionHash) (hi : Sized tx.id)
    (hc : tx.transactionType.computeAndHash starknet = .ok (.ok tx.transactionHash)) :
    passed starknet (request tx) = some tx :=
  passed_iff.mpr ⟨deserialize_transaction ht hh hi, hc⟩

theorem passed_invocation {address : String} (ha : Sized address)
    (hh : Sized (invocation address).transactionHash) :
    passed starknet (request (invocation address)) = some (invocation address) := by
  apply passed_request
  · exact ⟨ha, by decide, by simp [inputsSized]⟩
  · exact hh
  · change Sized "1"
    decide
  · have htext : "Invoked " ++ "f" ++ " with inputs " ++ "None" ++ " for contract in address " =
        "Invoked f with inputs None for contract in address " := by decide
    exact congrArg (fun text => Except.ok (Except.ok (text ++ address))) htext

def stray : Transaction := invocation "0xzz"

theorem passed_stray : passed starknet (request stray) = some stray :=
  passed_invocation (by decide) (by decide)

theorem run_stray {app : StarknetApp Cache} (hh : app.hasher.poisoned = false) :
    (deliverTx starknet (request stray)).run app = .ok (accepted stray) (app.hashed stray) :=
  run_deliverTx_unparsable passed_stray rfl rfl rfl hh

theorem run_block_stray {app : StarknetApp Cache} {height : Int64}
    (hh : app.hasher.poisoned = false) (ha : app.AtHeight height) :
    (deliverBlock starknet [request stray]).run app =
      .ok ([accepted stray], ⟨app.hasher.data ++ utf8 stray.transactionHash, 0⟩)
        { app with
          hasher := ⟨app.hasher.data ++ utf8 stray.transactionHash, false⟩
          transactions := 1
          heightFile := some (HeightFile.encode (height + 1)) } := by
  have hd : (deliverTxs starknet [request stray]).run { app with transactions := 0 } = _ :=
    run_mapM_singleton.mpr ⟨_, run_stray hh, rfl⟩
  exact run_deliverBlock hd rfl ha

theorem run_block_nil {app : StarknetApp Cache} {height : Int64}
    (hh : app.hasher.poisoned = false) (ha : app.AtHeight height) :
    (deliverBlock starknet []).run app =
      .ok ([], ⟨app.hasher.data, 0⟩)
        { app with
          transactions := 0
          heightFile := some (HeightFile.encode (height + 1)) } := by
  have hd : (deliverTxs starknet []).run { app with transactions := 0 } = _ := run_mapM_nil
  exact run_deliverBlock hd hh ha

def declaration : Transaction := ⟨.declare "5", "0x05", "1"⟩

def published : Transaction := { declaration with id := "67e55044-10b1-426f-9247-bb680e5fe0c8" }

def deployment : Transaction := ⟨.deployAccount "0x05" 0 none, "0x06", "1"⟩

def call : Transaction := invocation "0x06"

theorem passed_declaration : passed starknet (request declaration) = some declaration := by
  apply passed_request
  · change Sized "5"
    decide
  · decide
  · decide
  · rfl

theorem passed_published : passed starknet (request published) = some published := by
  apply passed_request
  · change Sized "5"
    decide
  · decide
  · decide
  · rfl

theorem passed_deployment : passed starknet (request deployment) = some deployment := by
  apply passed_request
  · exact ⟨by decide, by simp [inputsSized]⟩
  · decide
  · decide
  · rfl

theorem passed_call : passed starknet (request call) = some call :=
  passed_invocation (by decide) (by decide)

def Cache.declare (s : Cache) (hash : ClassHash) (contractClass : Felt252) : Cache :=
  { s with classes := Function.update s.classes hash (some contractClass) }

def Cache.deploy (s : Cache) (address : Felt252) (hash : ClassHash) : Cache :=
  { s with contracts := Function.update s.contracts address (some hash) }

theorem run_declare {tx : Transaction} (hp : passed starknet (request tx) = some tx)
    (ht : tx.transactionType = .declare "5") {app : StarknetApp Cache}
    (hh : app.hasher.poisoned = false) (hs : app.starknetState.poisoned = false) :
    (deliverTx starknet (request tx)).run app = .ok (accepted tx)
      { app.hashed tx with
        starknetState := ⟨app.starknetState.data.declare (feltToHash 5) 5, false⟩ } := by
  have hs' : (app.hashed tx).starknetState.poisoned = false := hs
  have hd : declared starknet "5" = some (5, 5) := rfl
  have hrun : (deliver starknet tx.transactionType).run (app.hashed tx) =
      .ok () { app.hashed tx with
        starknetState := ⟨app.starknetState.data.declare (feltToHash 5) 5, false⟩ } := by
    rw [ht]
    exact run_deliverDeclare hd hs'
  rw [run_deliverTx_passed hp hh, hrun]

theorem run_declaration {app : StarknetApp Cache} (hh : app.hasher.poisoned = false)
    (hs : app.starknetState.poisoned = false) :
    (deliverTx starknet (request declaration)).run app = .ok (accepted declaration)
      { app.hashed declaration with
        starknetState := ⟨app.starknetState.data.declare (feltToHash 5) 5, false⟩ } :=
  run_declare passed_declaration rfl hh hs

theorem run_deploy {tx : Transaction} {classHash : String} {address : Felt252} {hash : ClassHash}
    {app : StarknetApp Cache} (hp : passed starknet (request tx) = some tx)
    (ht : tx.transactionType = .deployAccount classHash 0 none)
    (hd : deployed starknet classHash 0 none = some address)
    (hstring : starknet.stringToHash classHash = some hash) (ha : address ≠ 0)
    (hh : app.hasher.poisoned = false) (hs : app.starknetState.poisoned = false)
    (hfree : app.starknetState.data.contracts address = none) :
    (deliverTx starknet (request tx)).run app = .ok (accepted tx)
      { app.hashed tx with
        starknetState := ⟨app.starknetState.data.deploy address hash, false⟩ } := by
  have hs' : (app.hashed tx).starknetState.poisoned = false := hs
  have hput : (starknet.deployContract address hash).run app.starknetState.data =
      .ok () (app.starknetState.data.deploy address hash) := by
    have hcond : address ≠ 0 ∧
        (app.starknetState.data.contracts address).all (· = uninitialized) := by
      rw [hfree]
      exact ⟨ha, rfl⟩
    change (deployContract address hash).run app.starknetState.data = _
    simp only [deployContract, EStateM.run_bind, EStateM.run_get, if_pos hcond]
    rfl
  have hrun : (deliver starknet tx.transactionType).run (app.hashed tx) =
      .ok () { app.hashed tx with starknetState :=
        ⟨final ((starknet.deployContract address hash).run app.starknetState.data), false⟩ } := by
    rw [ht]
    change (deliverDeployAccount starknet classHash 0 none).run (app.hashed tx) = _
    rw [run_deliverDeployAccount hd hs', hstring]
    rfl
  rw [run_deliverTx_passed hp hh, hrun, hput]
  rfl

theorem run_deployment {app : StarknetApp Cache} (hh : app.hasher.poisoned = false)
    (hs : app.starknetState.poisoned = false)
    (hfree : app.starknetState.data.contracts 6 = none) :
    (deliverTx starknet (request deployment)).run app = .ok (accepted deployment)
      { app.hashed deployment with
        starknetState := ⟨app.starknetState.data.deploy 6 (feltToHash 5), false⟩ } :=
  run_deploy passed_deployment rfl rfl rfl (by decide) hh hs hfree

def deployedCache : Cache :=
  (starknet.newState.declare (feltToHash 5) 5).deploy 6 (feltToHash 5)

def declaredApp : StarknetApp Cache :=
  { (fresh starknet).hashed declaration with
    starknetState := ⟨starknet.newState.declare (feltToHash 5) 5, false⟩ }

def deployedApp : StarknetApp Cache :=
  { declaredApp.hashed deployment with starknetState := ⟨deployedCache, false⟩ }

theorem run_declaredApp : (deliverTx starknet (request declaration)).run (fresh starknet) =
    .ok (accepted declaration) declaredApp := run_declaration rfl rfl

theorem run_deployedApp : (deliverTx starknet (request deployment)).run declaredApp =
    .ok (accepted deployment) deployedApp := run_deployment rfl rfl rfl

theorem run_oneBlock {txs : List Bytes} {rs : List ResponseDeliverTx} {app : StarknetApp Cache}
    (h : (deliverTxs starknet txs).run (fresh starknet) = .ok rs app)
    (hh : app.hasher.poisoned = false) (hf : app.heightFile = some (HeightFile.encode 0)) :
    (deliverBlocks starknet [txs]).run (fresh starknet) =
      .ok [(rs, ⟨app.hasher.data, 0⟩)]
        { app with heightFile := some (HeightFile.encode 1) } := by
  have hd : (deliverTxs starknet txs).run { fresh starknet with transactions := 0 } = _ := h
  have hb := run_deliverBlock hd hh ⟨_, hf, HeightFile.decode_encode 0⟩
  exact run_mapM_singleton.mpr ⟨_, hb, rfl⟩

end Sequencer.Reference
