import StarknetSequencer.Effect.State
import StarknetSequencer.Wire.Hex
import StarknetSequencer.Registry

namespace Sequencer

open Wire Effect

def feltPrime : Nat := 2 ^ 251 + 17 * 2 ^ 192 + 1

instance : NeZero feltPrime := ⟨by decide⟩

abbrev Felt252 := Fin feltPrime

abbrev ClassHash := Vector UInt8 32

def uninitialized : ClassHash := Vector.replicate 32 0

inductive EntryPointType where
  | external
  | l1Handler
  | constructor
deriving DecidableEq, Repr

inductive CallType where
  | call
  | delegate
deriving DecidableEq, Repr

structure ExecutionEntryPoint where
  contractAddress : Felt252
  calldata : List Felt252
  entryPointSelector : Felt252
  callerAddress : Felt252
  entryPointType : EntryPointType
  callType : Option CallType
  classHash : Option ClassHash
deriving DecidableEq

structure TransactionExecutionContext where
  accountContractAddress : Felt252
  maxFee : Nat
  nonce : Felt252
  nSteps : Nat
  version : Nat
deriving DecidableEq

-- What the sequencer calls in starknet-rs, felt and sha2, none of which is in the repository:
-- `C` is a contract class, `S` the cached state and `I` the call info of an execution.
structure Starknet (C S I : Type) where
  contractClassTryFrom : String → Except String C
  computeClassHash : C → Except String Felt252
  calculateContractAddress : Felt252 → Felt252 → List Felt252 → Felt252 → Except String Felt252
  calculateDeployTransactionHash : Nat → Felt252 → List Felt252 → Felt252 → Except String Felt252
  calculateSnKeccak : Bytes → Bytes
  fromStrRadix16 : String → Except String Felt252
  toBytesBe : Felt252 → Bytes
  fromBytesBe : Bytes → Felt252
  fromI32 : Int32 → Felt252
  feltToHash : Felt252 → ClassHash
  stringToHash : String → Option ClassHash
  newState : S
  setContractClass : ClassHash → C → EStateM String S Unit
  deployContract : Felt252 → ClassHash → EStateM String S Unit
  getClassHashAt : Felt252 → EStateM String S ClassHash
  getContractClass : ClassHash → EStateM String S C
  execute : ExecutionEntryPoint → TransactionExecutionContext → EStateM String S I
  invokeTxMaxNSteps : Nat
  sha256 : Bytes → Bytes

namespace Starknet

variable {C S I : Type} (L : Starknet C S I)

def classHashAt (s : S) (address : Felt252) : Except String ClassHash :=
  value ((L.getClassHashAt address).run s)

def classAt (s : S) (hash : ClassHash) : Except String C :=
  value ((L.getContractClass hash).run s)

def Vacant (s : S) (address : Felt252) : Prop :=
  ∀ h, L.classHashAt s address = .ok h → h = uninitialized

structure Same (s t : S) : Prop where
  classes : L.classAt t = L.classAt s
  contracts : L.classHashAt t = L.classHashAt s

structure FeltLaws : Prop where
  toBytesBe_ne_nil : ∀ f, L.toBytesBe f ≠ []
  toBytesBe_value : ∀ f, bigEndian (L.toBytesBe f) = f.val
  fromStrRadix16_hex : ∀ {s n}, hexNumber s.toList = some n →
    L.fromStrRadix16 s = .ok (Fin.ofNat feltPrime n)
  feltToHash_value : ∀ f, bigEndian (L.feltToHash f).toList = f.val
  stringToHash_prefixed : ∀ s,
    L.stringToHash ("0x" ++ s) = (L.fromStrRadix16 s).toOption.map L.feltToHash
  stringToHash_plain : ∀ s, ¬ "0x".toList <+: s.toList →
    L.stringToHash s = (L.fromStrRadix16 s).toOption.map L.feltToHash

-- `from_str_radix(_, 16)` takes nothing but hexadecimal digits
structure RadixLaws : Prop where
  fromStrRadix16_only : ∀ {s f}, L.fromStrRadix16 s = .ok f → ∃ n, hexNumber s.toList = some n

structure StateLaws : Prop where
  new_class : ∀ h c, L.classAt L.newState h ≠ .ok c
  new_vacant : ∀ a, L.Vacant L.newState a
  getClassHashAt_same : ∀ a s, L.Same s (final ((L.getClassHashAt a).run s))
  getContractClass_same : ∀ h s, L.Same s (final ((L.getContractClass h).run s))
  setContractClass_ok : ∀ h c s, ∃ t, (L.setContractClass h c).run s = .ok () t ∧
    L.classAt t = Function.update (L.classAt s) h (.ok c) ∧ L.classHashAt t = L.classHashAt s
  deployContract_free : ∀ a h s, a ≠ 0 → L.Vacant s a →
    ∃ t, (L.deployContract a h).run s = .ok () t ∧
      L.classHashAt t = Function.update (L.classHashAt s) a (.ok h) ∧ L.classAt t = L.classAt s
  deployContract_taken : ∀ a h s, ¬ (a ≠ 0 ∧ L.Vacant s a) →
    ∃ e t, (L.deployContract a h).run s = .error e t ∧ L.Same s t

structure HashLaws : Prop where
  sha256_inj : Function.Injective L.sha256
  computeClassHash_inj : ∀ {c d f}, L.computeClassHash c = .ok f → L.computeClassHash d = .ok f →
    c = d
  calculateContractAddress_inj : ∀ {salt salt' hash hash' data data' from' from'' f},
    L.calculateContractAddress salt hash data from' = .ok f →
    L.calculateContractAddress salt' hash' data' from'' = .ok f →
    salt = salt' ∧ hash = hash' ∧ data = data' ∧ from' = from''

variable {L}

theorem Same.refl (s : S) : L.Same s s := ⟨rfl, rfl⟩

theorem Same.symm {s t : S} (h : L.Same s t) : L.Same t s :=
  ⟨h.classes.symm, h.contracts.symm⟩

theorem Same.trans {s t u : S} (h₁ : L.Same s t) (h₂ : L.Same t u) : L.Same s u :=
  ⟨h₂.classes.trans h₁.classes, h₂.contracts.trans h₁.contracts⟩

theorem FeltLaws.feltToHash_ne (hL : L.FeltLaws) {f : Felt252} (h : f ≠ 0) :
    L.feltToHash f ≠ uninitialized := by
  intro hu
  have hv := hL.feltToHash_value f
  have hz : bigEndian uninitialized.toList = 0 := by decide
  rw [hu, hz] at hv
  exact h (Fin.ext hv.symm)

theorem FeltLaws.fromStrRadix16_hexEncode (hL : L.FeltLaws) (f : Felt252) :
    L.fromStrRadix16 (hexEncode (L.toBytesBe f)) = .ok f := by
  have hn : hexNumber (hexEncode (L.toBytesBe f)).toList = some f.val := by
    rw [toList_hexEncode, hexNumber_hexChars (hL.toBytesBe_ne_nil f), hL.toBytesBe_value]
  rw [hL.fromStrRadix16_hex hn, Fin.ofNat_val_eq_self]

theorem FeltLaws.hexEncode_inj (hL : L.FeltLaws) {f g : Felt252}
    (h : hexEncode (L.toBytesBe f) = hexEncode (L.toBytesBe g)) : f = g := by
  have hf := hL.fromStrRadix16_hexEncode f
  rw [h, hL.fromStrRadix16_hexEncode g] at hf
  exact (Except.ok.inj hf).symm

end Starknet

end Sequencer
