import StarknetSequencer.Sequencer.Starknet

namespace Sequencer

open Wire

inductive Panic where
  | unwrap
  | expect (message : String)
  | slice
deriving DecidableEq, Repr

inductive TransactionType where
  | declare (program : String)
  | deployAccount (classHash : String) (salt : Int32) (inputs : Option (List Int32))
  | invoke (address function : String) (inputs : Option (List Int32))
deriving DecidableEq

structure Transaction where
  transactionType : TransactionType
  transactionHash : String
  id : String
deriving DecidableEq

def Payload : Fin 3 → Type
  | 0 => String
  | 1 => String × Int32 × Option (List Int32)
  | 2 => String × String × Option (List Int32)

def inputsCodec : Codec (Option (List Int32)) :=
  (Codec.vec .u64 .i32).option

def payloadCodec : (i : Fin 3) → Codec (Payload i)
  | 0 => Codec.string
  | 1 => Codec.string.seq (Codec.i32.seq inputsCodec)
  | 2 => Codec.string.seq (Codec.string.seq inputsCodec)

def transactionTypeCodec : Codec TransactionType :=
  ((Codec.index 3).variant payloadCodec).refine
    (fun
      | .declare program => ⟨0, program⟩
      | .deployAccount classHash salt inputs => ⟨1, classHash, salt, inputs⟩
      | .invoke address function inputs => ⟨2, address, function, inputs⟩)
    (fun
      | ⟨0, program⟩ => some (.declare program)
      | ⟨1, classHash, salt, inputs⟩ => some (.deployAccount classHash salt inputs)
      | ⟨2, address, function, inputs⟩ => some (.invoke address function inputs))
    (by rintro ⟨⟩ <;> rfl)
    (by
      rintro ⟨i, v⟩ t h
      match i, v, h with
      | 0, _, rfl => rfl
      | 1, _, rfl => rfl
      | 2, _, rfl => rfl)

def transactionCodec : Codec Transaction :=
  (transactionTypeCodec.seq (Codec.string.seq Codec.string)).refine
    (fun tx => (tx.transactionType, tx.transactionHash, tx.id))
    (fun p => some ⟨p.1, p.2.1, p.2.2⟩)
    (fun _ => rfl)
    (by rintro ⟨a, b, c⟩ t ⟨⟩; rfl)

def Sized (s : String) : Prop := (utf8 s).length < 2 ^ 64

instance (s : String) : Decidable (Sized s) := inferInstanceAs (Decidable (_ < _))

def inputsSized (inputs : Option (List Int32)) : Prop := ∀ ns ∈ inputs, ns.length < 2 ^ 64

def TransactionType.Sized : TransactionType → Prop
  | .declare program => Sequencer.Sized program
  | .deployAccount classHash _ inputs => Sequencer.Sized classHash ∧ inputsSized inputs
  | .invoke address function inputs =>
    Sequencer.Sized address ∧ Sequencer.Sized function ∧ inputsSized inputs

theorem tag_fits (i : Fin 3) : (Codec.index 3).fits i :=
  lt_of_lt_of_le i.isLt (by norm_num)

theorem string_fits {s : String} (h : Sized s) : Codec.string.fits s :=
  ⟨lt_of_lt_of_eq h (by norm_num), fun _ _ => trivial⟩

theorem inputs_fits {inputs : Option (List Int32)} (h : inputsSized inputs) :
    inputsCodec.fits inputs := by
  intro ns hns
  exact ⟨lt_of_lt_of_eq (h ns hns) (by norm_num), fun n _ =>
    lt_of_lt_of_eq n.toBitVec.isLt (by norm_num)⟩

theorem transactionType_fits {t : TransactionType} (h : t.Sized) : transactionTypeCodec.fits t := by
  cases t with
  | declare program => exact ⟨tag_fits _, string_fits h⟩
  | deployAccount classHash salt inputs =>
    have hsalt : Codec.i32.fits salt := lt_of_lt_of_eq salt.toBitVec.isLt (by norm_num)
    exact ⟨tag_fits _, string_fits h.1, hsalt, inputs_fits h.2⟩
  | invoke address function inputs =>
    exact ⟨tag_fits _, string_fits h.1, string_fits h.2.1, inputs_fits h.2.2⟩

theorem deserialize_transaction {tx : Transaction} (ht : tx.transactionType.Sized)
    (hh : Sized tx.transactionHash) (hi : Sized tx.id) :
    transactionCodec.deserialize (transactionCodec.encode tx) = some tx :=
  transactionCodec.deserialize_encode ⟨transactionType_fits ht, string_fits hh, string_fits hi⟩

-- byte offsets, as in Rust: `none` when `n` is past the end or inside a character
def dropBytes : Nat → List Char → Option (List Char)
  | 0, cs => some cs
  | _ + 1, [] => none
  | n + 1, c :: cs => if c.utf8Size ≤ n + 1 then dropBytes (n + 1 - c.utf8Size) cs else none

def sliceFrom (n : Nat) (s : String) : Except Panic String :=
  match dropBytes n s.toList with
  | some cs => .ok (String.ofList cs)
  | none => .error .slice

def unwrap {ε α : Type} : Except ε α → Except Panic α
  | .ok a => .ok a
  | .error _ => .error .unwrap

def debugInputs : Option (List Int32) → String
  | none => "None"
  | some ns => "Some([" ++ String.intercalate ", " (ns.map fun n => n.toInt.repr) ++ "])"

section Hash

variable {C S I : Type} (L : Starknet C S I)

def calldata : Option (List Int32) → List Felt252
  | some ns => ns.map L.fromI32
  | none => []

-- `Except Panic` is a panic of the call, the inner `Except String` its `Result`
def TransactionType.computeAndHash : TransactionType → Except Panic (Except String String)
  | .declare program => .ok do
    let contractClass ← L.contractClassTryFrom program
    let contractHash ← L.computeClassHash contractClass
    return "0x" ++ hexEncode (L.toBytesBe contractHash)
  | .deployAccount classHash salt inputs => do
    let felt ← unwrap (L.fromStrRadix16 (← sliceFrom 2 classHash))
    return do
      let contractAddress ←
        L.calculateContractAddress (L.fromI32 salt) felt (calldata L inputs) 0
      return "0x" ++ hexEncode (L.toBytesBe contractAddress)
  | .invoke address function inputs => .ok <| .ok <|
    "Invoked " ++ function ++ " with inputs " ++ debugInputs inputs ++
      " for contract in address " ++ address

def Transaction.withType (transactionType : TransactionType) (uuid : String) :
    Except Panic (Except String Transaction) :=
  (transactionType.computeAndHash L).map fun hash => hash.map fun h => ⟨transactionType, h, uuid⟩

def Transaction.assertIntegrity (tx : Transaction) : Except Panic (Except String Unit) :=
  (tx.transactionType.computeAndHash L).map fun hash => hash.bind fun h =>
    if tx.transactionHash = h then .ok ()
    else .error "Corrupted transaction: Inconsistent transaction id"

end Hash

end Sequencer
