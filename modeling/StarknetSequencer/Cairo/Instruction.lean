import Mathlib.Data.ZMod.Basic

namespace Cairo

def prime : Nat := 0x800000000000011000000000000000000000000000000000000000000000001

instance : NeZero prime := ⟨by decide⟩

abbrev Felt := ZMod prime

theorem Felt.val_sub_one {n : Felt} (h : n ≠ 0) : (n - 1).val + 1 = n.val := by
  have hpos : n.val ≠ 0 := fun hzero => h ((ZMod.val_eq_zero n).mp hzero)
  have hlt := ZMod.val_lt n
  have hpred : n - 1 = ((n.val - 1 : Nat) : Felt) := by
    rw [Nat.cast_sub (Nat.one_le_iff_ne_zero.mpr hpos), ZMod.natCast_zmod_val, Nat.cast_one]
  rw [hpred, ZMod.val_natCast_of_lt (by omega)]
  omega

theorem Felt.natCast_prime_sub_one : ((prime - 1 : Nat) : Felt) = -1 := by decide

inductive Register where
  | ap
  | fp
deriving DecidableEq

inductive Op1Source where
  | op0
  | imm
  | fp
  | ap
deriving DecidableEq

inductive Res where
  | op1
  | add
  | mul
  | unconstrained
deriving DecidableEq

inductive PcUpdate where
  | regular
  | jump
  | jumpRel
  | jnz
deriving DecidableEq

inductive ApUpdate where
  | regular
  | add
  | add1
  | add2
deriving DecidableEq

inductive Opcode where
  | nop
  | call
  | ret
  | assertEq
deriving DecidableEq

structure Instruction where
  offDst : Int
  offOp0 : Int
  offOp1 : Int
  dstRegister : Register
  op0Register : Register
  op1Source : Op1Source
  res : Res
  pcUpdate : PcUpdate
  apUpdate : ApUpdate
  opcode : Opcode
deriving DecidableEq

-- an immediate operand takes the word after its instruction
def Instruction.size (i : Instruction) : Nat := if i.op1Source = .imm then 2 else 1

def decodeOffset (word shift : Nat) : Int := (word / 2 ^ shift % 2 ^ 16 : Nat) - 2 ^ 15

def decodeRegister (word bit : Nat) : Register := if word.testBit bit then .fp else .ap

def decodeOp1Source : Nat → Option Op1Source
  | 0 => some .op0
  | 1 => some .imm
  | 2 => some .fp
  | 4 => some .ap
  | _ => none

def decodePcUpdate : Nat → Option PcUpdate
  | 0 => some .regular
  | 1 => some .jump
  | 2 => some .jumpRel
  | 4 => some .jnz
  | _ => none

def decodeRes (pcUpdate : PcUpdate) : Nat → Option Res
  | 0 => if pcUpdate = .jnz then some .unconstrained else some .op1
  | 1 => some .add
  | 2 => some .mul
  | _ => none

def decodeOpcode : Nat → Option Opcode
  | 0 => some .nop
  | 1 => some .call
  | 2 => some .ret
  | 4 => some .assertEq
  | _ => none

def decodeApUpdate (opcode : Opcode) : Nat → Option ApUpdate
  | 0 => if opcode = .call then some .add2 else some .regular
  | 1 => some .add
  | 2 => some .add1
  | _ => none

-- three biased offsets of 16 bits, then 15 flags
def decode (word : Nat) : Option Instruction :=
  if word < 2 ^ 63 then do
    let op1Source ← decodeOp1Source (word / 2 ^ 50 % 2 ^ 3)
    let pcUpdate ← decodePcUpdate (word / 2 ^ 55 % 2 ^ 3)
    let res ← decodeRes pcUpdate (word / 2 ^ 53 % 2 ^ 2)
    let opcode ← decodeOpcode (word / 2 ^ 60 % 2 ^ 3)
    let apUpdate ← decodeApUpdate opcode (word / 2 ^ 58 % 2 ^ 2)
    return {
      offDst := decodeOffset word 0
      offOp0 := decodeOffset word 16
      offOp1 := decodeOffset word 32
      dstRegister := decodeRegister word 48
      op0Register := decodeRegister word 49
      op1Source, res, pcUpdate, apUpdate, opcode }
  else none

end Cairo
