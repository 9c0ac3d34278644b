import StarknetSequencer.Wire.Bincode

namespace Narwhal

open Wire

structure Digest where
  bytes : Bytes
  size : bytes.length = 32
deriving DecidableEq

def Digest.toVec (digest : Digest) : Bytes := digest.bytes

-- a `BTreeMap<Digest, WorkerId>`, as `into_iter` walks it
structure Payload where
  entries : List (Digest × UInt32)
  ascending : entries.Pairwise fun a b => a.1.bytes < b.1.bytes

structure Header where
  payload : Payload

structure Certificate where
  header : Header

inductive WorkerMessage where
  | batch (txs : List Bytes)
deriving DecidableEq

def WorkerMessage.codec : Codec WorkerMessage :=
  (Codec.variant (Codec.index 1) fun _ => Codec.vec Codec.u64 (Codec.vec Codec.u64 Codec.byte)).refine
    (fun | .batch txs => ⟨0, txs⟩)
    (fun ⟨_, txs⟩ => some (.batch txs))
    (fun | .batch _ => rfl)
    (by
      rintro ⟨i, txs⟩ message h
      cases h
      rw [Fin.fin_one_eq_zero i])

-- the databases on disk: a path opens or not, and an open one is read at a key
abbrev Stores := String → Except String (Bytes → Except String (Option Bytes))

end Narwhal
