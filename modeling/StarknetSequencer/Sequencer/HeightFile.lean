import StarknetSequencer.Wire.Bincode
import StarknetSequencer.Sequencer.Transaction

namespace Sequencer.HeightFile

open Wire Effect

def encode (height : Int64) : Bytes := Codec.i64.encode height

def decode (bytes : Bytes) : Option Int64 := Codec.i64.deserialize bytes

-- the file is `none` when `std::fs::read` fails on it
def readOrCreate : EStateM Panic (Option Bytes) Int64 := do
  match ← get with
  | some bytes => orThrow (.expect "Contents of height file are not readable") (decode bytes)
  | none =>
    set (some (encode 0))
    return 0

def increment : EStateM Panic (Option Bytes) Int64 := do
  let bytes ← orThrow .unwrap (← get)
  let height ← orThrow .unwrap (decode bytes)
  let height := height + 1
  set (some (encode height))
  return height

theorem decode_encode (height : Int64) : decode (encode height) = some height :=
  Codec.i64.deserialize_encode (lt_of_lt_of_eq height.toBitVec.isLt (by norm_num))

theorem readOrCreate_encode (height : Int64) :
    readOrCreate.run (some (encode height)) = .ok height (some (encode height)) := by
  simp [readOrCreate, decode_encode]

end Sequencer.HeightFile
