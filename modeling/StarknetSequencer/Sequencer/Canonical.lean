import StarknetSequencer.Sequencer.Reference

namespace Sequencer

open Wire Effect StarknetApp

variable {C S I : Type} (L : Starknet C S I)

theorem transaction_wire_form {b : Bytes} {tx : Transaction}
    (h : transactionCodec.deserialize b = some tx) :
    (∃ rest, b = transactionCodec.encode tx ++ rest) ∧
      (transactionCodec.encode tx = b ↔ (transactionCodec.encode tx).length = b.length) ∧
      (∀ rest, transactionCodec.deserialize (transactionCodec.encode tx ++ rest) = some tx) ∧
      ∀ app : StarknetApp S,
        (checkTx b).run app = (checkTx (transactionCodec.encode tx)).run app ∧
        (deliverTx L b).run app = (deliverTx L (transactionCodec.encode tx)).run app := by
  obtain ⟨hfits, hrest⟩ := transactionCodec.deserialize_eq_some.mp h
  refine ⟨hrest, transactionCodec.encode_eq_iff_length h, fun rest => ?_, fun app => ?_⟩
  · exact transactionCodec.deserialize_encode_append rest hfits
  · have hencode := transactionCodec.deserialize_encode hfits
    constructor
    · rw [checkTx, checkTx, h, hencode]
    · rw [deliverTx, deliverTx, h, hencode]

theorem padded_deserialize :
    transactionCodec.deserialize (Reference.request Reference.stray ++ [0]) =
      some Reference.stray := by
  have hstray := (passed_iff.mp Reference.passed_stray).1
  obtain ⟨hfits, -⟩ := transactionCodec.deserialize_eq_some.mp hstray
  exact transactionCodec.deserialize_encode_append [0] hfits

theorem transaction_wire_form_padded :
    (∃ rest, Reference.request Reference.stray ++ [0] =
      transactionCodec.encode Reference.stray ++ rest) ∧
    (transactionCodec.encode Reference.stray = Reference.request Reference.stray ++ [0] ↔
      (transactionCodec.encode Reference.stray).length =
        (Reference.request Reference.stray ++ [0]).length) ∧
    (∀ rest, transactionCodec.deserialize (transactionCodec.encode Reference.stray ++ rest) =
      some Reference.stray) ∧
    ∀ app : StarknetApp Reference.Cache,
      (checkTx (Reference.request Reference.stray ++ [0])).run app =
        (checkTx (transactionCodec.encode Reference.stray)).run app ∧
      (deliverTx Reference.starknet (Reference.request Reference.stray ++ [0])).run app =
        (deliverTx Reference.starknet (transactionCodec.encode Reference.stray)).run app :=
  transaction_wire_form Reference.starknet padded_deserialize

theorem padded_transaction : transactionCodec.deserialize
      (Reference.request Reference.stray ++ [0]) = some Reference.stray ∧
    transactionCodec.deserialize (Reference.request Reference.stray) = some Reference.stray ∧
    transactionCodec.encode Reference.stray ≠ Reference.request Reference.stray ++ [0] := by
  refine ⟨padded_deserialize, (passed_iff.mp Reference.passed_stray).1, fun h => ?_⟩
  have hlen : (Reference.request Reference.stray).length =
      (Reference.request Reference.stray ++ [0]).length := congrArg List.length h
  rw [List.length_append, List.length_singleton] at hlen
  omega

end Sequencer
