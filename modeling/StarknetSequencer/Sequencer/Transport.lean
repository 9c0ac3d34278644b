import StarknetSequencer.Sequencer.Cli
import StarknetSequencer.Sequencer.Lifecycle

namespace Sequencer

open Wire Effect StarknetApp

variable {C S I : Type} {L : Starknet C S I}

-- what Rust gives for free: the length of a `String` or a `Vec` is a `usize`
structure Transaction.Sized (tx : Transaction) : Prop where
  transactionType : tx.transactionType.Sized
  transactionHash : Sequencer.Sized tx.transactionHash
  id : Sequencer.Sized tx.id

theorem Transaction.Sized.deserialize {tx : Transaction} (h : tx.Sized) :
    transactionCodec.deserialize (transactionCodec.encode tx) = some tx :=
  deserialize_transaction h.transactionType h.transactionHash h.id

theorem passed_withType {t : TransactionType} {uuid : String} {tx : Transaction}
    (h : Transaction.withType L t uuid = .ok (.ok tx)) (hs : tx.Sized) :
    passed L (transactionCodec.encode tx) = some tx := by
  obtain ⟨hc, ht, -⟩ := withType_ok.mp h
  exact passed_iff.mpr ⟨hs.deserialize, by rw [ht, hc]⟩

theorem client_server_agree {t : TransactionType} {uuid : String} {tx : Transaction}
    (h : Transaction.withType L t uuid = .ok (.ok tx)) (hs : tx.Sized) :
    transactionCodec.deserialize (transactionCodec.encode tx) = some tx ∧
    (tx.transactionType.computeAndHash L).map (fun hash => hash.map (· == tx.transactionHash)) =
      .ok (.ok true) ∧
    ∀ {app app' : StarknetApp S} {r : ResponseDeliverTx},
      (deliverTx L (transactionCodec.encode tx)).run app = .ok r app' →
        r = accepted tx ∧ r.log ≠ integrityFailed := by
  obtain ⟨hc, ht, -⟩ := withType_ok.mp h
  refine ⟨hs.deserialize, ?_, ?_⟩
  · rw [ht, hc]
    simp [Except.map]
  · intro app app' r hrun
    have hr := (deliver_of_passed (passed_withType h hs) hrun).1
    rw [hr]
    exact ⟨rfl, (by decide : "" ≠ integrityFailed)⟩

namespace Reference

def greeting : Transaction where
  transactionType := .invoke "0x06" "é" (some [-1, 2])
  transactionHash := "Invoked é with inputs Some([-1, 2]) for contract in address 0x06"
  id := "1"

theorem greeting_sized : greeting.Sized where
  transactionType := ⟨by decide, by decide, by simp [inputsSized]⟩
  transactionHash := by decide
  id := by decide

end Reference

theorem client_server_agree_greeting :
    transactionCodec.deserialize (Reference.request Reference.greeting) = some Reference.greeting ∧
    (Reference.greeting.transactionType.computeAndHash Reference.starknet).map
      (fun hash => hash.map (· == Reference.greeting.transactionHash)) = .ok (.ok true) ∧
    ∀ {app app' : StarknetApp Reference.Cache} {r : ResponseDeliverTx},
      (deliverTx Reference.starknet (Reference.request Reference.greeting)).run app = .ok r app' →
        r = accepted Reference.greeting ∧ r.log ≠ integrityFailed := by
  have h : Transaction.withType Reference.starknet (.invoke "0x06" "é" (some [-1, 2])) "1" =
      .ok (.ok Reference.greeting) := by
    have hash : (TransactionType.invoke "0x06" "é" (some [-1, 2])).computeAndHash
        Reference.starknet = .ok (.ok Reference.greeting.transactionHash) :=
      congrArg (fun text => Except.ok (Except.ok text)) (by decide)
    rw [Transaction.withType, hash]
    rfl
  exact client_server_agree h Reference.greeting_sized

namespace Cli

variable {host : Host}

theorem send_ok {failed uuid url : String} {t : TransactionType} {tx : Transaction}
    (h : send L host failed t uuid url = .ok (.ok tx)) :
    Transaction.withType L t uuid = .ok (.ok tx) ∧
      broadcast host (transactionCodec.encode tx) url = .ok (.ok ()) := by
  rw [send] at h
  cases hw : Transaction.withType L t uuid with
  | error p =>
    rw [hw] at h
    cases h
  | ok result =>
    rw [hw] at h
    cases result with
    | error e => cases h
    | ok transaction =>
      simp only [bind, Except.bind] at h
      cases hb : broadcast host (transactionCodec.encode transaction) url with
      | error p =>
        rw [hb] at h
        cases h
      | ok answer =>
        rw [hb] at h
        cases answer with
        | error e => cases h
        | ok _ =>
          cases h
          exact ⟨rfl, hb⟩

theorem run_ok {command : Command} {uuid url : String} {tx : Transaction}
    (h : run L host command uuid url = .ok (.ok tx)) :
    (∃ args, command = .get args) ∨ ∃ t, Transaction.withType L t uuid = .ok (.ok tx) ∧
      broadcast host (transactionCodec.encode tx) url = .ok (.ok ()) := by
  cases command with
  | declare args =>
    simp only [run, doDeclare] at h
    split at h
    · cases h
    · exact .inr ⟨_, send_ok h⟩
  | deployAccount args => exact .inr ⟨_, send_ok h⟩
  | invoke args => exact .inr ⟨_, send_ok h⟩
  | get args => exact .inl ⟨args, rfl⟩

-- what the CLI prints for a command that sends is the uuid and the hash of what was broadcast
theorem report_sent {command : Command} {uuid url id hash : String}
    {result : Except String Transaction} (hget : ∀ args, command ≠ .get args)
    (h : run L host command uuid url = .ok result)
    (hr : report result = (0, .transaction id hash)) :
    ∃ tx, id = uuid ∧ tx.id = id ∧ tx.transactionHash = hash ∧
      broadcast host (transactionCodec.encode tx) url = .ok (.ok ()) := by
  cases result with
  | error message => cases hr
  | ok tx =>
    cases hr
    rcases run_ok h with ⟨args, hargs⟩ | ⟨t, hw, hb⟩
    · exact absurd hargs (hget args)
    · obtain ⟨-, -, hid⟩ := withType_ok.mp hw
      exact ⟨tx, hid, rfl, rfl, hb⟩

end Cli

end Sequencer
