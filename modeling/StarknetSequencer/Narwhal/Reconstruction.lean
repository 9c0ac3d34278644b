import StarknetSequencer.Narwhal.Queries

namespace Narwhal

open Wire Effect Session Engine

variable {σ : Type} {app : AbciApp σ} {stores : Stores}

-- the batch of a payload entry is not in its worker's store, cannot be read or is no batch
inductive Bad (stores : Stores) (engine : Engine) (entry : Digest × UInt32) : Prop where
  | unopened {e : String} :
    stores (engine.workerDb entry.2) = .error e → Bad stores engine entry
  | unreadable {db : Bytes → Except String (Option Bytes)} {e : String} :
    stores (engine.workerDb entry.2) = .ok db → db entry.1.toVec = .error e →
    Bad stores engine entry
  | missing {db : Bytes → Except String (Option Bytes)} :
    stores (engine.workerDb entry.2) = .ok db → db entry.1.toVec = .ok none →
    Bad stores engine entry
  | malformed {db : Bytes → Except String (Option Bytes)} {value : Bytes} :
    stores (engine.workerDb entry.2) = .ok db → db entry.1.toVec = .ok (some value) →
    (∀ txs, WorkerMessage.codec.deserialize value ≠ some (.batch txs)) →
    Bad stores engine entry

-- `txss` are the batches that stand before the first bad one, in digest order
def BeforeBad (stores : Stores) (engine : Engine) (certificate : Certificate)
    (txss : List (List Bytes)) : Prop :=
  ∃ before entry after, certificate.header.payload.entries = before ++ entry :: after ∧
    before.map (fun entry => engine.readBatch stores entry.1 entry.2) = txss.map .ok ∧
    Bad stores engine entry

namespace Engine

theorem reconstructBatch_of_open {engine : Engine} {entry : Digest × UInt32}
    {db : Bytes → Except String (Option Bytes)} (h : stores (engine.workerDb entry.2) = .ok db) :
    engine.reconstructBatch stores entry.1 entry.2 = match db entry.1.toVec with
      | .ok (some res) => .ok res
      | .ok none => .error (.notFound entry.1)
      | .error err => .error (.rocksdb err) := by
  rw [reconstructBatch, h]
  rfl

theorem bad_iff {engine : Engine} {entry : Digest × UInt32} :
    Bad stores engine entry ↔ ∃ e, engine.readBatch stores entry.1 entry.2 = .error e := by
  constructor
  · intro h
    cases h with
    | @unopened message hdb =>
      refine ⟨.rocksdb message, ?_⟩
      rw [readBatch, reconstructBatch, hdb]
      rfl
    | @unreadable _ message hdb hget =>
      refine ⟨.rocksdb message, ?_⟩
      rw [readBatch, reconstructBatch_of_open hdb, hget]
      rfl
    | missing hdb hget =>
      refine ⟨.notFound entry.1, ?_⟩
      rw [readBatch, reconstructBatch_of_open hdb, hget]
      rfl
    | malformed hdb hget hbatch =>
      cases hr : engine.readBatch stores entry.1 entry.2 with
      | error e => exact ⟨e, rfl⟩
      | ok txs =>
        obtain ⟨value, hvalue, htxs⟩ := readBatch_ok.mp hr
        rw [reconstructBatch_of_open hdb, hget] at hvalue
        cases hvalue
        exact absurd htxs (hbatch txs)
  · rintro ⟨e, he⟩
    cases hdb : stores (engine.workerDb entry.2) with
    | error message => exact .unopened hdb
    | ok db =>
      have hread := reconstructBatch_of_open hdb
      cases hget : db entry.1.toVec with
      | error message => exact .unreadable hdb hget
      | ok found =>
        cases found with
        | none => exact .missing hdb hget
        | some value =>
          refine .malformed hdb hget fun txs htxs => ?_
          rw [hget] at hread
          cases he.symm.trans (readBatch_ok.mpr ⟨value, hread, htxs⟩)

theorem reconstructs_eq_false {engine : Engine} {certificate : Certificate} :
    engine.reconstructs stores certificate = false ↔
      ∃ entry ∈ certificate.header.payload.entries, Bad stores engine entry := by
  rw [reconstructs, batches, List.all_eq_false]
  simp only [List.mem_map, bad_iff]
  constructor
  · rintro ⟨-, ⟨entry, hmem, rfl⟩, hbad⟩
    cases hr : engine.readBatch stores entry.1 entry.2 with
    | ok txs =>
      rw [hr] at hbad
      exact absurd rfl hbad
    | error e => exact ⟨entry, hmem, e, hr⟩
  · rintro ⟨entry, hmem, e, hr⟩
    refine ⟨_, ⟨entry, hmem, rfl⟩, ?_⟩
    rw [hr]
    exact Bool.false_ne_true

theorem beforeBad_delivered {engine : Engine} {certificate : Certificate}
    (h : engine.reconstructs stores certificate = false) :
    ∃ txss, BeforeBad stores engine certificate txss ∧
      engine.delivered stores certificate = txss.flatten := by
  rw [reconstructs, batches] at h
  simp only [BeforeBad, delivered, batches]
  generalize certificate.header.payload.entries = entries at h
  induction entries with
  | nil => cases h
  | cons entry entries ih =>
    rw [List.map_cons] at h ⊢
    cases hr : engine.readBatch stores entry.1 entry.2 with
    | error e =>
      exact ⟨[], ⟨[], entry, entries, rfl, rfl, bad_iff.mpr ⟨e, hr⟩⟩, rfl⟩
    | ok txs =>
      rw [hr, List.all_cons] at h
      obtain ⟨txss, ⟨before, bad, after, rfl, htxss, hbad⟩, hdelivered⟩ := ih h
      refine ⟨txs :: txss, ⟨entry :: before, bad, after, rfl, ?_, hbad⟩, ?_⟩
      · rw [List.map_cons, List.map_cons, hr, htxss]
      · rw [firstTransactions, hdelivered, List.flatten_cons]

theorem plan_blockScript {engine : Engine} {certificate : Certificate}
    (h : engine.reconstructs stores certificate = false) :
    Step.plan (engine.blockScript stores certificate) =
      .beginBlock engine.next.lastBlockHeight ::
        (engine.delivered stores certificate).map .deliverTx := by
  rw [reconstructs] at h
  rw [blockScript, List.cons_append, List.cons_append, Step.plan, Step.plan, plan_deliveries, h,
    if_neg Bool.false_ne_true, List.append_nil]
  rfl

end Engine

theorem handleCert_engine (certificate : Certificate) (s : Session σ) :
    (final ((handleCert app stores certificate).run s)).engine = s.engine.next := by
  rw [handleCert_refines]
  exact final_blockScript_engine certificate s

theorem handleCert_bad {certificate : Certificate} {s : Session σ}
    (h : s.engine.reconstructs stores certificate = false) :
    ∃ e t, (handleCert app stores certificate).run s = .error e t := by
  cases hrun : (handleCert app stores certificate).run s with
  | error e t => exact ⟨e, t, rfl⟩
  | ok _ t =>
    rw [handleCert_refines] at hrun
    have hall := no_fail_blockScript.mp (Step.not_fail_of_ok hrun)
    cases h.symm.trans hall

theorem unreconstructed_certificate {certificate : Certificate} {s : Session σ}
    (hbad : ∃ entry ∈ certificate.header.payload.entries, Bad stores s.engine entry) :
    ∃ txss e t calls, BeforeBad stores s.engine certificate txss ∧
      (handleCert app stores certificate).run s = .error e t ∧
      t.engine = { s.engine with lastBlockHeight := s.engine.lastBlockHeight + 1 } ∧
      sent t = sent s ++ calls ∧
      calls <+: .beginBlock (s.engine.lastBlockHeight + 1) :: txss.flatten.map .deliverTx ∧
      (app.AnswersBlocks →
        calls = .beginBlock (s.engine.lastBlockHeight + 1) :: txss.flatten.map .deliverTx) := by
  have hfalse := reconstructs_eq_false.mpr hbad
  obtain ⟨txss, hbefore, hdelivered⟩ := beforeBad_delivered hfalse
  obtain ⟨e, t, hrun⟩ := @handleCert_bad σ app stores certificate s hfalse
  have hengine := @handleCert_engine σ app stores certificate s
  rw [hrun] at hengine
  have hscript := hrun
  rw [handleCert_refines] at hscript
  obtain ⟨exchanges, hexchanges, hprefix, -⟩ := Step.perform_all_error hscript
  have hplan := plan_blockScript hfalse
  rw [hdelivered] at hplan
  rw [hplan] at hprefix
  have hsent : sent t = sent s ++ exchanges.map Exchange.call := by
    rw [sent, hexchanges, List.map_append]
    rfl
  refine ⟨txss, e, t, exchanges.map Exchange.call, hbefore, hrun, hengine, hsent, hprefix, ?_⟩
  intro happ
  have hclear : Step.Clear app (s.engine.blockScript stores certificate) s.app :=
    Step.clear_of_no_ask (no_ask_blockScript s.engine certificate) s.app
  have hsends := (Step.run_clear happ hclear).1
  rw [hscript, hplan] at hsends
  exact List.append_cancel_left (hsent.symm.trans hsends)

namespace Reference

-- the second batch of the certificate is in no store
def firstOnly (key : Bytes) : Option Bytes :=
  if key = (digest 1).toVec then some (batch [1]) else none

def started : Session Unit := Session.start engine ()

theorem bad_certificate : ∃ entry ∈ certificate.header.payload.entries,
    Bad (database firstOnly) started.engine entry :=
  ⟨_, List.mem_cons_of_mem _ List.mem_cons_self, .missing rfl rfl⟩

end Reference

open Reference

theorem unreconstructed_certificate_second :
    ∃ txss e t calls, BeforeBad (database firstOnly) started.engine certificate txss ∧
      (handleCert answering (database firstOnly) certificate).run started = .error e t ∧
      t.engine =
        { started.engine with lastBlockHeight := started.engine.lastBlockHeight + 1 } ∧
      sent t = sent started ++ calls ∧
      calls <+:
        .beginBlock (started.engine.lastBlockHeight + 1) :: txss.flatten.map .deliverTx ∧
      (answering.AnswersBlocks → calls =
        .beginBlock (started.engine.lastBlockHeight + 1) :: txss.flatten.map .deliverTx) :=
  unreconstructed_certificate bad_certificate

theorem first_batch_delivered :
    (∃ entry ∈ certificate.header.payload.entries,
      Bad (database firstOnly) started.engine entry) ∧
    (∃ e t, (handleCert answering (database firstOnly) certificate).run started = .error e t) ∧
    sent (final ((handleCert answering (database firstOnly) certificate).run started)) =
      [.beginBlock 1, .deliverTx [1]] ∧
    (final ((handleCert answering (database firstOnly) certificate).run
      started)).engine.lastBlockHeight ≠ started.engine.lastBlockHeight := by
  refine ⟨bad_certificate, handleCert_bad (reconstructs_eq_false.mpr bad_certificate), rfl, ?_⟩
  rw [handleCert_engine]
  decide

end Narwhal
