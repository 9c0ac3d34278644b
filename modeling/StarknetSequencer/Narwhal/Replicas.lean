import StarknetSequencer.Narwhal.Protocol

namespace Narwhal

open Wire Effect Session Engine

variable {σ : Type} {app : AbciApp σ} {stores : Stores}

namespace Engine

theorem readBatch_ok {engine : Engine} {digest : Digest} {workerId : UInt32} {txs : List Bytes} :
    engine.readBatch stores digest workerId = .ok txs ↔
      ∃ value, engine.reconstructBatch stores digest workerId = .ok value ∧
        WorkerMessage.codec.deserialize value = some (.batch txs) := by
  rw [readBatch]
  cases engine.reconstructBatch stores digest workerId with
  | error e => simp [Except.bind]
  | ok value =>
    rw [Except.bind, parseBatch]
    cases hd : WorkerMessage.codec.deserialize value with
    | none => simp [hd]
    | some message =>
      cases message with
      | batch txs' => simp [hd]

theorem delivered_eq_flatMap {engine : Engine} {certificate : Certificate}
    {batch : Digest × UInt32 → List Bytes}
    (h : engine.reconstructs stores certificate = true)
    (hread : ∀ entry ∈ certificate.header.payload.entries, ∀ txs,
      engine.readBatch stores entry.1 entry.2 = .ok txs → txs = batch entry) :
    engine.delivered stores certificate =
      certificate.header.payload.entries.flatMap batch := by
  rw [reconstructs, batches] at h
  rw [delivered, batches]
  generalize certificate.header.payload.entries = entries at h hread
  induction entries with
  | nil => rfl
  | cons entry entries ih =>
    rw [List.forall_mem_cons] at hread
    rw [List.map_cons, List.all_cons, Bool.and_eq_true] at h
    rw [List.map_cons, List.flatMap_cons]
    cases hr : engine.readBatch stores entry.1 entry.2 with
    | error e =>
      rw [hr] at h
      cases h.1
    | ok txs => rw [firstTransactions, ih h.2 hread.2, hread.1 txs hr]

end Engine

-- what the store gives back for a reference is `bincode::serialize(&WorkerMessage::Batch(txs))`
def Serialises (stores : Stores) (engine : Engine) (entry : Digest × UInt32)
    (txs : List Bytes) : Prop :=
  ∀ value, engine.reconstructBatch stores entry.1 entry.2 = .ok value →
    value = WorkerMessage.codec.encode (.batch txs) ∧ WorkerMessage.codec.fits (.batch txs)

def Agree (stores₁ stores₂ : Stores) (engine₁ engine₂ : Engine) (entry : Digest × UInt32) :
    Prop :=
  ∀ value₁ value₂, engine₁.reconstructBatch stores₁ entry.1 entry.2 = .ok value₁ →
    engine₂.reconstructBatch stores₂ entry.1 entry.2 = .ok value₂ → value₁ = value₂

theorem Serialises.readBatch {engine : Engine} {entry : Digest × UInt32} {txs txs' : List Bytes}
    (h : Serialises stores engine entry txs)
    (hread : engine.readBatch stores entry.1 entry.2 = .ok txs') : txs' = txs := by
  obtain ⟨value, hvalue, hd⟩ := readBatch_ok.mp hread
  obtain ⟨rfl, hfits⟩ := h value hvalue
  rw [WorkerMessage.codec.deserialize_encode hfits] at hd
  cases hd
  rfl

theorem Serialises.agree {stores₁ stores₂ : Stores} {engine₁ engine₂ : Engine}
    {entry : Digest × UInt32} {txs : List Bytes} (h : Serialises stores₁ engine₁ entry txs)
    (hagree : Agree stores₁ stores₂ engine₁ engine₂ entry)
    (hread : (engine₁.readBatch stores₁ entry.1 entry.2).isOk = true) :
    Serialises stores₂ engine₂ entry txs := by
  intro value₂ h₂
  cases hr : engine₁.readBatch stores₁ entry.1 entry.2 with
  | error e =>
    rw [hr] at hread
    cases hread
  | ok txs' =>
    obtain ⟨value₁, h₁, -⟩ := readBatch_ok.mp hr
    rw [← hagree value₁ value₂ h₁ h₂]
    exact h value₁ h₁

section Agreement

variable {τ : Type} {app₁ : AbciApp σ} {app₂ : AbciApp τ} {stores₁ stores₂ : Stores}
  {certificates : List Certificate} {queries queries₁ queries₂ : List AbciQuery}
  {events events₁ events₂ : List Event}

theorem sent_of_serialises (h : Selects certificates queries events) {engine : Engine}
    {batch : Digest × UInt32 → List Bytes}
    (hstored : ∀ certificate ∈ certificates, ∀ entry ∈ certificate.header.payload.entries,
      Serialises stores engine entry (batch entry)) {s : σ} {t : Session σ}
    (hrun : (run app stores events).run (Session.start engine s) = .ok () t) :
    sent t = .initChain :: chainCalls engine.lastBlockHeight
      (certificates.map fun certificate => certificate.header.payload.entries.flatMap batch) := by
  obtain ⟨hall, first, exchanges, hexchanges, hfirst, hplan, -⟩ := run_ok h hrun
  have ht : t.exchanges = first :: exchanges := hexchanges
  have hblocks : certificates.map (engine.delivered stores) =
      certificates.map fun certificate => certificate.header.payload.entries.flatMap batch := by
    apply List.map_congr_left
    intro certificate hc
    exact delivered_eq_flatMap (hall certificate hc) fun entry hentry txs hread =>
      (hstored certificate hc entry hentry).readBatch hread
  have hcalls : exchanges.map Exchange.call =
      chainCalls engine.lastBlockHeight (certificates.map (engine.delivered stores)) :=
    hplan.trans (plan_complete hall)
  rw [sent, ht, List.map_cons, hfirst, hcalls, hblocks]

theorem replicas_agree (h₁ : Selects certificates queries₁ events₁)
    (h₂ : Selects certificates queries₂ events₂) {engine₁ engine₂ : Engine}
    (hheight : engine₁.lastBlockHeight = engine₂.lastBlockHeight)
    {batch : Digest × UInt32 → List Bytes}
    (hstored : ∀ certificate ∈ certificates, ∀ entry ∈ certificate.header.payload.entries,
      Serialises stores₁ engine₁ entry (batch entry))
    (hagree : ∀ certificate ∈ certificates, ∀ entry ∈ certificate.header.payload.entries,
      Agree stores₁ stores₂ engine₁ engine₂ entry)
    {s₁ : σ} {s₂ : τ} {t₁ : Session σ} {t₂ : Session τ}
    (hrun₁ : (run app₁ stores₁ events₁).run (Session.start engine₁ s₁) = .ok () t₁)
    (hrun₂ : (run app₂ stores₂ events₂).run (Session.start engine₂ s₂) = .ok () t₂) :
    sent t₁ = .initChain :: chainCalls engine₁.lastBlockHeight
      (certificates.map fun certificate => certificate.header.payload.entries.flatMap batch) ∧
    sent t₂ = sent t₁ := by
  have hsent := sent_of_serialises h₁ hstored hrun₁
  have hall := (run_ok h₁ hrun₁).1
  have hstored₂ : ∀ certificate ∈ certificates, ∀ entry ∈ certificate.header.payload.entries,
      Serialises stores₂ engine₂ entry (batch entry) := by
    intro certificate hc entry hentry
    apply (hstored certificate hc entry hentry).agree (hagree certificate hc entry hentry)
    exact List.all_eq_true.mp (hall certificate hc) _ (List.mem_map_of_mem hentry)
  refine ⟨hsent, ?_⟩
  rw [hsent, sent_of_serialises h₂ hstored₂ hrun₂, hheight]

end Agreement

open Reference

namespace Reference

def storedElsewhere (key : Bytes) : Option Bytes :=
  if key = (digest 3).toVec then some [] else stored key

def query (listening : Bool) : AbciQuery where
  listening
  req := { path := "", data := "", height := none, prove := none }

def batchOf (entry : Digest × UInt32) : List Bytes :=
  if entry.1 = digest 1 then [[1]] else [[2]]

theorem fits_batch (b : UInt8) : WorkerMessage.codec.fits (.batch [[b]]) := by
  have hone : 1 < 256 ^ 8 := by decide
  refine ⟨(by decide : 0 < 256 ^ 4), hone, ?_⟩
  intro tx htx
  cases List.mem_singleton.mp htx
  exact ⟨hone, fun _ _ => trivial⟩

theorem serialises_stored (certificate : Certificate) (hc : certificate ∈ [Reference.certificate])
    (entry : Digest × UInt32) (hentry : entry ∈ certificate.header.payload.entries) :
    Serialises (database stored) engine entry (batchOf entry) := by
  cases List.mem_singleton.mp hc
  intro value h
  rcases List.mem_cons.mp hentry with rfl | hentry
  · cases h
    exact ⟨rfl, fits_batch 1⟩
  · cases List.mem_singleton.mp hentry
    cases h
    exact ⟨rfl, fits_batch 2⟩

theorem agree_stored (certificate : Certificate) (hc : certificate ∈ [Reference.certificate])
    (entry : Digest × UInt32) (hentry : entry ∈ certificate.header.payload.entries) :
    Agree (database stored) (database storedElsewhere) engine engine entry := by
  cases List.mem_singleton.mp hc
  intro value₁ value₂ h₁ h₂
  rcases List.mem_cons.mp hentry with rfl | hentry
  · cases h₁
    cases h₂
    rfl
  · cases List.mem_singleton.mp hentry
    cases h₁
    cases h₂
    rfl

def calls : List BlockCall :=
  [.initChain, .beginBlock 1, .deliverTx [1], .deliverTx [2], .endBlock 1, .commit]

def finished : Session Unit where
  engine := { storePath := "db", lastBlockHeight := 1 }
  app := ()
  exchanges := calls.map fun call => ⟨call, .ok ()⟩

theorem run_stored :
    (run answering (database stored) [.certificate certificate]).run (Session.start engine ()) =
      .ok () finished := rfl

theorem run_storedElsewhere :
    (run answering (database storedElsewhere)
      [.query (query true), .certificate certificate]).run (Session.start engine ()) =
        .ok () finished := rfl

end Reference

theorem replicas_agree_elsewhere :
    ∃ t₁ t₂, (run answering (database stored) [.certificate certificate]).run
        (Session.start Reference.engine ()) = .ok () t₁ ∧
      (run answering (database storedElsewhere)
        [.query (query true), .certificate certificate]).run
          (Session.start Reference.engine ()) = .ok () t₂ ∧
      sent t₁ = .initChain :: chainCalls 0 [[[1], [2]]] ∧ sent t₂ = sent t₁ := by
  have h₁ : Selects [certificate] [] [.certificate certificate] := .certificate _ .closed
  have h₂ : Selects [certificate] [query true] [.query (query true), .certificate certificate] :=
    .query _ h₁
  refine ⟨finished, finished, run_stored, run_storedElsewhere, ?_⟩
  exact replicas_agree h₁ h₂ rfl serialises_stored agree_stored run_stored run_storedElsewhere

end Narwhal
