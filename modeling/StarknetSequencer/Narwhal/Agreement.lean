import StarknetSequencer.Narwhal.Service

namespace Narwhal

open Wire Effect Session Engine Node

variable {σ : Type} {app : AbciApp σ} {stores : Stores}

theorem chainCalls_cons (height : Int64) (txs : List Bytes) (blocks : List (List Bytes)) :
    chainCalls height (txs :: blocks) =
      .beginBlock (height + 1) :: (txs.map .deliverTx ++
        ([.endBlock (height + 1), .commit] ++ chainCalls (height + 1) blocks)) := by
  rw [chainCalls, blockCalls, List.append_assoc]
  rfl

theorem chainCalls_append (height : Int64) (blocks later : List (List Bytes)) :
    ∃ height', chainCalls height (blocks ++ later) =
      chainCalls height blocks ++ chainCalls height' later := by
  induction blocks generalizing height with
  | nil => exact ⟨height, rfl⟩
  | cons txs blocks ih =>
    obtain ⟨height', h⟩ := ih (height + 1)
    refine ⟨height', ?_⟩
    rw [List.cons_append, chainCalls, h, chainCalls, List.append_assoc]

theorem chainCalls_initial (height : Int64) {blocks blocks' : List (List Bytes)}
    (h : blocks <+: blocks') : chainCalls height blocks <+: chainCalls height blocks' := by
  obtain ⟨later, rfl⟩ := h
  obtain ⟨height', h⟩ := chainCalls_append height blocks later
  exact ⟨_, h.symm⟩

-- the transactions of a certificate whose batches are known
def Certificate.contents (batch : Digest × UInt32 → List Bytes) (certificate : Certificate) :
    List Bytes := certificate.header.payload.entries.flatMap batch

namespace Engine

variable {batch : Digest × UInt32 → List Bytes}

theorem delivered_initial {engine : Engine} {certificate : Certificate}
    (hread : ∀ entry ∈ certificate.header.payload.entries, ∀ txs,
      engine.readBatch stores entry.1 entry.2 = .ok txs → txs = batch entry) :
    engine.delivered stores certificate <+: certificate.contents batch := by
  rw [delivered, batches, Certificate.contents]
  generalize certificate.header.payload.entries = entries at hread
  induction entries with
  | nil => exact List.prefix_rfl
  | cons entry entries ih =>
    rw [List.forall_mem_cons] at hread
    rw [List.map_cons, List.flatMap_cons]
    cases hr : engine.readBatch stores entry.1 entry.2 with
    | error e => exact List.nil_prefix
    | ok txs =>
      rw [firstTransactions, hread.1 txs hr]
      exact (List.prefix_append_right_inj _).mpr (ih hread.2)

theorem plan_initial {engine : Engine} {certificates : List Certificate}
    (hread : ∀ certificate ∈ certificates, ∀ entry ∈ certificate.header.payload.entries, ∀ txs,
      engine.readBatch stores entry.1 entry.2 = .ok txs → txs = batch entry) :
    engine.plan stores certificates <+:
      chainCalls engine.lastBlockHeight (certificates.map (Certificate.contents batch)) := by
  induction certificates generalizing engine with
  | nil => exact List.prefix_rfl
  | cons certificate certificates ih =>
    rw [List.forall_mem_cons] at hread
    rw [plan, List.map_cons, chainCalls_cons, List.cons_append]
    apply (List.prefix_cons_inj _).mpr
    cases hr : engine.reconstructs stores certificate with
    | true =>
      have hdelivered : engine.delivered stores certificate = certificate.contents batch :=
        delivered_eq_flatMap hr hread.1
      rw [if_pos rfl, hdelivered]
      apply (List.prefix_append_right_inj _).mpr
      exact (List.prefix_append_right_inj _).mpr (@ih engine.next hread.2)
    | false =>
      rw [if_neg Bool.false_ne_true, List.append_nil]
      exact ((delivered_initial hread.1).map _).trans (List.prefix_append ..)

end Engine

-- the batches of `certificates` are in the stores as their workers wrote them, if they are there
def Stored (stores : Stores) (engine : Engine) (batch : Digest × UInt32 → List Bytes)
    (certificates : List Certificate) : Prop :=
  ∀ certificate ∈ certificates, ∀ entry ∈ certificate.header.payload.entries,
    Serialises stores engine entry (batch entry)

section Agreement

variable {batch : Digest × UInt32 → List Bytes} {order : List Certificate} {engine : Engine}
  {s : σ} {n : Node σ} {actions : List Action} {events : List Event}

theorem run_within (hstored : Stored stores engine batch (certificates events)) (s : σ) :
    sent (final ((run app stores events).run (Session.start engine s))) <+:
      .initChain :: chainCalls engine.lastBlockHeight
        ((certificates events).map (Certificate.contents batch)) := by
  rcases run_sends (selects_of_events events) engine s with ⟨hnone, -⟩ | ⟨calls, hsent, hcalls, -⟩
  · rw [hnone]
    exact List.nil_prefix
  · rw [hsent]
    apply (List.prefix_cons_inj _).mpr
    apply hcalls.trans
    exact plan_initial fun certificate hc entry hentry txs hread =>
      (hstored certificate hc entry hentry).readBatch hread

theorem Node.Runs.sent_within (h : Runs app stores (Node.start engine s) actions events n)
    (hstored : Stored stores engine batch order) (horder : outputs actions <+: order) :
    sent n.session <+: .initChain :: chainCalls engine.lastBlockHeight
      (order.map (Certificate.contents batch)) := by
  have houtputs : certificates events <+: outputs actions := ⟨n.output, h.outputs_eq rfl⟩
  have hcertificates : certificates events <+: order := houtputs.trans horder
  have hevents : Stored stores engine batch (certificates events) := fun certificate hc =>
    hstored certificate (hcertificates.subset hc)
  have hrun := @run_within σ app stores batch engine events hevents s
  have hsession : sent n.session <+: .initChain :: chainCalls engine.lastBlockHeight
      ((certificates events).map (Certificate.contents batch)) := by
    have hran := h.ran
    rw [Ran] at hran
    cases hphase : n.phase with
    | starting =>
      rw [hphase] at hran
      rw [hran.1]
      exact List.nil_prefix
    | serving =>
      rw [hphase] at hran
      rwa [hran] at hrun
    | exited e =>
      rw [hphase] at hran
      rwa [hran] at hrun
  apply hsession.trans
  apply (List.prefix_cons_inj _).mpr
  exact chainCalls_initial _ (hcertificates.map _)

end Agreement

-- primaries that are given parts of one order of certificates never send their apps different
-- chains, whatever their clients ask, whenever they fail and whatever their workers still miss
theorem nodes_agree {ι : Type} {σ : ι → Type} {app : ∀ i, AbciApp (σ i)} {stores : ι → Stores}
    {engine : ι → Engine} {s : ∀ i, σ i} {actions : ι → List Action} {events : ι → List Event}
    {n : ∀ i, Node (σ i)} {batch : Digest × UInt32 → List Bytes} {order : List Certificate}
    {height : Int64}
    (hruns : ∀ i, Runs (app i) (stores i) (Node.start (engine i) (s i)) (actions i) (events i) (n i))
    (hheight : ∀ i, (engine i).lastBlockHeight = height)
    (hstored : ∀ i, Stored (stores i) (engine i) batch order)
    (horder : ∀ i, outputs (actions i) <+: order) (i j : ι) :
    sent (n i).session <+: .initChain :: chainCalls height (order.map (Certificate.contents batch)) ∧
      (sent (n i).session <+: sent (n j).session ∨ sent (n j).session <+: sent (n i).session) := by
  have hwithin (i : ι) : sent (n i).session <+:
      .initChain :: chainCalls height (order.map (Certificate.contents batch)) := by
    rw [← hheight i]
    exact (hruns i).sent_within (hstored i) (horder i)
  exact ⟨hwithin i, List.prefix_or_prefix_of_prefix (hwithin i) (hwithin j)⟩

open Reference

namespace Reference

def delivering : List Action := [.initChain, .output certificate, .certificate]

def delivered : Node Unit where
  session := finished
  phase := .serving
  requests := []
  queue := []
  output := []

theorem runs_delivering : Runs answering (database stored) (Node.start engine ()) delivering
    [.certificate certificate] delivered := by
  have h₁ : Runs answering (database stored) (Node.start engine ()) _ _ (serving [] []) :=
    .step .refl (.initChain rfl)
  have hroom : (serving [] []).output.length < channelCapacity := by decide
  have h₂ : Runs answering (database stored) (Node.start engine ()) _ _
    { serving [] [] with output := [certificate] } :=
      .step h₁ (.output certificate (alive_serving _ _) hroom)
  exact .step h₂ (@Acts.certificate Unit answering (database stored)
    { serving [] [] with output := [certificate] } certificate [] rfl rfl)

theorem stored_certificate : Stored (database stored) engine batchOf [certificate] :=
  serialises_stored

end Reference

theorem nodes_agree_one_behind :
    sent delivered.session <+: .initChain :: chainCalls 0 [[[1], [2]]] ∧
      (sent delivered.session <+: sent (serving [] []).session ∨
        sent (serving [] []).session <+: sent delivered.session) := by
  let n : Bool → Node Unit := fun b => if b then delivered else serving [] []
  let actions : Bool → List Action := fun b => if b then delivering else [.initChain]
  let events : Bool → List Event := fun b => if b then [.certificate certificate] else []
  have hruns : ∀ b, Runs answering (database stored) (Node.start Reference.engine ()) (actions b)
      (events b) (n b) := by
    intro b
    cases b with
    | true => exact runs_delivering
    | false => exact .step .refl (.initChain rfl)
  have horder : ∀ b, outputs (actions b) <+: [certificate] := by
    intro b
    cases b with
    | true => exact List.prefix_rfl
    | false => exact List.nil_prefix
  exact nodes_agree hruns (fun _ => rfl) (fun _ => stored_certificate) horder true false

end Narwhal
