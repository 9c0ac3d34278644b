import StarknetSequencer.Effect.Frame
import StarknetSequencer.Sequencer.Reachable
import StarknetSequencer.Sequencer.Reference

namespace Sequencer

open Wire Effect StarknetApp

variable {C S I : Type} (L : Starknet C S I)

def Request.consensus : Request → Bool
  | .beginBlock => true
  | .deliverTx _ => true
  | .endBlock => true
  | .commit => true
  | _ => false

-- one call of the consensus connection: what it answered and the height left in the file
structure Observation where
  outcome : Except Panic Response
  height : Option Int64

def observe (result : EStateM.Result Panic (StarknetApp S) Response) : Observation where
  outcome := value result
  height := (final result).heightFile.bind HeightFile.decode

-- a panic unwinds the thread of its own connection, the next call is served all the same
def serve : StarknetApp S → List Request → List Observation
  | _, [] => []
  | app, request :: requests =>
    let result := (request.handle L).run app
    if request.consensus then observe result :: serve (final result) requests
    else serve (final result) requests

def startHeight : Option Bytes → Option Int64
  | none => some 0
  | some bytes => HeightFile.decode bytes

def StarknetApp.withFile (file : Option Bytes) (app : StarknetApp S) : StarknetApp S :=
  { app with heightFile := file }

variable {L}

theorem new_atHeight {heightFile : Option Bytes} {app : StarknetApp S} {height : Int64}
    (hnew : StarknetApp.new L heightFile = .ok app) (ha : app.AtHeight height) :
    startHeight heightFile = some height := by
  obtain ⟨bytes, hfile, hdec⟩ := ha
  cases heightFile with
  | none =>
    cases hnew
    cases hfile
    rw [HeightFile.decode_encode] at hdec
    exact hdec
  | some contents =>
    cases hd : HeightFile.decode contents with
    | none => simp [StarknetApp.new, HeightFile.readOrCreate, hd] at hnew
    | some h =>
      simp only [StarknetApp.new, HeightFile.readOrCreate, EStateM.run_bind, EStateM.run_get, hd,
        run_orThrow_some, Except.ok.injEq] at hnew
      rw [← hnew] at hfile
      cases hfile
      exact hdec

theorem handle_frame {request : Request} {app : StarknetApp S} (h : app.Running)
    (hr : request.consensus = false) : final ((request.handle L).run app) = app := by
  obtain ⟨height, ha⟩ := h.atHeight
  cases request with
  | info => rw [Request.handle, final_map, run_info ha, final_ok]
  | checkTx tx =>
    rw [Request.handle, final_map, StarknetApp.checkTx]
    cases transactionCodec.deserialize tx <;> rfl
  | initChain => rfl
  | query => rfl
  | prepareProposal txs maxTxBytes => rfl
  | processProposal => rfl
  | beginBlock => cases hr
  | deliverTx tx => cases hr
  | endBlock => cases hr
  | commit => cases hr

theorem serve_filter {app : StarknetApp S} (h : app.Running) (requests : List Request) :
    serve L app requests = serve L app (requests.filter Request.consensus) := by
  induction requests generalizing app with
  | nil => rfl
  | cons request requests ih =>
    cases hr : request.consensus with
    | true =>
      rw [List.filter_cons_of_pos hr, serve, serve, if_pos hr, if_pos hr]
      rw [ih (handle_running request h)]
    | false =>
      rw [List.filter_cons_of_neg (by simp [hr]), serve, if_neg (by simp [hr]),
        handle_frame h hr]
      exact ih h

theorem deliver_withFile (file : Option Bytes) (t : TransactionType) :
    Commutes (withFile file) (deliver L t) := by
  have hstate {α : Type} (m : EStateM Panic S α) : Commutes (withFile file) (withState m) :=
    Commutes.zoom _ (fun _ => rfl) fun _ _ => rfl
  cases t with
  | declare program =>
    apply Commutes.bind (Commutes.orThrow _ _)
    intro contractClass
    apply Commutes.bind (Commutes.lift _)
    intro felt
    exact Commutes.bind (hstate _) fun done => Commutes.orThrow _ _
  | deployAccount classHash salt inputs =>
    apply Commutes.bind (Commutes.lift _)
    intro tail
    apply Commutes.bind (Commutes.lift _)
    intro felt
    apply Commutes.bind (Commutes.lift _)
    intro address
    apply Commutes.bind (hstate _)
    intro done
    exact Commutes.bind (Commutes.lift _) fun txHash => Commutes.pure ()
  | invoke address function inputs =>
    refine Commutes.bind (Commutes.bind (Commutes.lift _) ?_) fun result => Commutes.pure ()
    intro tail
    cases L.fromStrRadix16 tail with
    | error e => exact Commutes.pure _
    | ok contractAddress => exact Commutes.bind (hstate _) fun result => Commutes.orThrow _ _

theorem deliverTx_withFile (file : Option Bytes) (tx : Bytes) :
    Commutes (withFile file) (deliverTx L tx) := by
  have hhasher {α : Type} (m : EStateM Panic Bytes α) :
      Commutes (withFile file) (withHasher m : Hook S (Option α)) :=
    Commutes.zoom _ (fun _ => rfl) fun _ _ => rfl
  apply Commutes.bind (Commutes.orThrow _ _)
  intro transaction
  apply Commutes.bind (Commutes.lift _)
  intro txHash
  refine Commutes.bind (Commutes.modify ?_) ?_
  · exact fun app => rfl
  intro _
  split
  · apply Commutes.bind (hhasher _)
    intro done
    exact Commutes.bind (deliver_withFile file _) fun _ => Commutes.pure _
  · exact Commutes.pure _
  · exact Commutes.pure _

structure Aligned (app app' : StarknetApp S) (height height' : Int64) : Prop where
  hasher : app.hasher.poisoned = false
  atHeight : app.AtHeight height
  atHeight' : app'.AtHeight height'
  same : ∃ file, app' = app.withFile file

theorem Aligned.running {app app' : StarknetApp S} {height height' : Int64}
    (h : Aligned app app' height height') : app.Running := ⟨h.hasher, height, h.atHeight⟩

theorem observe_of_commutes {request : Request} {app app' : StarknetApp S} {height height' : Int64}
    (hc : ∀ file, Commutes (withFile file) (request.handle L))
    (hfile : (final ((request.handle L).run app)).heightFile = app.heightFile)
    (hhash : (final ((request.handle L).run app)).hasher.poisoned = false)
    (h : Aligned app app' height height') :
    Aligned (final ((request.handle L).run app)) (final ((request.handle L).run app'))
      height height' ∧
    observe ((request.handle L).run app) = ⟨value ((request.handle L).run app), some height⟩ ∧
    observe ((request.handle L).run app') = ⟨value ((request.handle L).run app), some height'⟩ := by
  obtain ⟨bytes, hbytes, hdec⟩ := h.atHeight
  obtain ⟨bytes', hbytes', hdec'⟩ := h.atHeight'
  obtain ⟨file, rfl⟩ := h.same
  have hf : file = some bytes' := hbytes'
  subst hf
  have hrun : (request.handle L).run (withFile (some bytes') app) =
      mapFinal (withFile (some bytes')) ((request.handle L).run app) := hc _ app
  refine ⟨⟨hhash, ⟨bytes, hfile.trans hbytes, hdec⟩, ⟨bytes', ?_, hdec'⟩, some bytes', ?_⟩, ?_, ?_⟩
  · rw [hrun, final_mapFinal]
    rfl
  · rw [hrun, final_mapFinal]
  · rw [observe, hfile, hbytes, Option.bind_some, hdec]
  · rw [observe, hrun, value_mapFinal, final_mapFinal, withFile, Option.bind_some, hdec']

theorem run_handle_commit {app : StarknetApp S} {height : Int64}
    (hh : app.hasher.poisoned = false) (ha : app.AtHeight height) :
    (Request.commit.handle L).run app = .ok (.commit ⟨L.sha256 app.hasher.data, 0⟩)
      (app.withFile (some (HeightFile.encode (height + 1)))) := by
  rw [Request.handle, run_map, run_commit hh ha]
  rfl

theorem withFile_atHeight (app : StarknetApp S) (height : Int64) :
    (app.withFile (some (HeightFile.encode height))).AtHeight height :=
  ⟨_, rfl, HeightFile.decode_encode height⟩

theorem observe_withFile (response : Response) (app : StarknetApp S) (height : Int64) :
    observe (.ok response (app.withFile (some (HeightFile.encode height)))) =
      ⟨.ok response, some height⟩ := by
  simp only [observe, value_ok, final_ok, withFile, Option.bind_some, HeightFile.decode_encode]

theorem observe_commit {app app' : StarknetApp S} {height height' : Int64}
    (h : Aligned app app' height height') :
    Aligned (final ((Request.commit.handle L).run app))
      (final ((Request.commit.handle L).run app')) (height + 1) (height' + 1) ∧
    observe ((Request.commit.handle L).run app) =
      ⟨value ((Request.commit.handle L).run app), some (height + 1)⟩ ∧
    observe ((Request.commit.handle L).run app') =
      ⟨value ((Request.commit.handle L).run app), some (height' + 1)⟩ := by
  obtain ⟨file, rfl⟩ := h.same
  have hrun := run_handle_commit (L := L) h.hasher h.atHeight
  have hrun' : (Request.commit.handle L).run (app.withFile file) = _ :=
    run_handle_commit h.hasher h.atHeight'
  rw [hrun, hrun']
  exact ⟨⟨h.hasher, withFile_atHeight _ _, withFile_atHeight _ _, _, rfl⟩,
    observe_withFile _ _ _, observe_withFile _ _ _⟩

-- the height each of the two runs is at after a consensus call
def nextHeight (request : Request) (height : Int64) : Int64 :=
  match request with
  | .commit => height + 1
  | _ => height

theorem observe_step {request : Request} (hr : request.consensus = true) {app app' : StarknetApp S}
    {height height' : Int64} (h : Aligned app app' height height') :
    Aligned (final ((request.handle L).run app)) (final ((request.handle L).run app'))
      (nextHeight request height) (nextHeight request height') ∧
    observe ((request.handle L).run app) =
      ⟨value ((request.handle L).run app), some (nextHeight request height)⟩ ∧
    observe ((request.handle L).run app') =
      ⟨value ((request.handle L).run app), some (nextHeight request height')⟩ := by
  cases request with
  | beginBlock =>
    refine observe_of_commutes ?_ rfl h.hasher h
    intro file
    exact Commutes.bind (Commutes.modify fun app => rfl) fun _ => Commutes.pure _
  | deliverTx tx =>
    obtain ⟨hfile, hhash⟩ := final_deliverTx (L := L) tx h.hasher
    apply observe_of_commutes
    · exact fun file => Commutes.map _ (deliverTx_withFile file tx)
    · rw [Request.handle, final_map, hfile]
    · rw [Request.handle, final_map, hhash]
    · exact h
  | endBlock => exact observe_of_commutes (fun file app => rfl) rfl h.hasher h
  | commit => exact observe_commit h
  | initChain => cases hr
  | info => cases hr
  | query => cases hr
  | checkTx tx => cases hr
  | prepareProposal txs maxTxBytes => cases hr
  | processProposal => cases hr

theorem serve_aligned {requests : List Request} (hr : ∀ request ∈ requests, request.consensus)
    {app app' : StarknetApp S} {height height' : Int64} (h : Aligned app app' height height') :
    (serve L app requests).map Observation.outcome =
      (serve L app' requests).map Observation.outcome ∧
    (height = height' → serve L app requests = serve L app' requests) := by
  induction requests generalizing app app' height height' with
  | nil => exact ⟨rfl, fun _ => rfl⟩
  | cons request requests ih =>
    have hfirst : request.consensus = true := hr request (List.mem_cons_self ..)
    obtain ⟨hnext, hobs, hobs'⟩ := observe_step (L := L) hfirst h
    obtain ⟨houtcomes, hsame⟩ := ih (fun r hmem => hr r (List.mem_cons_of_mem _ hmem)) hnext
    rw [serve, serve, if_pos hfirst, if_pos hfirst, hobs, hobs']
    constructor
    · rw [List.map_cons, List.map_cons, houtcomes]
    · rintro rfl
      rw [hsame rfl]

theorem consensus_decides {heightFile heightFile' : Option Bytes} {app app' : StarknetApp S}
    (hnew : StarknetApp.new L heightFile = .ok app)
    (hnew' : StarknetApp.new L heightFile' = .ok app') {requests requests' : List Request}
    (h : requests.filter Request.consensus = requests'.filter Request.consensus) :
    (serve L app requests).map Observation.outcome =
      (serve L app' requests').map Observation.outcome ∧
    (startHeight heightFile = startHeight heightFile' →
      serve L app requests = serve L app' requests') := by
  obtain ⟨hhash, height, ha⟩ := new_running hnew
  obtain ⟨hhash', height', ha'⟩ := new_running hnew'
  have hstart := new_atHeight hnew ha
  have hstart' := new_atHeight hnew' ha'
  have haligned : Aligned app app' height height' := by
    obtain ⟨file, rfl⟩ := new_fresh hnew
    obtain ⟨file', rfl⟩ := new_fresh hnew'
    exact ⟨hhash, ha, ha', file', rfl⟩
  have hcalls : ∀ request ∈ requests.filter Request.consensus, request.consensus = true :=
    fun request hmem => (List.mem_filter.mp hmem).2
  obtain ⟨houtcomes, hsame⟩ := serve_aligned (L := L) hcalls haligned
  rw [serve_filter ⟨hhash, height, ha⟩ requests, serve_filter ⟨hhash', height', ha'⟩ requests', ← h]
  refine ⟨houtcomes, fun hheight => hsame ?_⟩
  rw [hstart, hstart'] at hheight
  exact Option.some.inj hheight

theorem consensus_decides_stray :
    (serve Reference.starknet (fresh Reference.starknet)
      [.checkTx [], .deliverTx (Reference.request Reference.stray), .commit]).map
        Observation.outcome =
      (serve Reference.starknet (fresh Reference.starknet)
        [.info, .deliverTx (Reference.request Reference.stray), .query, .commit]).map
          Observation.outcome ∧
    (startHeight none = startHeight none →
      serve Reference.starknet (fresh Reference.starknet)
        [.checkTx [], .deliverTx (Reference.request Reference.stray), .commit] =
      serve Reference.starknet (fresh Reference.starknet)
        [.info, .deliverTx (Reference.request Reference.stray), .query, .commit]) :=
  consensus_decides new_missing new_missing rfl

end Sequencer
