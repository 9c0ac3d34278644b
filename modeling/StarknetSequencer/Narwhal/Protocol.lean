import StarknetSequencer.Narwhal.Plan

namespace Narwhal

open Wire Effect Session Engine

variable {σ : Type} {app : AbciApp σ} {stores : Stores}

def Exchange.Passed (exchange : Exchange) : Prop :=
  exchange.answer = .ok () ∨
    exchange.call = .initChain ∧ ∃ err, exchange.answer = .error err ∧ alreadyInitialized err

def Session.start (engine : Engine) (s : σ) : Session σ where
  engine
  app := s
  exchanges := []

def AbciApp.started (app : AbciApp σ) (s : σ) : σ :=
  final ((app.call .initChain).run (final (app.connect.run s)))

theorem run_initChain_refused {s : Session σ} {e : String} {t : σ}
    (h : app.connect.run s.app = .error e t) :
    (initChain app).run s = .error (.client e) { s with app := t } := by
  simp only [initChain, connect, EStateM.run_bind, run_withApp, h]
  rfl

theorem run_initChain {s : Session σ} {t : σ} (h : app.connect.run s.app = .ok () t) :
    ∃ answer, value ((app.call .initChain).run t) = answer ∧
      (initChain app).run s =
        let session : Session σ :=
          ⟨s.engine, app.started s.app, s.exchanges ++ [⟨.initChain, answer⟩]⟩
        match answer with
        | .ok _ => .ok () session
        | .error err =>
          if alreadyInitialized err then .ok () session else .error (.client err) session := by
  refine ⟨_, rfl, ?_⟩
  simp only [initChain, connect, EStateM.run_bind, run_withApp, run_exchange, h, AbciApp.started,
    value_ok, final_ok, Except.mapError, run_lift_ok]
  cases (app.call .initChain).run t with
  | ok _ u => rfl
  | error err u =>
    simp only [value_error]
    split <;> rfl

theorem initChain_ok {s t : Session σ} (h : (initChain app).run s = .ok () t) :
    ∃ first : Exchange, first.call = .initChain ∧ first.Passed ∧
      t = ⟨s.engine, app.started s.app, s.exchanges ++ [first]⟩ := by
  cases hc : app.connect.run s.app with
  | error e u =>
    rw [run_initChain_refused hc] at h
    cases h
  | ok _ u =>
    obtain ⟨answer, -, hrun⟩ := run_initChain hc
    rw [hrun] at h
    refine ⟨⟨.initChain, answer⟩, rfl, ?_⟩
    cases answer with
    | ok _ =>
      cases h
      exact ⟨.inl rfl, rfl⟩
    | error err =>
      cases hi : alreadyInitialized err with
      | true =>
        simp only [hi, if_true] at h
        cases h
        exact ⟨.inr ⟨rfl, err, rfl, hi⟩, rfl⟩
      | false =>
        simp only [hi] at h
        cases h

theorem initChain_error {s t : Session σ} {e : EngineError}
    (h : (initChain app).run s = .error e t) :
    (∃ message u, app.connect.run s.app = .error message u ∧ t.exchanges = s.exchanges) ∨
      ∃ first : Exchange, first.call = .initChain ∧ t.exchanges = s.exchanges ++ [first] := by
  cases hc : app.connect.run s.app with
  | error message u =>
    rw [run_initChain_refused hc] at h
    cases h
    exact .inl ⟨message, u, rfl, rfl⟩
  | ok _ u =>
    obtain ⟨answer, -, hrun⟩ := run_initChain hc
    rw [hrun] at h
    refine .inr ⟨⟨.initChain, answer⟩, rfl, ?_⟩
    cases answer with
    | ok _ => cases h
    | error err =>
      cases hi : alreadyInitialized err with
      | true =>
        simp only [hi, if_true] at h
        cases h
      | false =>
        simp only [hi] at h
        cases h
        rfl

theorem run_eq (events : List Event) (s : Session σ) :
    (run app stores events).run s = match (initChain app).run s with
      | .ok _ t => (forM (t.engine.script stores events) (Step.perform app)).run t
      | .error e t => .error e t := by
  rw [run, EStateM.run_bind]
  cases (initChain app).run s with
  | ok _ t => exact loop_refines events t
  | error e t => rfl

section Run

variable {certificates : List Certificate} {queries : List AbciQuery} {events : List Event}

theorem run_ok (h : Selects certificates queries events) {s t : Session σ}
    (hrun : (run app stores events).run s = .ok () t) :
    (∀ certificate ∈ certificates, s.engine.reconstructs stores certificate = true) ∧
      ∃ first exchanges, t.exchanges = s.exchanges ++ first :: exchanges ∧
        first.call = .initChain ∧
        exchanges.map Exchange.call = s.engine.plan stores certificates ∧
          ∀ x ∈ first :: exchanges, x.Passed := by
  rw [run_eq] at hrun
  cases hi : (initChain app).run s with
  | error e u =>
    rw [hi] at hrun
    cases hrun
  | ok _ u =>
    obtain ⟨first, hfirst, hpassed, rfl⟩ := initChain_ok hi
    rw [hi] at hrun
    obtain ⟨exchanges, ht, hplan, hok⟩ := Step.perform_all_ok hrun
    rw [plan_script h] at hplan
    refine ⟨reconstructs_of_not_fail h (Step.not_fail_of_ok hrun), first, exchanges, ?_, hfirst,
      hplan, ?_⟩
    · rw [ht, List.append_assoc, List.singleton_append]
    · exact List.forall_mem_cons.mpr ⟨hpassed, fun x hx => .inl (hok x hx)⟩

theorem run_error (h : Selects certificates queries events) {engine : Engine} {s : σ}
    {t : Session σ} {e : EngineError}
    (hrun : (run app stores events).run (Session.start engine s) = .error e t) :
    ((∃ message u, app.connect.run s = .error message u) ∧ t.exchanges = []) ∨
      ∃ first exchanges, t.exchanges = first :: exchanges ∧ first.call = .initChain ∧
        exchanges.map Exchange.call <+: engine.plan stores certificates ∧
          ∀ x ∈ (first :: exchanges).dropLast, x.Passed := by
  rw [run_eq] at hrun
  cases hi : (initChain app).run (Session.start engine s) with
  | error e u =>
    rw [hi] at hrun
    cases hrun
    rcases initChain_error hi with ⟨message, u, hc, ht⟩ | ⟨first, hfirst, ht⟩
    · exact .inl ⟨⟨message, u, hc⟩, ht⟩
    · exact .inr ⟨first, [], ht, hfirst, List.nil_prefix, by simp⟩
  | ok _ u =>
    obtain ⟨first, hfirst, hpassed, rfl⟩ := initChain_ok hi
    rw [hi] at hrun
    obtain ⟨exchanges, ht, hplan, hok⟩ := Step.perform_all_error hrun
    rw [plan_script h] at hplan
    refine .inr ⟨first, exchanges, ht, hfirst, hplan, ?_⟩
    intro x hx
    cases exchanges with
    | nil => simp at hx
    | cons y ys =>
      rw [List.dropLast_cons_of_ne_nil (List.cons_ne_nil y ys)] at hx
      rcases List.mem_cons.mp hx with rfl | hx
      · exact hpassed
      · exact .inl (hok x hx)

theorem run_append {e : EngineError} {s t : Session σ} (later : List Event)
    (h : (run app stores events).run s = .error e t) :
    (run app stores (events ++ later)).run s = .error e t := by
  rw [run, EStateM.run_bind] at h ⊢
  cases hi : (initChain app).run s with
  | error e' u =>
    rw [hi] at h
    exact h
  | ok _ u =>
    rw [hi] at h
    exact run_forM_append_error h

theorem run_sends (h : Selects certificates queries events) (engine : Engine) (s : σ) :
    let result := (run app stores events).run (Session.start engine s)
    (sent (final result) = [] ∧ value result ≠ .ok () ∧
        ∃ message t, app.connect.run s = .error message t) ∨
      ∃ calls, sent (final result) = .initChain :: calls ∧
        calls <+: engine.plan stores certificates ∧
        (value result = .ok () → calls = engine.plan stores certificates ∧
          ∀ certificate ∈ certificates, engine.reconstructs stores certificate = true) := by
  intro result
  cases hr : result with
  | ok _ t =>
    obtain ⟨hall, first, exchanges, hexchanges, hfirst, hplan, -⟩ := run_ok h hr
    have ht : t.exchanges = first :: exchanges := hexchanges
    refine .inr ⟨exchanges.map Exchange.call, ?_, ?_, fun _ => ⟨hplan, hall⟩⟩
    · rw [final_ok, sent, ht, List.map_cons, hfirst]
    · exact hplan ▸ List.prefix_rfl
  | error e t =>
    have hne : value (.error e t : EStateM.Result EngineError (Session σ) Unit) ≠ .ok () := nofun
    rcases run_error h hr with ⟨hconnect, ht⟩ | ⟨first, exchanges, ht, hfirst, hplan, -⟩
    · refine .inl ⟨?_, hne, hconnect⟩
      rw [final_error, sent, ht, List.map_nil]
    · refine .inr ⟨exchanges.map Exchange.call, ?_, hplan, fun hok => absurd hok hne⟩
      rw [final_error, sent, ht, List.map_cons, hfirst]

theorem run_passed (h : Selects certificates queries events) (engine : Engine) (s : σ) :
    ∀ x ∈ (final ((run app stores events).run (Session.start engine s))).exchanges.dropLast,
      x.Passed := by
  intro x hx
  cases hr : (run app stores events).run (Session.start engine s) with
  | ok _ t =>
    obtain ⟨-, first, exchanges, hexchanges, -, -, hpassed⟩ := run_ok h hr
    have ht : t.exchanges = first :: exchanges := hexchanges
    rw [hr, final_ok, ht] at hx
    exact hpassed x (List.mem_of_mem_dropLast hx)
  | error e t =>
    rw [hr, final_error] at hx
    rcases run_error h hr with ⟨-, ht⟩ | ⟨first, exchanges, ht, -, -, hpassed⟩
    · rw [ht] at hx
      cases hx
    · rw [ht] at hx
      exact hpassed x hx

theorem block_call_protocol (hevents : Selects certificates queries events) {engine : Engine}
    {s : σ} (hbound : engine.lastBlockHeight.toInt + certificates.length < 2 ^ 63) :
    let height := engine.lastBlockHeight
    let blocks := certificates.map (engine.delivered stores)
    let result := (run app stores events).run (Session.start engine s)
    ((sent (final result) = [] ∧ value result ≠ .ok () ∧
        ∃ message t, app.connect.run s = .error message t) ∨
      ∃ calls, sent (final result) = .initChain :: calls ∧
        calls <+: chainCalls height blocks ∧
        (value result = .ok () → calls = chainCalls height blocks) ∧
        ∀ earlier certificate later, certificates = earlier ++ certificate :: later →
          engine.reconstructs stores certificate = false →
          calls <+: chainCalls height (earlier.map (engine.delivered stores)) ++
            .beginBlock (height + Int64.ofNat (earlier.length + 1)) ::
              (engine.delivered stores certificate).map .deliverTx) ∧
    (∀ x ∈ (final result).exchanges.dropLast, x.Passed) ∧
    (∀ e t later, result = .error e t →
      (run app stores (events ++ later)).run (Session.start engine s) = .error e t) ∧
    (proposedHeights (chainCalls height blocks)).map Int64.toInt =
      (List.range certificates.length).map fun k : Nat => height.toInt + (k + 1) := by
  intro height blocks result
  have hlen : blocks.length = certificates.length := List.length_map ..
  have hheights : (proposedHeights (chainCalls height blocks)).map Int64.toInt =
      (List.range certificates.length).map fun k : Nat => height.toInt + (k + 1) := by
    rw [← hlen]
    exact toInt_proposedHeights (by rwa [hlen])
  refine ⟨?_, run_passed hevents engine s, fun e t later h => run_append later h, hheights⟩
  rcases run_sends hevents engine s with hnone | ⟨calls, hsent, hcalls, hok⟩
  · exact .inl hnone
  · refine .inr ⟨calls, hsent, hcalls.trans (plan_within engine certificates), ?_, ?_⟩
    · intro hvalue
      obtain ⟨rfl, hall⟩ := hok hvalue
      exact plan_complete hall
    · rintro earlier certificate later rfl hc
      exact hcalls.trans (plan_stops engine earlier hc later)

end Run

namespace Reference

def answering : AbciApp Unit where
  connect := return
  info := return ⟨"", "", 0, 0, []⟩
  query request := return ⟨0, "", "", 0, request.data, [], 0, ""⟩
  call _ := return

def refusing : AbciApp Unit :=
  { answering with connect := throw "connection refused" }

def initialised : AbciApp Unit :=
  { answering with
    call := fun
      | .initChain => throw "chain already initialized"
      | _ => return }

def digest (b : UInt8) : Digest where
  bytes := List.replicate 32 b
  size := List.length_replicate

def certificate : Certificate where
  header.payload.entries := [(digest 1, 0), (digest 2, 0)]
  header.payload.ascending := by decide

def batch (tx : Bytes) : Bytes := WorkerMessage.codec.encode (.batch [tx])

def database (found : Bytes → Option Bytes) : Stores := fun path =>
  if path = "db-0" then .ok fun key => .ok (found key) else .error "No such file or directory"

def stored (key : Bytes) : Option Bytes :=
  if key = (digest 1).toVec then some (batch [1])
  else if key = (digest 2).toVec then some (batch [2])
  else none

def engine : Engine where
  storePath := "db"
  lastBlockHeight := 0

end Reference

open Reference

theorem block_call_protocol_answering :
    sent (final ((run answering (database stored) [.certificate certificate]).run
      (Session.start Reference.engine ()))) =
        [.initChain, .beginBlock 1, .deliverTx [1], .deliverTx [2], .endBlock 1, .commit] := by
  have hvalue : value ((run answering (database stored) [.certificate certificate]).run
      (Session.start Reference.engine ())) = .ok () := rfl
  have hevents : Selects [certificate] [] [.certificate certificate] := .certificate _ .closed
  have hbound : Reference.engine.lastBlockHeight.toInt + ([certificate].length : Nat) < 2 ^ 63 := by
    decide
  rcases (block_call_protocol hevents hbound).1 with ⟨-, hne, -⟩ | ⟨calls, hsent, -, hok, -⟩
  · exact absurd hvalue hne
  · rw [hsent, hok hvalue]
    rfl

theorem init_chain_not_first :
    (¬ ∃ calls, sent (final ((run refusing (database stored) [.certificate certificate]).run
      (Session.start Reference.engine ()))) = .initChain :: calls) ∧
    (∃ x ∈ (final ((run initialised (database stored) [.certificate certificate]).run
      (Session.start Reference.engine ()))).exchanges.dropLast, x.answer ≠ .ok ()) := by
  constructor
  · rintro ⟨calls, h⟩
    cases h
  · exact ⟨⟨.initChain, .error "chain already initialized"⟩, List.mem_cons_self .., nofun⟩

end Narwhal
