import StarknetSequencer.Narwhal.Engine

namespace Narwhal

open Wire Effect Session

variable {σ : Type}

-- what an engine is going to do, before anything is known of how the app answers
inductive Step where
  | advance
  | call (call : BlockCall)
  | ask (query : AbciQuery)
  | fail (error : EngineError)

namespace Engine

variable (stores : Stores)

def next (engine : Engine) : Engine :=
  { engine with lastBlockHeight := engine.lastBlockHeight + 1 }

def parseBatch (batch : Bytes) : Except EngineError (List Bytes) :=
  match WorkerMessage.codec.deserialize batch with
  | some (.batch txs) => .ok txs
  | none => .error (.bail "unrecognized message format")

def readBatch (engine : Engine) (digest : Digest) (workerId : UInt32) :
    Except EngineError (List Bytes) :=
  (engine.reconstructBatch stores digest workerId).bind parseBatch

def batches (engine : Engine) (certificate : Certificate) :
    List (Except EngineError (List Bytes)) :=
  certificate.header.payload.entries.map fun entry => engine.readBatch stores entry.1 entry.2

def deliveries : Except EngineError (List Bytes) → List Step
  | .ok txs => txs.map fun tx => .call (.deliverTx tx)
  | .error e => [.fail e]

def blockScript (engine : Engine) (certificate : Certificate) : List Step :=
  .advance :: .call (.beginBlock engine.next.lastBlockHeight) ::
    (engine.batches stores certificate).flatMap deliveries ++
      [.call (.endBlock engine.next.lastBlockHeight), .call .commit]

def script (engine : Engine) : List Event → List Step
  | [] => []
  | .certificate certificate :: events =>
    engine.blockScript stores certificate ++ engine.next.script events
  | .query query :: events => .ask query :: engine.script events

end Engine

open Engine

namespace Step

variable (app : AbciApp σ)

def perform : Step → EngineM σ Unit
  | .advance => modify fun session => { session with engine := session.engine.next }
  | .call blockCall => Engine.call app blockCall
  | .ask query => handleAbciQuery app query
  | .fail error => throw error

def exchanged : Step → List Exchange
  | .call blockCall => [⟨blockCall, .ok ()⟩]
  | _ => []

def engineAfter : Step → Engine → Engine
  | .advance, engine => engine.next
  | _, engine => engine

def appAfter : Step → σ → σ
  | .call blockCall, s => final ((app.call blockCall).run s)
  | .ask query, s => final ((app.query (requestQuery query.req)).run s)
  | _, s => s

def effect (s : Session σ) (step : Step) : Session σ where
  engine := step.engineAfter s.engine
  app := step.appAfter app s.app
  exchanges := s.exchanges ++ step.exchanged

end Step

variable {app : AbciApp σ} {stores : Stores}

theorem run_withApp {α : Type} (m : EStateM String σ α) (s : Session σ) :
    (withApp m : EngineM σ (Except String α)).run s =
      .ok (value (m.run s.app)) { s with app := final (m.run s.app) } := by
  rw [withApp, run_attempt, run_zoom]
  cases m.run s.app <;> rfl

theorem run_exchange (blockCall : BlockCall) (s : Session σ) :
    (exchange app blockCall).run s =
      .ok (value ((app.call blockCall).run s.app))
        { s with
          app := final ((app.call blockCall).run s.app)
          exchanges := s.exchanges ++ [⟨blockCall, value ((app.call blockCall).run s.app)⟩] } := by
  simp only [exchange, EStateM.run_bind, run_withApp]
  rfl

theorem run_call (blockCall : BlockCall) (s : Session σ) :
    (Engine.call app blockCall).run s = match (app.call blockCall).run s.app with
      | .ok _ t => .ok () { s with
        app := t
        exchanges := s.exchanges ++ [⟨blockCall, .ok ()⟩] }
      | .error e t => .error (.client e) { s with
        app := t
        exchanges := s.exchanges ++ [⟨blockCall, .error e⟩] } := by
  simp only [Engine.call, EStateM.run_bind, run_exchange]
  cases (app.call blockCall).run s.app <;> rfl

theorem run_handleAbciQuery (query : AbciQuery) (s : Session σ) :
    (handleAbciQuery app query).run s = match (app.query (requestQuery query.req)).run s.app with
      | .ok resp t => if query.listening then .ok () { s with app := t }
        else .error (.undelivered resp) { s with app := t }
      | .error e t => .error (.query e) { s with app := t } := by
  simp only [handleAbciQuery, EStateM.run_bind, run_withApp]
  cases (app.query (requestQuery query.req)).run s.app with
  | ok resp t => cases query.listening <;> rfl
  | error e t => rfl

theorem deliverBatch_refines (engine : Engine) (digest : Digest) (workerId : UInt32) :
    (do deliverBatch app (← lift (engine.reconstructBatch stores digest workerId))) =
      forM (deliveries (engine.readBatch stores digest workerId)) (Step.perform app) := by
  rw [readBatch]
  cases engine.reconstructBatch stores digest workerId with
  | error e => rfl
  | ok batch =>
    change deliverBatch app batch = forM (deliveries (parseBatch batch)) (Step.perform app)
    rw [deliverBatch, parseBatch]
    cases WorkerMessage.codec.deserialize batch with
    | none => rfl
    | some message =>
      cases message with
      | batch txs =>
        change forM txs (deliverTx app) =
          forM (txs.map fun tx => Step.call (.deliverTx tx)) (Step.perform app)
        rw [List.forM_map]
        rfl

theorem reconstructAndDeliverTxs_refines (certificate : Certificate) (s : Session σ) :
    (reconstructAndDeliverTxs app stores certificate).run s =
      (forM ((s.engine.batches stores certificate).flatMap deliveries) (Step.perform app)).run s := by
  rw [forM_flatMap, batches, List.forM_map]
  simp only [← deliverBatch_refines]
  rw [reconstructAndDeliverTxs, EStateM.run_bind]
  change (forM _ _ : EngineM σ Unit).run s = _
  rw [List.forM_map]

namespace Step

-- a step that fails leaves the engine as it was and records at most its own call
theorem perform_cases (step : Step) (s : Session σ) :
    (step.perform app).run s = .ok () (effect app s step) ∨
      ∃ e t, (step.perform app).run s = .error e t ∧ t.engine = s.engine ∧
        (t.exchanges = s.exchanges ∨ ∃ blockCall message, step = .call blockCall ∧
          t.exchanges = s.exchanges ++ [⟨blockCall, .error message⟩]) := by
  cases step with
  | advance => exact .inl (by simp [perform, effect, engineAfter, appAfter, exchanged])
  | call blockCall =>
    rw [perform, run_call]
    cases hc : (app.call blockCall).run s.app with
    | ok _ u => exact .inl (by simp [effect, engineAfter, appAfter, exchanged, hc])
    | error message u => exact .inr ⟨_, _, rfl, rfl, .inr ⟨blockCall, message, rfl, rfl⟩⟩
  | ask query =>
    rw [perform, run_handleAbciQuery]
    cases hq : (app.query (requestQuery query.req)).run s.app with
    | ok resp u =>
      cases hl : query.listening with
      | true => exact .inl (by simp [effect, engineAfter, appAfter, exchanged, hq])
      | false => exact .inr ⟨_, _, rfl, rfl, .inl rfl⟩
    | error message u => exact .inr ⟨_, _, rfl, rfl, .inl rfl⟩
  | fail error => exact .inr ⟨error, s, rfl, rfl, .inl rfl⟩

theorem perform_ok {step : Step} {s t : Session σ} (h : (step.perform app).run s = .ok () t) :
    t = effect app s step := by
  rcases perform_cases step s with hok | ⟨e, u, herror, -⟩
  · cases hok.symm.trans h
    rfl
  · cases herror.symm.trans h

theorem perform_error {step : Step} {s t : Session σ} {e : EngineError}
    (h : (step.perform app).run s = .error e t) :
    t.exchanges = s.exchanges ∨ ∃ blockCall message, step = .call blockCall ∧
      t.exchanges = s.exchanges ++ [⟨blockCall, .error message⟩] := by
  rcases perform_cases step s with hok | ⟨e', u, herror, -, hexchanges⟩
  · cases hok.symm.trans h
  · cases herror.symm.trans h
    exact hexchanges

theorem perform_engine {step : Step} (h : ∀ engine, step.engineAfter engine = engine) :
    Moves (fun s t : Session σ => t.engine = s.engine) (step.perform app) := by
  intro s
  rcases @perform_cases σ app step s with hok | ⟨e, t, herror, hengine, -⟩
  · rw [hok]
    exact h s.engine
  · rw [herror]
    exact hengine

theorem foldl_effect_exchanges (steps : List Step) (s : Session σ) :
    (steps.foldl (effect app) s).exchanges = s.exchanges ++ steps.flatMap exchanged := by
  induction steps generalizing s with
  | nil => simp
  | cons step steps ih =>
    rw [List.foldl_cons, ih, List.flatMap_cons, ← List.append_assoc]
    rfl

end Step

theorem handleCert_refines (certificate : Certificate) (s : Session σ) :
    (handleCert app stores certificate).run s =
      (forM (s.engine.blockScript stores certificate) (Step.perform app)).run s := by
  have hleft : (handleCert app stores certificate).run s =
      (do
        beginBlock app s.engine.next.lastBlockHeight
        reconstructAndDeliverTxs app stores certificate
        endBlock app s.engine.next.lastBlockHeight
        commit app).run { s with engine := s.engine.next } := rfl
  have hright : (forM (s.engine.blockScript stores certificate) (Step.perform app)).run s =
      (do
        Step.perform app (.call (.beginBlock s.engine.next.lastBlockHeight))
        forM ((s.engine.batches stores certificate).flatMap deliveries) (Step.perform app)
        forM [Step.call (.endBlock s.engine.next.lastBlockHeight), Step.call .commit]
          (Step.perform app)).run { s with engine := s.engine.next } := by
    rw [blockScript, List.cons_append, List.forM_cons, List.cons_append, List.forM_cons,
      List.forM_append]
    rfl
  rw [hleft, hright]
  refine run_bind_congr fun _ t ht => ?_
  have hbatches : t.engine.batches stores certificate = s.engine.batches stores certificate := by
    have heffect : t = Step.effect app _ (.call _) := Step.perform_ok ht
    rw [heffect]
    rfl
  rw [EStateM.run_bind, reconstructAndDeliverTxs_refines, hbatches, ← EStateM.run_bind]
  refine run_bind_congr fun _ u hu => ?_
  rw [List.forM_cons, List.forM_cons, List.forM_nil, bind_pure_unit]
  rfl

theorem engineAfter_of_deliveries {batches : List (Except EngineError (List Bytes))} {step : Step}
    (h : step ∈ batches.flatMap deliveries) (engine : Engine) :
    step.engineAfter engine = engine := by
  obtain ⟨batch, -, hstep⟩ := List.mem_flatMap.mp h
  cases batch with
  | ok txs =>
    obtain ⟨tx, -, rfl⟩ := List.mem_map.mp hstep
    rfl
  | error e =>
    cases List.mem_singleton.mp hstep
    rfl

-- the height moves first, whatever becomes of the steps after it
theorem final_blockScript_engine (certificate : Certificate) (s : Session σ) :
    (final ((forM (s.engine.blockScript stores certificate) (Step.perform app)).run s)).engine =
      s.engine.next := by
  rw [blockScript, List.cons_append, run_forM_cons]
  have hkeeps : Moves (fun s t : Session σ => t.engine = s.engine)
      (forM (.call (.beginBlock s.engine.next.lastBlockHeight) ::
        (s.engine.batches stores certificate).flatMap deliveries ++
          [.call (.endBlock s.engine.next.lastBlockHeight), .call .commit]) (Step.perform app)) := by
    apply Moves.forM
    · exact fun _ => rfl
    · exact fun _ _ _ h₁ h₂ => h₂.trans h₁
    · intro step hstep
      refine Step.perform_engine fun engine => ?_
      rcases List.mem_append.mp hstep with hstep | hstep
      · rcases List.mem_cons.mp hstep with rfl | hstep
        · rfl
        · exact engineAfter_of_deliveries hstep engine
      · rcases List.mem_cons.mp hstep with rfl | hstep
        · rfl
        · cases List.mem_singleton.mp hstep
          rfl
  exact hkeeps { s with engine := s.engine.next }

theorem engine_of_blockScript {certificate : Certificate} {s t : Session σ}
    (h : (forM (s.engine.blockScript stores certificate) (Step.perform app)).run s = .ok () t) :
    t.engine = s.engine.next := by
  have hfinal := @final_blockScript_engine σ app stores certificate s
  rw [h] at hfinal
  exact hfinal

theorem loop_refines (events : List Event) (s : Session σ) :
    (forM events (handle app stores)).run s =
      (forM (s.engine.script stores events) (Step.perform app)).run s := by
  induction events generalizing s with
  | nil => rfl
  | cons event events ih =>
    cases event with
    | certificate certificate =>
      rw [List.forM_cons, script, List.forM_append, EStateM.run_bind, EStateM.run_bind, handle,
        handleCert_refines]
      cases hb : (forM (s.engine.blockScript stores certificate) (Step.perform app)).run s with
      | error e t => rfl
      | ok _ t =>
        have ht := engine_of_blockScript hb
        simp only [ih, ht]
    | query query =>
      rw [List.forM_cons, script, List.forM_cons]
      refine run_bind_congr fun _ t ht => ?_
      have hengine : t.engine = s.engine := by
        have heffect : t = Step.effect app s (.ask query) := Step.perform_ok ht
        rw [heffect]
        rfl
      rw [ih, hengine]

end Narwhal
