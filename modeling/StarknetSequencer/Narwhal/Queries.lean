import StarknetSequencer.Narwhal.Replicas

namespace Narwhal

open Wire Effect Session Engine

variable {σ : Type} {app : AbciApp σ} {stores : Stores}

def AbciQuery.Answered (app : AbciApp σ) (s : σ) (query : AbciQuery) : Prop :=
  query.listening = true ∧ ∃ resp t, (app.query (requestQuery query.req)).run s = .ok resp t

-- every query that is reached is answered, and to a receiver that is still there
def Undisturbed (app : AbciApp σ) (stores : Stores) (engine : Engine) (s : σ)
    (events : List Event) : Prop :=
  ∀ earlier query later, events = earlier ++ .query query :: later →
    (∀ certificate, .certificate certificate ∈ earlier →
      engine.reconstructs stores certificate = true) →
    query.Answered app ((engine.script stores earlier).foldl (fun u step => step.appAfter app u) s)

namespace Step

def Clear (app : AbciApp σ) : List Step → σ → Prop
  | [], _ => True
  | .advance :: steps, s => Clear app steps s
  | .call blockCall :: steps, s => Clear app steps (appAfter app (.call blockCall) s)
  | .ask query :: steps, s => query.Answered app s ∧ Clear app steps (appAfter app (.ask query) s)
  | .fail _ :: _, _ => True

theorem perform_effect {step : Step} {u t : Session σ}
    (h : (perform app step).run u = .ok () t) :
    (perform app step).run u = .ok () (effect app u step) := by
  rw [h, perform_ok h]

theorem perform_call_answered (happ : app.AnswersBlocks) (blockCall : BlockCall) (u : Session σ) :
    (perform app (.call blockCall)).run u = .ok () (effect app u (.call blockCall)) := by
  obtain ⟨t, ht⟩ := happ.answers blockCall u.app
  apply perform_effect
  rw [perform, run_call, ht]

theorem perform_ask_answered {query : AbciQuery} {u : Session σ} (h : query.Answered app u.app) :
    (perform app (.ask query)).run u = .ok () (effect app u (.ask query)) := by
  obtain ⟨hl, resp, t, ht⟩ := h
  apply perform_effect
  rw [perform, run_handleAbciQuery, ht]
  simp only [hl, if_true]
  rfl

theorem perform_ask_unanswered {query : AbciQuery} {u : Session σ}
    (h : ¬ query.Answered app u.app) :
    ∃ e t, (perform app (.ask query)).run u = .error e t ∧ e.FromQuery := by
  rw [perform, run_handleAbciQuery]
  cases hq : (app.query (requestQuery query.req)).run u.app with
  | error message t => exact ⟨.query message, _, rfl, trivial⟩
  | ok resp t =>
    cases hl : query.listening with
    | true => exact absurd ⟨hl, resp, t, hq⟩ h
    | false => exact ⟨.undelivered resp, _, rfl, trivial⟩

def SendsPlan (app : AbciApp σ) (steps : List Step) (u : Session σ) : Prop :=
  sent (final ((forM steps (perform app)).run u)) = sent u ++ plan steps ∧
    ∀ e t, (forM steps (perform app)).run u = .error e t → .fail e ∈ steps

theorem SendsPlan.cons {step : Step} {steps : List Step} {u : Session σ}
    (hstep : (perform app step).run u = .ok () (effect app u step))
    (hplan : plan (step :: steps) = step.exchanged.map Exchange.call ++ plan steps)
    (h : SendsPlan app steps (effect app u step)) : SendsPlan app (step :: steps) u := by
  rw [SendsPlan, run_forM_cons, hstep]
  refine ⟨?_, fun e t ht => List.mem_cons_of_mem _ (h.2 e t ht)⟩
  have hsent : sent (effect app u step) = sent u ++ step.exchanged.map Exchange.call :=
    List.map_append
  rw [h.1, hsent, hplan, List.append_assoc]

theorem run_clear (happ : app.AnswersBlocks) {steps : List Step} {u : Session σ}
    (h : Clear app steps u.app) : SendsPlan app steps u := by
  induction steps generalizing u with
  | nil =>
    refine ⟨(List.append_nil _).symm, ?_⟩
    rintro e t ⟨⟩
  | cons step steps ih =>
    cases step with
    | advance =>
      have hstep := perform_effect (show (perform app .advance).run u = .ok () _ from rfl)
      exact .cons hstep rfl (ih h)
    | call blockCall => exact .cons (perform_call_answered happ blockCall u) rfl (ih h)
    | ask query => exact .cons (perform_ask_answered h.1) rfl (ih h.2)
    | fail error =>
      refine ⟨(List.append_nil _).symm, ?_⟩
      rintro e t ⟨⟩
      exact List.mem_cons_self ..

theorem run_disturbed (happ : app.AnswersBlocks) {steps : List Step} {u : Session σ}
    (h : ¬ Clear app steps u.app) :
    ∃ e t, (forM steps (perform app)).run u = .error e t ∧ e.FromQuery := by
  induction steps generalizing u with
  | nil => exact absurd trivial h
  | cons step steps ih =>
    rw [run_forM_cons]
    cases step with
    | advance => exact ih h
    | call blockCall =>
      rw [perform_call_answered happ]
      exact ih h
    | fail error => exact absurd trivial h
    | ask query =>
      by_cases hq : query.Answered app u.app
      · rw [perform_ask_answered hq]
        exact ih fun hclear => h ⟨hq, hclear⟩
      · obtain ⟨e, t, hrun, he⟩ := perform_ask_unanswered hq
        rw [hrun]
        exact ⟨e, t, rfl, he⟩

theorem clear_append {steps steps' : List Step} {s : σ} :
    Clear app (steps ++ steps') s ↔ Clear app steps s ∧
      ((∀ error, .fail error ∉ steps) →
        Clear app steps' (steps.foldl (fun u step => step.appAfter app u) s)) := by
  induction steps generalizing s with
  | nil => simp [Clear]
  | cons step steps ih =>
    cases step with
    | advance => simpa [Clear, appAfter] using @ih s
    | call blockCall => simpa [Clear] using @ih (appAfter app (.call blockCall) s)
    | ask query =>
      have hquery := @ih (appAfter app (.ask query) s)
      simp only [List.cons_append, Clear, hquery, and_assoc]
      simp
    | fail error =>
      refine ⟨fun _ => ⟨trivial, fun h => ?_⟩, fun _ => trivial⟩
      exact absurd (List.mem_cons_self ..) (h error)

theorem clear_of_no_ask {steps : List Step} (h : ∀ query, .ask query ∉ steps) (s : σ) :
    Clear app steps s := by
  induction steps generalizing s with
  | nil => trivial
  | cons step steps ih =>
    have hsteps : ∀ query, .ask query ∉ steps := fun query hmem =>
      h query (List.mem_cons_of_mem _ hmem)
    cases step with
    | advance => exact ih hsteps _
    | call blockCall => exact ih hsteps _
    | ask query => exact absurd (List.mem_cons_self ..) (h query)
    | fail error => trivial

end Step

namespace Engine

theorem no_ask_blockScript (engine : Engine) (certificate : Certificate) (query : AbciQuery) :
    .ask query ∉ engine.blockScript stores certificate := by
  intro hmem
  rcases mem_blockScript hmem with h | ⟨blockCall, h⟩ | ⟨batch, -, hstep⟩
  · cases h
  · cases h
  · cases batch with
    | ok txs =>
      obtain ⟨tx, -, h⟩ := List.mem_map.mp hstep
      cases h
    | error e => cases List.mem_singleton.mp hstep

theorem reconstructBatch_error {engine : Engine} {digest : Digest} {workerId : UInt32}
    {e : EngineError} (h : engine.reconstructBatch stores digest workerId = .error e) :
    ¬ e.FromQuery := by
  rw [reconstructBatch] at h
  cases hdb : stores (engine.workerDb workerId) with
  | error message =>
    rw [hdb] at h
    cases h
    exact id
  | ok db =>
    rw [hdb] at h
    simp only [Except.mapError, bind, Except.bind] at h
    split at h
    · cases h
    · cases h
      exact id
    · cases h
      exact id

theorem readBatch_error {engine : Engine} {digest : Digest} {workerId : UInt32} {e : EngineError}
    (h : engine.readBatch stores digest workerId = .error e) : ¬ e.FromQuery := by
  rw [readBatch] at h
  cases hr : engine.reconstructBatch stores digest workerId with
  | error e' =>
    rw [hr] at h
    cases h
    exact reconstructBatch_error hr
  | ok batch =>
    rw [hr, Except.bind, parseBatch] at h
    split at h
    · cases h
    · cases h
      exact id

theorem fail_mem_script {engine : Engine} {events : List Event} {e : EngineError}
    (h : .fail e ∈ engine.script stores events) : ¬ e.FromQuery := by
  induction events generalizing engine with
  | nil => cases h
  | cons event events ih =>
    cases event with
    | query query =>
      rcases List.mem_cons.mp h with h | h
      · cases h
      · exact ih h
    | certificate certificate =>
      rcases List.mem_append.mp h with h | h
      · obtain ⟨entry, -, hentry⟩ := List.mem_map.mp (fail_mem_blockScript.mp h)
        exact readBatch_error hentry
      · exact ih h

end Engine

theorem undisturbed_query {engine : Engine} {s : σ} {query : AbciQuery} {events : List Event} :
    Undisturbed app stores engine s (.query query :: events) ↔ query.Answered app s ∧
      Undisturbed app stores engine (Step.appAfter app (.ask query) s) events := by
  constructor
  · intro h
    refine ⟨h [] query events rfl (by simp), ?_⟩
    rintro earlier query' later rfl hc
    refine h (.query query :: earlier) query' later rfl ?_
    simpa using hc
  · rintro ⟨ha, h⟩ earlier query' later he hc
    cases earlier with
    | nil =>
      cases he
      exact ha
    | cons event earlier =>
      cases he
      exact h earlier query' later rfl fun certificate hmem =>
        hc certificate (List.mem_cons_of_mem _ hmem)

theorem undisturbed_certificate {engine : Engine} {s : σ} {certificate : Certificate}
    {events : List Event} :
    Undisturbed app stores engine s (.certificate certificate :: events) ↔
      (engine.reconstructs stores certificate = true →
        Undisturbed app stores engine.next ((engine.blockScript stores certificate).foldl
          (fun u step => step.appAfter app u) s) events) := by
  constructor
  · rintro h hr earlier query later rfl hc
    rw [← List.foldl_append]
    refine h (.certificate certificate :: earlier) query later rfl ?_
    intro certificate' hmem
    rcases List.mem_cons.mp hmem with heq | hmem
    · cases heq
      exact hr
    · exact hc certificate' hmem
  · intro h earlier query later he hc
    cases earlier with
    | nil => cases he
    | cons event earlier =>
      cases he
      rw [script, List.foldl_append]
      exact h (hc certificate (List.mem_cons_self ..)) earlier query later rfl
        fun certificate' hmem => hc certificate' (List.mem_cons_of_mem _ hmem)

theorem clear_script {engine : Engine} {s : σ} {events : List Event} :
    Step.Clear app (engine.script stores events) s ↔
      Undisturbed app stores engine s events := by
  induction events generalizing engine s with
  | nil =>
    refine ⟨?_, fun _ => trivial⟩
    rintro - earlier query later he
    cases earlier <;> cases he
  | cons event events ih =>
    cases event with
    | query query => rw [undisturbed_query, script, Step.Clear, ih]
    | certificate certificate =>
      have hclear : Step.Clear app (engine.blockScript stores certificate) s :=
        Step.clear_of_no_ask (no_ask_blockScript engine certificate) s
      rw [undisturbed_certificate, script, Step.clear_append, no_fail_blockScript, ih]
      exact and_iff_right hclear

theorem initChain_answered (happ : app.AnswersBlocks) (s : Session σ) :
    (initChain app).run s = .ok ()
      ⟨s.engine, app.started s.app, s.exchanges ++ [⟨.initChain, .ok ()⟩]⟩ := by
  obtain ⟨t, ht⟩ := happ.connects s.app
  obtain ⟨u, hu⟩ := happ.answers .initChain t
  obtain ⟨answer, hanswer, hrun⟩ := run_initChain ht
  rw [hu] at hanswer
  cases hanswer
  exact hrun

theorem selects_certificates (certificates : List Certificate) :
    Selects certificates [] (certificates.map .certificate) := by
  induction certificates with
  | nil => exact .closed
  | cons certificate certificates ih => exact .certificate certificate ih

theorem undisturbed_certificates (engine : Engine) (s : σ) (certificates : List Certificate) :
    Undisturbed app stores engine s (certificates.map .certificate) := by
  intro earlier query later he hc
  have hmem : Event.query query ∈ certificates.map Event.certificate := by
    rw [he]
    exact List.mem_append_right _ (List.mem_cons_self ..)
  obtain ⟨certificate, -, h⟩ := List.mem_map.mp hmem
  cases h

section Noninterference

variable {certificates : List Certificate} {queries : List AbciQuery} {events : List Event}

theorem run_undisturbed (happ : app.AnswersBlocks) (h : Selects certificates queries events)
    {engine : Engine} {s : σ} (hevents : Undisturbed app stores engine (app.started s) events) :
    sent (final ((run app stores events).run (Session.start engine s))) =
        .initChain :: engine.plan stores certificates ∧
      ∀ e t, (run app stores events).run (Session.start engine s) = .error e t →
        ¬ e.FromQuery := by
  have hclear : Step.Clear app (engine.script stores events)
      (⟨engine, app.started s, [⟨.initChain, .ok ()⟩]⟩ : Session σ).app := clear_script.mpr hevents
  obtain ⟨hsent, hfail⟩ := Step.run_clear happ hclear
  rw [run_eq, initChain_answered happ]
  refine ⟨?_, fun e t ht => fail_mem_script (hfail e t ht)⟩
  rw [← plan_script h]
  exact hsent

theorem run_disturbed (happ : app.AnswersBlocks) {engine : Engine} {s : σ}
    (hevents : ¬ Undisturbed app stores engine (app.started s) events) :
    ∃ e t, (run app stores events).run (Session.start engine s) = .error e t ∧ e.FromQuery := by
  have hclear : ¬ Step.Clear app (engine.script stores events)
      (⟨engine, app.started s, [⟨.initChain, .ok ()⟩]⟩ : Session σ).app :=
    fun h => hevents (clear_script.mp h)
  rw [run_eq, initChain_answered happ]
  exact Step.run_disturbed happ hclear

theorem queries_harmless_iff (happ : app.AnswersBlocks) (h : Selects certificates queries events)
    (engine : Engine) (s : σ) :
    let quiet := (run app stores (certificates.map .certificate)).run (Session.start engine s)
    let result := (run app stores events).run (Session.start engine s)
    (sent (final result) = sent (final quiet) ∧ ∀ e t, result = .error e t → ¬ e.FromQuery) ↔
      Undisturbed app stores engine (app.started s) events := by
  intro quiet result
  constructor
  · rintro ⟨-, hquery⟩
    by_contra hevents
    obtain ⟨e, t, hrun, he⟩ := run_disturbed happ hevents
    exact hquery e t hrun he
  · intro hevents
    obtain ⟨hsent, hquery⟩ := run_undisturbed happ h hevents
    have hcertificates : Undisturbed app stores engine (app.started s)
        (certificates.map .certificate) := undisturbed_certificates engine _ certificates
    have hquiet := (run_undisturbed happ (selects_certificates certificates) hcertificates).1
    exact ⟨hsent.trans hquiet.symm, hquery⟩

end Noninterference

open Reference

theorem Reference.answering_answers : answering.AnswersBlocks where
  connects _ := ⟨(), rfl⟩
  answers _ _ := ⟨(), rfl⟩

theorem queries_harmless_listening :
    sent (final ((run answering (database stored)
        [.query (query true), .certificate certificate]).run (Session.start Reference.engine ()))) =
      sent (final ((run answering (database stored) [.certificate certificate]).run
        (Session.start Reference.engine ()))) := by
  have hevents : Selects [certificate] [query true] [.query (query true), .certificate certificate] :=
    .query _ (.certificate _ .closed)
  have hanswered : (query true).Answered answering (answering.started ()) := ⟨rfl, _, _, rfl⟩
  have hrest : Undisturbed answering (database stored) Reference.engine
      (Step.appAfter answering (.ask (query true)) (answering.started ()))
      ([certificate].map .certificate) := undisturbed_certificates _ _ _
  exact ((queries_harmless_iff Reference.answering_answers hevents Reference.engine ()).mpr
    (undisturbed_query.mpr ⟨hanswered, hrest⟩)).1

theorem client_disconnect_stops_engine :
    sent (final ((run answering (database stored)
        [.query (query false), .certificate certificate]).run (Session.start Reference.engine ()))) ≠
      sent (final ((run answering (database stored) [.certificate certificate]).run
        (Session.start Reference.engine ()))) ∧
    ∃ e t, (run answering (database stored)
        [.query (query false), .certificate certificate]).run (Session.start Reference.engine ()) =
      .error e t ∧ e.FromQuery := by
  constructor
  · intro h
    cases h
  · exact ⟨_, _, rfl, trivial⟩

end Narwhal
