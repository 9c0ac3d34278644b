import StarknetSequencer.Narwhal.Node

namespace Narwhal

open Wire Effect Session Engine

variable {σ : Type} {app : AbciApp σ} {stores : Stores}

namespace Node

variable {n t : Node σ} {action : Action} {actions : List Action} {events taken : List Event}

def Answered (n : Node σ) (i : Nat) : Prop :=
  ∃ req v, n.requests[i]? = some ⟨req, .answered v⟩

def Abandoned (n : Node σ) (i : Nat) : Prop := ∃ req, n.requests[i]? = some ⟨req, .disconnected⟩

theorem Runs.answered_stays {i : Nat} (h : Runs app stores n actions events t) (hi : n.Answered i) :
    t.Answered i := by
  obtain ⟨req, v, hr⟩ := hi
  obtain ⟨r', hr', -, -, hsame⟩ := h.keeps hr
  exact ⟨req, v, hsame nofun nofun ▸ hr'⟩

theorem Runs.abandoned_stays {i : Nat} (h : Runs app stores n actions events t)
    (hi : n.Abandoned i) : t.Abandoned i := by
  obtain ⟨req, hr⟩ := hi
  obtain ⟨r', hr', -, -, hsame⟩ := h.keeps hr
  exact ⟨req, hsame nofun nofun ▸ hr'⟩

theorem Abandoned.not_answered {i : Nat} (h : n.Abandoned i) : ¬ n.Answered i := by
  rintro ⟨req, v, hr⟩
  obtain ⟨req', hr'⟩ := h
  cases hr.symm.trans hr'

-- what a step that the node survives takes from the channel is answered
theorem Acts.took (h : Acts app stores n action taken t) (halive : t.Alive) :
    ∃ took : List Nat, took.length = (queries taken).length ∧
      took ++ t.queue = n.queue ++ sends [action] ∧ ∀ i ∈ took, t.Answered i := by
  cases h with
  | request req _ => exact ⟨[], rfl, (List.append_nil _).symm, nofun⟩
  | send _ hi hlt => exact ⟨[], rfl, rfl, nofun⟩
  | disconnect _ hi hhandler => exact ⟨[], rfl, (List.append_nil _).symm, nofun⟩
  | output certificate _ hlt => exact ⟨[], rfl, (List.append_nil _).symm, nofun⟩
  | initChain hphase =>
    refine ⟨[], rfl, ?_, nofun⟩
    rw [List.nil_append, drive_queue]
    exact (List.append_nil _).symm
  | certificate hphase houtput =>
    refine ⟨[], rfl, ?_, nofun⟩
    rw [List.nil_append, drive_queue]
    exact (List.append_nil _).symm
  | @query i queue r hphase hqueue hi =>
    obtain ⟨resp, u, -, -, hreceive⟩ := receive_of_alive halive
    refine ⟨[i], rfl, ?_, ?_⟩
    · rw [drive_queue, hqueue]
      exact (List.append_nil _).symm
    · rw [List.forall_mem_singleton]
      refine ⟨r.req, resp.value, ?_⟩
      rw [drive_requests, handled_requests,
        List.getElem?_set_self (List.getElem?_eq_some_iff.mp hi).1]
      exact congrArg some hreceive

theorem Runs.took (h : Runs app stores n actions events t) (halive : t.Alive) :
    ∃ took : List Nat, took.length = (queries events).length ∧
      took ++ t.queue = n.queue ++ sends actions ∧ ∀ i ∈ took, t.Answered i := by
  induction h with
  | refl => exact ⟨[], rfl, (List.append_nil _).symm, nofun⟩
  | @step actions events u action taken t h hacts ih =>
    obtain ⟨took, hlength, htook, hanswered⟩ := ih hacts.alive
    obtain ⟨took', hlength', htook', hanswered'⟩ := hacts.took halive
    have hlast : Runs app stores u [action] taken t := .step .refl hacts
    refine ⟨took ++ took', ?_, ?_, ?_⟩
    · rw [List.length_append, hlength, hlength', queries_append, List.length_append]
    · rw [List.append_assoc, htook', ← List.append_assoc, htook, sends_snoc, List.append_assoc]
    · intro i hi
      rcases List.mem_append.mp hi with hi | hi
      · exact hlast.answered_stays (hanswered i hi)
      · exact hanswered' i hi

theorem Runs.output_le {engine : Engine} {s : σ}
    (h : Runs app stores (start engine s) actions events n) :
    n.output.length ≤ channelCapacity := by
  induction h with
  | refl => exact Nat.zero_le _
  | step h hacts ih =>
    cases hacts with
    | request req _ => exact ih
    | send _ hi hlt => exact ih
    | disconnect _ hi hhandler => exact ih
    | output certificate _ hlt =>
      rw [List.length_append, List.length_singleton]
      exact hlt
    | initChain hphase => rwa [drive_output]
    | certificate hphase houtput =>
      rw [houtput] at ih
      rw [drive_output]
      exact (Nat.le_succ _).trans ih
    | query hphase hqueue hi =>
      rw [drive_output]
      exact ih

theorem receive_answered {r : Request} {resp : Except String ResponseQuery} {req : AbciQueryQuery}
    {v : Bytes} (h : r.receive resp = ⟨req, .answered v⟩) :
    r = ⟨req, .answered v⟩ ∨
      r = ⟨req, .waiting⟩ ∧ ∃ response, resp = .ok response ∧ v = response.value := by
  obtain ⟨req', handler⟩ := r
  cases handler with
  | waiting =>
    cases resp with
    | ok response =>
      cases h
      exact .inr ⟨rfl, response, rfl, rfl⟩
    | error e => exact .inl h
  | sending => exact .inl h
  | answered v' => exact .inl h
  | disconnected => exact .inl h

theorem getElem?_set_cases {rs : List Request} {i j : Nat} {r s : Request}
    (h : (rs.set i r)[j]? = some s) : i = j ∧ r = s ∨ rs[j]? = some s := by
  rw [List.getElem?_set] at h
  split_ifs at h with hij hlt
  · exact .inl ⟨hij, Option.some.inj h⟩
  · exact .inr h

theorem Acts.answered (h : Acts app stores n action taken t) {i : Nat} {req : AbciQueryQuery}
    {v : Bytes} (hi : t.requests[i]? = some ⟨req, .answered v⟩) :
    n.requests[i]? = some ⟨req, .answered v⟩ ∨
      n.phase = .serving ∧ (∃ queue, n.queue = i :: queue) ∧ taken = [.query ⟨true, req⟩] ∧
        ∃ resp u, (app.query (requestQuery req)).run n.session.app = .ok resp u ∧
          v = resp.value := by
  cases h with
  | request req' _ =>
    rcases Nat.lt_or_ge i n.requests.length with hlt | hge
    · rw [List.getElem?_append_left hlt] at hi
      exact .inl hi
    · rw [List.getElem?_append_right hge, List.getElem?_singleton] at hi
      split at hi <;> cases hi
  | send _ hj hlt =>
    rcases getElem?_set_cases hi with ⟨-, heq⟩ | hi
    · cases heq
    · exact .inl hi
  | disconnect _ hj hhandler =>
    rcases getElem?_set_cases hi with ⟨-, heq⟩ | hi
    · cases heq
    · exact .inl hi
  | output certificate _ hlt => exact .inl hi
  | initChain hphase =>
    rw [drive_requests] at hi
    exact .inl hi
  | certificate hphase houtput =>
    rw [drive_requests] at hi
    exact .inl hi
  | @query j queue r hphase hqueue hj =>
    rw [drive_requests] at hi
    rcases getElem?_set_cases hi with ⟨rfl, heq⟩ | hi
    · rcases receive_answered heq with rfl | ⟨rfl, resp, hresp, rfl⟩
      · exact .inl hj
      · refine .inr ⟨hphase, ⟨queue, hqueue⟩, rfl, resp, ?_⟩
        cases hquery : (app.query (requestQuery req)).run n.session.app with
        | ok resp' u =>
          rw [AbciApp.respond, hquery] at hresp
          cases hresp
          exact ⟨u, rfl, rfl⟩
        | error e u =>
          rw [AbciApp.respond, hquery] at hresp
          cases hresp
    · exact .inl hi

theorem Runs.answered {engine : Engine} {s : σ}
    (h : Runs app stores (start engine s) actions events n) {i : Nat} {req : AbciQueryQuery}
    {v : Bytes} (hi : n.requests[i]? = some ⟨req, .answered v⟩) :
    ∃ earlier later resp u, events = earlier ++ .query ⟨true, req⟩ :: later ∧
      (sends actions)[(queries earlier).length]? = some i ∧
      (app.query (requestQuery req)).run
        (final ((run app stores earlier).run (Session.start engine s))).app = .ok resp u ∧
      v = resp.value := by
  induction h with
  | refl => cases hi
  | @step actions events u action taken t h hacts ih =>
    rcases hacts.answered hi with hi | ⟨hphase, ⟨queue, hqueue⟩, rfl, resp, w, hresp, hv⟩
    · obtain ⟨earlier, later, resp, w, rfl, hsent, hresp, hv⟩ := ih hi
      refine ⟨earlier, later ++ taken, resp, w, ?_, ?_, hresp, hv⟩
      · rw [List.append_assoc, List.cons_append]
      · rw [sends_snoc, List.getElem?_append_left (List.getElem?_eq_some_iff.mp hsent).1, hsent]
    · have hran := h.ran
      rw [Ran, hphase] at hran
      have hdrop := h.queued.queue.symm.trans hqueue
      have hsent : (sends actions)[(queries events).length]? = some i := by
        rw [← List.head?_drop, hdrop]
        rfl
      refine ⟨events, [], resp, w, rfl, ?_, ?_, hv⟩
      · rw [sends_snoc, List.getElem?_append_left (List.getElem?_eq_some_iff.mp hsent).1, hsent]
      · rw [hran]
        exact hresp

theorem Runs.trans {m : Node σ} {more : List Action}
    (h : Runs app stores m actions events n) (h' : Runs app stores n more taken t) :
    Runs app stores m (actions ++ more) (events ++ taken) t := by
  induction h' with
  | refl =>
    rw [List.append_nil, List.append_nil]
    exact h
  | step _ hacts ih =>
    rw [← List.append_assoc, ← List.append_assoc]
    exact .step ih hacts

-- whatever the tasks do in between, the engine of the node is an `Engine.run`, and every answer is
-- what the app said to that very request at its place in the run
theorem runs_refine_engine {engine : Engine} {s : σ}
    (h : Runs app stores (start engine s) actions events n) :
    Ran app stores (Session.start engine s) events n ∧
      certificates events ++ n.output = outputs actions ∧
      (sends actions).Nodup ∧ n.queue = (sends actions).drop (queries events).length ∧
      (∀ (k : Nat) (query : AbciQuery), (queries events)[k]? = some query →
        ∃ (i : Nat) (r : Request), (sends actions)[k]? = some i ∧ n.requests[i]? = some r ∧
          r.req = query.req) ∧
      ∀ (i : Nat) (req : AbciQueryQuery) (v : Bytes),
        n.requests[i]? = some ⟨req, .answered v⟩ →
          ∃ earlier later resp u, events = earlier ++ .query ⟨true, req⟩ :: later ∧
            (sends actions)[(queries earlier).length]? = some i ∧
            (app.query (requestQuery req)).run
              (final ((run app stores earlier).run (Session.start engine s))).app = .ok resp u ∧
            v = resp.value :=
  ⟨h.ran, h.outputs_eq rfl, h.queued.nodup, h.queued.queue, h.queued.taken,
    fun _ _ _ => h.answered⟩

section Service

variable {engine : Engine} {s : σ} {more : List Action} {i : Nat} {ahead behind : List Nat}

theorem Runs.enabled (h : Runs app stores (start engine s) actions events n) (halive : n.Alive)
    (hqueue : n.queue ≠ []) :
    ∃ action taken t, (action = .initChain ∨ action = .query) ∧
      Acts app stores n action taken t := by
  cases hphase : n.phase with
  | starting => exact ⟨.initChain, _, _, .inl rfl, .initChain hphase⟩
  | serving =>
    obtain ⟨i, queue, hcons⟩ := List.exists_cons_of_ne_nil hqueue
    have hmem : i ∈ sends actions := by
      apply List.mem_of_mem_drop (i := (queries events).length)
      rw [← h.queued.queue, hcons]
      exact List.mem_cons_self ..
    obtain ⟨r, hr, -⟩ := h.queued.sent i hmem
    exact ⟨.query, _, _, .inr rfl, .query hphase hcons hr⟩
  | exited e => exact absurd hphase (halive e)

theorem Runs.never_stuck (h : Runs app stores (start engine s) actions events n)
    (halive : n.Alive) {r : Request} (hr : n.requests[i]? = some r)
    (hopen : r.handler = .sending ∨ r.handler = .waiting) :
    ∃ action taken t, (action = .send i ∨ action = .initChain ∨ action = .query) ∧
      Acts app stores n action taken t := by
  have hnonempty : n.queue ≠ [] → ∃ action taken t,
      (action = .send i ∨ action = .initChain ∨ action = .query) ∧
        Acts app stores n action taken t := by
    intro hqueue
    obtain ⟨action, taken, t, haction, hacts⟩ := h.enabled halive hqueue
    exact ⟨action, taken, t, .inr haction, hacts⟩
  obtain ⟨req, handler⟩ := r
  rcases hopen with rfl | rfl
  · rcases Nat.lt_or_ge n.queue.length channelCapacity with hlt | hge
    · exact ⟨.send i, _, _, .inl rfl, .send halive hr hlt⟩
    · apply hnonempty
      rintro hnil
      rw [hnil] at hge
      exact absurd hge (by decide)
  · apply hnonempty
    exact List.ne_nil_of_mem (h.queued.waiting halive i _ hr rfl)

theorem Runs.answered_of_taken (hqueue : n.queue = ahead ++ i :: behind)
    (h : Runs app stores n more taken t) (halive : t.Alive)
    (hlt : ahead.length < (queries taken).length) : t.Answered i := by
  obtain ⟨took, hlength, htook, hanswered⟩ := h.took halive
  apply hanswered
  have hget : (took ++ t.queue)[ahead.length]? = some i := by
    rw [htook, hqueue, List.append_assoc, List.getElem?_append_right le_rfl, Nat.sub_self]
    rfl
  rw [List.getElem?_append_left (by omega)] at hget
  exact List.mem_of_getElem? hget

-- a request that is not served yet is served in its turn, if the node lives and its client waits
theorem open_request_served (h : Runs app stores (start engine s) actions events n)
    (halive : n.Alive) {r : Request} (hr : n.requests[i]? = some r)
    (hopen : r.handler = .sending ∨ r.handler = .waiting) :
    n.queue.length ≤ channelCapacity ∧ n.output.length ≤ channelCapacity ∧
      (∃ action taken t, (action = .send i ∨ action = .initChain ∨ action = .query) ∧
        Acts app stores n action taken t) ∧
      (r.handler = .waiting → ∃ ahead behind, n.queue = ahead ++ i :: behind ∧
        ∀ (more : List Action) (taken : List Event) (t : Node σ),
          Runs app stores n more taken t → ahead.length < (queries taken).length →
            t.Alive → t.Answered i) := by
  refine ⟨h.queued.capacity, h.output_le, h.never_stuck halive hr hopen, fun hwaiting => ?_⟩
  have hmem := h.queued.waiting halive i r hr hwaiting
  obtain ⟨ahead, behind, hqueue⟩ := List.append_of_mem hmem
  exact ⟨ahead, behind, hqueue, fun _ _ _ hmore hlt ht => hmore.answered_of_taken hqueue ht hlt⟩

theorem Runs.not_answered_of_queued (h : Runs app stores (start engine s) actions events n)
    (hi : i ∈ n.queue) : ¬ n.Answered i := by
  rintro ⟨req, v, hr⟩
  obtain ⟨earlier, later, resp, u, rfl, hsent, -, -⟩ := h.answered hr
  rw [h.queued.queue] at hi
  obtain ⟨k, hk, hget⟩ := List.mem_drop_iff_getElem.mp hi
  have hlt := (List.getElem?_eq_some_iff.mp hsent).1
  have hsame := (List.getElem?_eq_some_iff.mp hsent).2.trans hget.symm
  have hindex := (h.queued.nodup.getElem_inj_iff).mp hsame
  rw [queries_append, List.length_append] at hindex
  have hone : (queries (.query ⟨true, req⟩ :: later)).length = (queries later).length + 1 := rfl
  omega

theorem Runs.abandoned_blocks (hi : n.Abandoned i) (hqueue : n.queue = ahead ++ i :: behind)
    (hmore : Runs app stores n more taken t) (halive : t.Alive) :
    ∃ rest, rest <:+ ahead ∧ t.queue = rest ++ i :: behind ++ sends more := by
  have hle : (queries taken).length ≤ ahead.length := by
    by_contra hlt
    have hanswered := hmore.answered_of_taken hqueue halive (Nat.lt_of_not_le hlt)
    exact (hmore.abandoned_stays hi).not_answered hanswered
  obtain ⟨took, hlength, htook, -⟩ := hmore.took halive
  refine ⟨ahead.drop took.length, List.drop_suffix .., ?_⟩
  have hdrop := congrArg (List.drop took.length) htook
  rw [List.drop_left, hqueue, List.append_assoc,
    List.drop_append_of_le_length (hlength.trans_le hle), ← List.append_assoc] at hdrop
  exact hdrop

theorem Runs.behind_not_answered (h : Runs app stores (start engine s) actions events n)
    (hi : n.Abandoned i) (hqueue : n.queue = ahead ++ i :: behind)
    (hmore : Runs app stores n more taken t) : ∀ j ∈ i :: behind, ¬ t.Answered j := by
  induction hmore with
  | refl =>
    intro j hj
    apply h.not_answered_of_queued
    rw [hqueue]
    exact List.mem_append_right _ hj
  | @step more taken u action last t hmore hacts ih =>
    rintro j hj ⟨req, v, hr⟩
    rcases hacts.answered hr with hr | ⟨-, ⟨queue, hhead⟩, -⟩
    · exact ih j hj ⟨req, v, hr⟩
    · obtain ⟨rest, -, hrest⟩ := hmore.abandoned_blocks hi hqueue hacts.alive
      have hnodup : u.queue.Nodup := by
        rw [(h.trans hmore).queued.queue]
        exact (h.trans hmore).queued.nodup.sublist (List.drop_sublist ..)
      rw [hhead] at hrest
      cases rest with
      | nil =>
        have hj : j = i := (List.cons.inj hrest).1
        have hlast : Runs app stores u [action] last t := .step .refl hacts
        have habandoned := hlast.abandoned_stays (hmore.abandoned_stays hi)
        exact habandoned.not_answered (hj ▸ ⟨req, v, hr⟩)
      | cons k rest =>
        rw [hhead, hrest] at hnodup
        have hk : j = k := (List.cons.inj hrest).1
        have hmem : k ∈ rest ++ i :: behind ++ sends more :=
          List.mem_append_left _ (List.mem_append_right _ (hk ▸ hj))
        exact (List.nodup_cons.mp hnodup).1 hmem

-- a client that hangs up after its request is in the channel ends the node when its turn comes,
-- and no request behind it is ever answered
theorem abandoned_ends_node (h : Runs app stores (start engine s) actions events n)
    (hi : n.Abandoned i) (hqueue : n.queue = ahead ++ i :: behind)
    (hmore : Runs app stores n more taken t) :
    (∀ j ∈ i :: behind, ¬ t.Answered j) ∧
      (ahead.length < (queries taken).length → ∃ e, t.phase = .exited e) ∧
      (t.Alive → ∃ rest, rest <:+ ahead ∧ t.queue = rest ++ i :: behind ++ sends more) := by
  refine ⟨h.behind_not_answered hi hqueue hmore, fun hlt => ?_, hmore.abandoned_blocks hi hqueue⟩
  by_contra hnone
  have hanswered := hmore.answered_of_taken hqueue (not_exists.mp hnone) hlt
  exact (hmore.abandoned_stays hi).not_answered hanswered

end Service

end Node

namespace Reference

open Node

def req : AbciQueryQuery where
  path := "/"
  data := "main"
  height := none
  prove := none

def serving (requests : List Request) (queue : List Nat) : Node Unit where
  session := ⟨engine, (), [⟨.initChain, .ok ()⟩]⟩
  phase := .serving
  requests := requests
  queue := queue
  output := []

theorem alive_serving (requests : List Request) (queue : List Nat) :
    (serving requests queue).Alive := nofun

def asking : List Action := [.initChain, .request req, .request req, .send 0, .send 1]

theorem runs_asking : Runs answering (database stored) (Node.start engine ()) asking []
    (serving [⟨req, .waiting⟩, ⟨req, .waiting⟩] [0, 1]) := by
  have h₁ : Runs answering (database stored) (Node.start engine ()) _ _ (serving [] []) :=
    .step .refl (.initChain rfl)
  have h₂ : Runs answering (database stored) (Node.start engine ()) _ _
    (serving [⟨req, .sending⟩] []) := .step h₁ (.request req (alive_serving _ _))
  have h₃ : Runs answering (database stored) (Node.start engine ()) _ _
    (serving [⟨req, .sending⟩, ⟨req, .sending⟩] []) := .step h₂ (.request req (alive_serving _ _))
  have hempty : (serving [⟨req, .sending⟩, ⟨req, .sending⟩] []).queue.length < channelCapacity := by
    decide
  have h₄ : Runs answering (database stored) (Node.start engine ()) _ _
    (serving [⟨req, .waiting⟩, ⟨req, .sending⟩] [0]) :=
      .step h₃ (@Acts.send Unit _ _ (serving _ _) 0 req (alive_serving _ _) rfl hempty)
  have hone : (serving [⟨req, .waiting⟩, ⟨req, .sending⟩] [0]).queue.length < channelCapacity := by
    decide
  exact .step h₄ (@Acts.send Unit _ _ (serving _ _) 1 req (alive_serving _ _) rfl hone)

theorem runs_answered : Runs answering (database stored) (Node.start engine ())
    (asking ++ [.query]) [.query ⟨true, req⟩]
      (serving [⟨req, .answered []⟩, ⟨req, .waiting⟩] [1]) :=
  .step runs_asking (@Acts.query Unit answering (database stored) (serving _ _) 0 [1]
    ⟨req, .waiting⟩ rfl rfl rfl)

theorem runs_abandoned : Runs answering (database stored) (Node.start engine ())
    (asking ++ [.disconnect 0]) []
      (serving [⟨req, .disconnected⟩, ⟨req, .waiting⟩] [0, 1]) :=
  .step runs_asking (@Acts.disconnect Unit _ _ (serving _ _) 0 req .waiting (alive_serving _ _) rfl
    (.inr rfl))

def lost : Node Unit :=
  { serving [⟨req, .disconnected⟩, ⟨req, .waiting⟩] [1] with
    phase := .exited (.undelivered ⟨0, "", "", 0, utf8 "main", [], 0, ""⟩) }

theorem runs_lost : Runs answering (database stored)
    (serving [⟨req, .disconnected⟩, ⟨req, .waiting⟩] [0, 1]) [.query] [.query ⟨false, req⟩] lost :=
  .step .refl (@Acts.query Unit answering (database stored) (serving _ _) 0 [1]
    ⟨req, .disconnected⟩ rfl rfl rfl)

end Reference

namespace Node

open Reference

theorem runs_refine_engine_answered :
    (run answering (database stored) [.query ⟨true, req⟩]).run (Session.start engine ()) =
        .ok () ⟨engine, (), [⟨.initChain, .ok ()⟩]⟩ ∧
      ∃ earlier later, [Event.query ⟨true, req⟩] = earlier ++ .query ⟨true, req⟩ :: later := by
  obtain ⟨hran, -, -, -, -, hanswered⟩ := runs_refine_engine runs_answered
  obtain ⟨earlier, later, -, -, hevents, -⟩ := hanswered 0 req [] rfl
  exact ⟨hran, earlier, later, hevents⟩

theorem open_request_served_second :
    ∃ ahead behind, [0, 1] = ahead ++ 1 :: behind ∧
      ∀ (more : List Action) (taken : List Event) (t : Node Unit),
        Runs answering (database stored) (serving [⟨req, .waiting⟩, ⟨req, .waiting⟩] [0, 1]) more
          taken t → ahead.length < (queries taken).length → t.Alive → t.Answered 1 := by
  have hr : (serving [⟨req, .waiting⟩, ⟨req, .waiting⟩] [0, 1]).requests[1]? =
      some ⟨req, .waiting⟩ := rfl
  obtain ⟨-, -, -, hserved⟩ :=
    open_request_served runs_asking (alive_serving _ _) hr (.inr rfl)
  exact hserved rfl

theorem abandoned_ends_node_first : ¬ lost.Answered 1 ∧ ∃ e, lost.phase = .exited e := by
  have hqueue : (serving [⟨req, .disconnected⟩, ⟨req, .waiting⟩] [0, 1]).queue = [] ++ 0 :: [1] :=
    rfl
  obtain ⟨hunanswered, hexited, -⟩ :=
    abandoned_ends_node runs_abandoned ⟨req, rfl⟩ hqueue runs_lost
  exact ⟨hunanswered 1 (by decide), hexited (by decide)⟩

end Node

end Narwhal
