import StarknetSequencer.Narwhal.Restarts

namespace Narwhal

open Wire Effect Session Engine

def channelCapacity : Nat := 1000

-- where the future that serves one `abci_query` request is
inductive Handler where
  | sending
  | waiting
  | answered (value : Bytes)
  | disconnected
deriving DecidableEq

structure Request where
  req : AbciQueryQuery
  handler : Handler
deriving DecidableEq

inductive Phase where
  | starting
  | serving
  | exited (error : EngineError)
deriving DecidableEq

-- a primary's process: the engine, the HTTP handlers and the two channels between them
structure Node (σ : Type) where
  session : Session σ
  phase : Phase
  requests : List Request
  queue : List Nat
  output : List Certificate

inductive Action where
  | request (req : AbciQueryQuery)
  | send (i : Nat)
  | disconnect (i : Nat)
  | output (certificate : Certificate)
  | initChain
  | certificate
  | query

variable {σ : Type}

def AbciApp.respond (app : AbciApp σ) (s : σ) (req : AbciQueryQuery) : Except String ResponseQuery :=
  value ((app.query (requestQuery req)).run s)

namespace Request

-- the receiver of a oneshot gets what is sent, unless it is gone
def receive (r : Request) (resp : Except String ResponseQuery) : Request :=
  match r.handler, resp with
  | .waiting, .ok resp => { r with handler := .answered resp.value }
  | _, _ => r

def taken (r : Request) : AbciQuery where
  listening := r.handler = .waiting
  req := r.req

end Request

namespace Node

def start (engine : Engine) (s : σ) : Node σ where
  session := Session.start engine s
  phase := .starting
  requests := []
  queue := []
  output := []

def Alive (n : Node σ) : Prop := ∀ e, n.phase ≠ .exited e

-- the process ends with the first error the engine returns
def drive (n : Node σ) (m : EngineM σ Unit) : Node σ :=
  match m.run n.session with
  | .ok _ session => { n with session, phase := .serving }
  | .error e session => { n with session, phase := .exited e }

def handled (n : Node σ) (i : Nat) (r : Request) : Node σ :=
  { n with requests := n.requests.set i r }

@[simp] theorem drive_requests (n : Node σ) (m : EngineM σ Unit) :
    (n.drive m).requests = n.requests := by
  rw [drive]
  cases m.run n.session <;> rfl

@[simp] theorem drive_queue (n : Node σ) (m : EngineM σ Unit) : (n.drive m).queue = n.queue := by
  rw [drive]
  cases m.run n.session <;> rfl

@[simp] theorem drive_output (n : Node σ) (m : EngineM σ Unit) : (n.drive m).output = n.output := by
  rw [drive]
  cases m.run n.session <;> rfl

@[simp] theorem handled_requests (n : Node σ) (i : Nat) (r : Request) :
    (n.handled i r).requests = n.requests.set i r := rfl

variable (app : AbciApp σ) (stores : Stores)

-- one step of one of the tasks, with the messages it takes from the channels of `select!`
inductive Acts : Node σ → Action → List Event → Node σ → Prop where
  | request {n} (req : AbciQueryQuery) : n.Alive →
    Acts n (.request req) [] { n with requests := n.requests ++ [⟨req, .sending⟩] }
  | send {n i req} : n.Alive → n.requests[i]? = some ⟨req, .sending⟩ →
    n.queue.length < channelCapacity →
    Acts n (.send i) [] { n.handled i ⟨req, .waiting⟩ with queue := n.queue ++ [i] }
  | disconnect {n i req handler} : n.Alive → n.requests[i]? = some ⟨req, handler⟩ →
    handler = .sending ∨ handler = .waiting →
    Acts n (.disconnect i) [] (n.handled i ⟨req, .disconnected⟩)
  | output {n} (certificate : Certificate) : n.Alive → n.output.length < channelCapacity →
    Acts n (.output certificate) [] { n with output := n.output ++ [certificate] }
  | initChain {n} : n.phase = .starting → Acts n .initChain [] (n.drive (Engine.initChain app))
  | certificate {n certificate output} : n.phase = .serving → n.output = certificate :: output →
    Acts n .certificate [.certificate certificate]
      ({ n with output }.drive (handleCert app stores certificate))
  | query {n i queue r} : n.phase = .serving → n.queue = i :: queue → n.requests[i]? = some r →
    Acts n .query [.query r.taken]
      ({ n.handled i (r.receive (app.respond n.session.app r.req)) with queue }.drive
        (handleAbciQuery app r.taken))

inductive Runs (m : Node σ) : List Action → List Event → Node σ → Prop where
  | refl : Runs m [] [] m
  | step {actions events n action taken t} : Runs m actions events n →
    Acts app stores n action taken t → Runs m (actions ++ [action]) (events ++ taken) t

end Node

def outputs (actions : List Action) : List Certificate :=
  actions.filterMap fun
    | .output certificate => some certificate
    | _ => none

def sends (actions : List Action) : List Nat :=
  actions.filterMap fun
    | .send i => some i
    | _ => none

theorem outputs_snoc (actions : List Action) (action : Action) :
    outputs (actions ++ [action]) = outputs actions ++ outputs [action] := List.filterMap_append

theorem sends_snoc (actions : List Action) (action : Action) :
    sends (actions ++ [action]) = sends actions ++ sends [action] := List.filterMap_append

theorem certificates_append (events taken : List Event) :
    certificates (events ++ taken) = certificates events ++ certificates taken :=
  List.filterMap_append

theorem queries_append (events taken : List Event) :
    queries (events ++ taken) = queries events ++ queries taken := List.filterMap_append

variable {app : AbciApp σ} {stores : Stores}

theorem run_snoc {events : List Event} {s t : Session σ}
    (h : (run app stores events).run s = .ok () t) (event : Event) :
    (run app stores (events ++ [event])).run s = (handle app stores event).run t := by
  rw [run, EStateM.run_bind] at h ⊢
  cases hi : (initChain app).run s with
  | error e u =>
    rw [hi] at h
    cases h
  | ok _ u =>
    rw [hi] at h
    simp only [run_forM_append, h, run_forM_cons]
    cases (handle app stores event).run t <;> rfl

namespace Node

variable {m n t : Node σ} {action : Action} {actions : List Action} {events taken : List Event}

-- the engine of the node is where `Engine.run` is after the same messages
def Ran (app : AbciApp σ) (stores : Stores) (s : Session σ) (events : List Event) (n : Node σ) :
    Prop :=
  match n.phase with
  | .starting => n.session = s ∧ events = []
  | .serving => (run app stores events).run s = .ok () n.session
  | .exited e => (run app stores events).run s = .error e n.session

theorem ran_drive {s : Session σ} (m : EngineM σ Unit)
    (h : (run app stores events).run s = m.run n.session) :
    Ran app stores s events (n.drive m) := by
  rw [Ran, drive]
  cases hm : m.run n.session with
  | ok _ session => exact h.trans hm
  | error e session => exact h.trans hm

theorem Runs.ran {engine : Engine} {s : σ}
    (h : Runs app stores (start engine s) actions events n) :
    Ran app stores (Session.start engine s) events n := by
  induction h with
  | refl => exact ⟨rfl, rfl⟩
  | step h hacts ih =>
    cases hacts with
    | request req halive => rwa [List.append_nil]
    | send halive hi hlt => rwa [List.append_nil]
    | disconnect halive hi hhandler => rwa [List.append_nil]
    | output certificate halive hlt => rwa [List.append_nil]
    | initChain hphase =>
      rw [Ran, hphase] at ih
      obtain ⟨hsession, rfl⟩ := ih
      apply ran_drive
      rw [hsession, List.append_nil, run, List.forM_nil, bind_pure_unit]
    | certificate hphase houtput =>
      rw [Ran, hphase] at ih
      exact ran_drive _ (run_snoc ih _)
    | query hphase hqueue hi =>
      rw [Ran, hphase] at ih
      exact ran_drive _ (run_snoc ih _)

theorem Runs.outputs_eq (h : Runs app stores m actions events n) (hm : m.output = []) :
    certificates events ++ n.output = outputs actions := by
  induction h with
  | refl => exact hm
  | step h hacts ih =>
    rw [outputs_snoc, certificates_append, ← ih]
    cases hacts with
    | request req halive => simp [Narwhal.certificates, outputs]
    | send halive hi hlt => simp [Narwhal.certificates, outputs, handled]
    | disconnect halive hi hhandler => simp [Narwhal.certificates, outputs, handled]
    | output certificate halive hlt => simp [Narwhal.certificates, outputs]
    | initChain hphase => simp [Narwhal.certificates, outputs]
    | certificate hphase houtput => simp [Narwhal.certificates, outputs, houtput]
    | query hphase hqueue hi => simp [Narwhal.certificates, outputs, handled]

-- what a step leaves of a request
def Keeps (r r' : Request) : Prop :=
  r'.req = r.req ∧ (r.handler ≠ .sending → r'.handler ≠ .sending) ∧
    (r.handler ≠ .sending → r.handler ≠ .waiting → r' = r)

theorem Keeps.refl (r : Request) : Keeps r r := ⟨rfl, id, fun _ _ => rfl⟩

theorem Keeps.trans {r r' r'' : Request} (h : Keeps r r') (h' : Keeps r' r'') : Keeps r r'' := by
  refine ⟨h'.1.trans h.1, fun hs => h'.2.1 (h.2.1 hs), fun hs hw => ?_⟩
  have hr := h.2.2 hs hw
  subst hr
  exact h'.2.2 hs hw

theorem keeps_receive (r : Request) (resp : Except String ResponseQuery) :
    Keeps r (r.receive resp) := by
  obtain ⟨req, handler⟩ := r
  cases handler with
  | waiting =>
    cases resp with
    | ok resp => exact ⟨rfl, nofun, fun _ hw => absurd rfl hw⟩
    | error e => exact .refl _
  | sending => exact .refl _
  | answered v => exact .refl _
  | disconnected => exact .refl _

theorem keeps_set {rs : List Request} {i j : Nat} {r r' s : Request} (hi : rs[i]? = some r)
    (h : Keeps r r') (hj : rs[j]? = some s) : ∃ s', (rs.set i r')[j]? = some s' ∧ Keeps s s' := by
  rw [List.getElem?_set]
  split_ifs with hij hlt
  · subst hij
    cases hi.symm.trans hj
    exact ⟨r', rfl, h⟩
  · exact absurd (List.getElem?_eq_some_iff.mp hi).1 hlt
  · exact ⟨s, hj, .refl s⟩

theorem Acts.keeps (h : Acts app stores n action taken t) {i : Nat} {r : Request}
    (hr : n.requests[i]? = some r) : ∃ r', t.requests[i]? = some r' ∧ Keeps r r' := by
  cases h with
  | request req halive =>
    have hlt := (List.getElem?_eq_some_iff.mp hr).1
    exact ⟨r, by rw [List.getElem?_append_left hlt, hr], .refl r⟩
  | send halive hi hlt => exact keeps_set hi ⟨rfl, nofun, fun hs => absurd rfl hs⟩ hr
  | disconnect halive hi hhandler =>
    refine keeps_set hi ⟨rfl, nofun, fun hs hw => ?_⟩ hr
    exact absurd hhandler (not_or_intro hs hw)
  | output certificate halive hlt => exact ⟨r, hr, .refl r⟩
  | initChain hphase => exact ⟨r, by rw [drive_requests, hr], .refl r⟩
  | certificate hphase houtput => exact ⟨r, by rw [drive_requests]; exact hr, .refl r⟩
  | query hphase hqueue hi =>
    rw [drive_requests]
    exact keeps_set hi (keeps_receive _ _) hr

theorem Runs.keeps (h : Runs app stores n actions events t) {i : Nat} {r : Request}
    (hr : n.requests[i]? = some r) : ∃ r', t.requests[i]? = some r' ∧ Keeps r r' := by
  induction h with
  | refl => exact ⟨r, hr, .refl r⟩
  | step h hacts ih =>
    obtain ⟨r', hr', hkeeps⟩ := ih
    obtain ⟨r'', hr'', hkeeps'⟩ := hacts.keeps hr'
    exact ⟨r'', hr'', hkeeps.trans hkeeps'⟩

theorem Acts.alive (h : Acts app stores n action taken t) : n.Alive := by
  intro e he
  cases h with
  | request req halive => exact halive e he
  | send halive hi hlt => exact halive e he
  | disconnect halive hi hhandler => exact halive e he
  | output certificate halive hlt => exact halive e he
  | initChain hphase => cases hphase.symm.trans he
  | certificate hphase houtput => cases hphase.symm.trans he
  | query hphase hqueue hi => cases hphase.symm.trans he

theorem alive_drive {m : EngineM σ Unit} (h : (n.drive m).Alive) :
    ∃ session, m.run n.session = .ok () session := by
  cases hm : m.run n.session with
  | ok _ session => exact ⟨session, rfl⟩
  | error e session =>
    rw [drive, hm] at h
    exact absurd rfl (h e)

-- a query that the engine survives was answered, to a handler that waited for it
theorem receive_of_alive {n : Node σ} {r : Request}
    (h : (n.drive (handleAbciQuery app r.taken)).Alive) :
    ∃ resp u, (app.query (requestQuery r.req)).run n.session.app = .ok resp u ∧
      r = ⟨r.req, .waiting⟩ ∧
      r.receive (app.respond n.session.app r.req) = ⟨r.req, .answered resp.value⟩ := by
  obtain ⟨session, hrun⟩ := alive_drive h
  rw [run_handleAbciQuery] at hrun
  obtain ⟨req, handler⟩ := r
  cases hresp : (app.query (requestQuery req)).run n.session.app with
  | error e u =>
    simp only [Request.taken, hresp] at hrun
    cases hrun
  | ok resp u =>
    by_cases hwaiting : handler = .waiting
    · subst hwaiting
      refine ⟨resp, u, rfl, rfl, ?_⟩
      rw [AbciApp.respond, hresp]
      rfl
    · simp [Request.taken, hresp, hwaiting] at hrun

-- the requests sent so far, in order: those `select!` took and those still in the channel
structure Queued (n : Node σ) (ids : List Nat) (queries : List AbciQuery) : Prop where
  nodup : ids.Nodup
  sent : ∀ i ∈ ids, ∃ r, n.requests[i]? = some r ∧ r.handler ≠ .sending
  queue : n.queue = ids.drop queries.length
  taken : ∀ (k : Nat) (query : AbciQuery), queries[k]? = some query →
    ∃ (i : Nat) (r : Request), ids[k]? = some i ∧ n.requests[i]? = some r ∧ r.req = query.req
  waiting : n.Alive → ∀ (i : Nat) (r : Request), n.requests[i]? = some r →
    r.handler = .waiting → i ∈ n.queue
  capacity : n.queue.length ≤ channelCapacity

theorem Queued.length_le {ids : List Nat} {queries : List AbciQuery} (h : Queued n ids queries) :
    queries.length ≤ ids.length := by
  cases hlast : queries.length with
  | zero => exact Nat.zero_le _
  | succ k =>
    obtain ⟨i, r, hi, -⟩ := h.taken k queries[k] (List.getElem?_eq_getElem _)
    exact (List.getElem?_eq_some_iff.mp hi).1

theorem Queued.keeps {ids : List Nat} {queries : List AbciQuery} (h : Queued n ids queries)
    {rs : List Request} (hkeeps : ∀ (i : Nat) (r : Request), n.requests[i]? = some r →
      ∃ r', rs[i]? = some r' ∧ Keeps r r') :
    (∀ i ∈ ids, ∃ r, rs[i]? = some r ∧ r.handler ≠ .sending) ∧
    ∀ (k : Nat) (query : AbciQuery), queries[k]? = some query →
      ∃ (i : Nat) (r : Request), ids[k]? = some i ∧ rs[i]? = some r ∧ r.req = query.req := by
  constructor
  · intro i hi
    obtain ⟨r, hr, hhandler⟩ := h.sent i hi
    obtain ⟨r', hr', hrr'⟩ := hkeeps i r hr
    exact ⟨r', hr', hrr'.2.1 hhandler⟩
  · intro k query hquery
    obtain ⟨i, r, hi, hr, hreq⟩ := h.taken k query hquery
    obtain ⟨r', hr', hrr'⟩ := hkeeps i r hr
    exact ⟨i, r', hi, hr', hrr'.1.trans hreq⟩

-- a step that leaves the channel alone and lets no handler wait that did not
theorem Queued.quiet {ids : List Nat} {queries : List AbciQuery} (h : Queued n ids queries)
    (halive : n.Alive) (hkeeps : ∀ (i : Nat) (r : Request), n.requests[i]? = some r →
      ∃ r', t.requests[i]? = some r' ∧ Keeps r r') (hqueue : t.queue = n.queue)
    (hwaiting : ∀ (i : Nat) (r : Request), t.requests[i]? = some r → r.handler = .waiting →
      n.requests[i]? = some r) : Queued t ids queries where
  nodup := h.nodup
  sent := (h.keeps hkeeps).1
  queue := hqueue.trans h.queue
  taken := (h.keeps hkeeps).2
  waiting _ i r hr hw := hqueue ▸ h.waiting halive i r (hwaiting i r hr hw) hw
  capacity := hqueue ▸ h.capacity

theorem Queued.send {ids : List Nat} {queries : List AbciQuery} (h : Queued n ids queries)
    {i : Nat} {req : AbciQueryQuery} (halive : n.Alive)
    (hi : n.requests[i]? = some ⟨req, .sending⟩) (hlt : n.queue.length < channelCapacity) :
    Queued { n.handled i ⟨req, .waiting⟩ with queue := n.queue ++ [i] } (ids ++ [i]) queries := by
  have hkeeps : Keeps ⟨req, .sending⟩ ⟨req, .waiting⟩ := ⟨rfl, nofun, fun hs => absurd rfl hs⟩
  obtain ⟨hsent, htaken⟩ := h.keeps fun j r hr => keeps_set hi hkeeps hr
  have hnew : i ∉ ids := by
    intro hmem
    obtain ⟨r, hr, hhandler⟩ := h.sent i hmem
    cases hi.symm.trans hr
    exact hhandler rfl
  have hlength := (List.getElem?_eq_some_iff.mp hi).1
  refine ⟨?_, ?_, ?_, ?_, ?_, ?_⟩
  · exact List.nodup_append.mpr ⟨h.nodup, List.nodup_singleton i,
      fun a ha b hb heq => hnew (List.mem_singleton.mp hb ▸ heq ▸ ha)⟩
  · intro j hj
    rcases List.mem_append.mp hj with hj | hj
    · exact hsent j hj
    · rw [List.mem_singleton.mp hj]
      exact ⟨⟨req, .waiting⟩, List.getElem?_set_self hlength, nofun⟩
  · rw [List.drop_append_of_le_length h.length_le, ← h.queue]
  · intro k query hquery
    obtain ⟨j, r, hj, hr, hreq⟩ := htaken k query hquery
    exact ⟨j, r, List.getElem?_append_left (List.getElem?_eq_some_iff.mp hj).1 ▸ hj, hr, hreq⟩
  · intro _ j r hr hwaiting
    by_cases hij : i = j
    · exact List.mem_append_right _ (List.mem_singleton.mpr hij.symm)
    · have hr' : n.requests[j]? = some r := (List.getElem?_set_ne hij).symm.trans hr
      exact List.mem_append_left _ (h.waiting halive j r hr' hwaiting)
  · rw [List.length_append, List.length_singleton]
    exact hlt

theorem Queued.query {ids : List Nat} {queries : List AbciQuery} (h : Queued n ids queries)
    (halive : n.Alive) {i : Nat} {queue : List Nat} {r : Request} (hqueue : n.queue = i :: queue)
    (hi : n.requests[i]? = some r) :
    Queued ({ n.handled i (r.receive (app.respond n.session.app r.req)) with queue }.drive
      (handleAbciQuery app r.taken)) ids (queries ++ [r.taken]) := by
  have hdrop : ids.drop queries.length = i :: queue := h.queue.symm.trans hqueue
  have hlast : ids[queries.length]? = some i := by
    rw [← List.head?_drop, hdrop]
    rfl
  obtain ⟨hsent, htaken⟩ := h.keeps fun j s hs => keeps_set hi (keeps_receive r _) hs
  have hself : ∃ r', (n.requests.set i (r.receive (app.respond n.session.app r.req)))[i]? =
      some r' ∧ Keeps r r' := keeps_set hi (keeps_receive r _) hi
  refine ⟨h.nodup, ?_, ?_, ?_, ?_, ?_⟩
  · rw [drive_requests]
    exact hsent
  · rw [drive_queue, List.length_append, List.length_singleton, ← List.drop_drop, hdrop]
    rfl
  · intro k query hquery
    rw [drive_requests]
    rcases Nat.lt_or_ge k queries.length with hk | hk
    · rw [List.getElem?_append_left hk] at hquery
      exact htaken k query hquery
    · rw [List.getElem?_append_right hk, List.getElem?_singleton] at hquery
      split at hquery
      · obtain ⟨r', hr', hkeeps⟩ := hself
        have hk' : k = queries.length := by omega
        cases hquery
        exact ⟨i, r', hk' ▸ hlast, hr', hkeeps.1⟩
      · cases hquery
  · intro hdriven j s hs hwaiting
    obtain ⟨resp, u, -, -, hreceive⟩ := receive_of_alive hdriven
    simp only [drive_requests, handled_requests] at hs
    by_cases hij : i = j
    · subst hij
      rw [List.getElem?_set_self (List.getElem?_eq_some_iff.mp hi).1, Option.some.injEq] at hs
      have hanswered : r.receive (app.respond n.session.app r.req) =
        ⟨r.req, .answered resp.value⟩ := hreceive
      rw [← hs, hanswered] at hwaiting
      cases hwaiting
    · rw [List.getElem?_set_ne hij] at hs
      have hmem := h.waiting halive j s hs hwaiting
      rw [hqueue] at hmem
      rw [drive_queue]
      exact (List.mem_cons.mp hmem).resolve_left (Ne.symm hij)
  · rw [drive_queue]
    have hcapacity := h.capacity
    rw [hqueue] at hcapacity
    exact (Nat.le_succ _).trans hcapacity

theorem Queued.step {ids : List Nat} {queries : List AbciQuery} (h : Queued n ids queries)
    (hacts : Acts app stores n action taken t) :
    Queued t (ids ++ sends [action]) (queries ++ Narwhal.queries taken) := by
  have halive := hacts.alive
  have hkeeps : ∀ (i : Nat) (r : Request), n.requests[i]? = some r →
      ∃ r', t.requests[i]? = some r' ∧ Keeps r r' := fun i r hr => hacts.keeps hr
  cases hacts with
  | request req _ =>
    have hquiet := h.quiet halive hkeeps rfl fun i r hr hwaiting => ?_
    · simpa [sends, Narwhal.queries] using hquiet
    · rcases Nat.lt_or_ge i n.requests.length with hi | hi
      · rwa [List.getElem?_append_left hi] at hr
      · rw [List.getElem?_append_right hi, List.getElem?_singleton] at hr
        split at hr
        · cases hr
          cases hwaiting
        · cases hr
  | send _ hi hlt => simpa [sends, Narwhal.queries] using h.send halive hi hlt
  | @disconnect i req handler _ hi hhandler =>
    have hquiet := h.quiet halive hkeeps rfl fun j r hr hwaiting => ?_
    · simpa [sends, Narwhal.queries] using hquiet
    · by_cases hij : i = j
      · subst hij
        rw [handled_requests, List.getElem?_set_self (List.getElem?_eq_some_iff.mp hi).1] at hr
        cases hr
        cases hwaiting
      · rwa [handled_requests, List.getElem?_set_ne hij] at hr
  | output certificate _ hlt =>
    have hquiet := h.quiet halive hkeeps rfl fun i r hr _ => hr
    simpa [sends, Narwhal.queries] using hquiet
  | initChain hphase =>
    have hquiet := h.quiet halive hkeeps (drive_queue _ _) fun i r hr _ => drive_requests n _ ▸ hr
    simpa [sends, Narwhal.queries] using hquiet
  | @certificate certificate output hphase houtput =>
    have hquiet := h.quiet halive hkeeps (drive_queue _ _) fun i r hr _ =>
      drive_requests { n with output } _ ▸ hr
    simpa [sends, Narwhal.queries] using hquiet
  | query hphase hqueue hi => simpa [sends, Narwhal.queries] using h.query halive hqueue hi

theorem Runs.queued {engine : Engine} {s : σ}
    (h : Runs app stores (start engine s) actions events n) :
    Queued n (sends actions) (Narwhal.queries events) := by
  induction h with
  | refl => exact ⟨.nil, nofun, rfl, nofun, nofun, Nat.zero_le _⟩
  | step h hacts ih =>
    rw [sends_snoc, queries_append]
    exact ih.step hacts

end Node

end Narwhal
