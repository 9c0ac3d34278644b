import StarknetSequencer.Narwhal.Replicas
import StarknetSequencer.Narwhal.StarknetAbci

namespace Narwhal

open Wire Effect Session Engine

variable {σ : Type} (app : AbciApp σ) (stores : Stores) (storePath : String)

def certificates (events : List Event) : List Certificate :=
  events.filterMap fun
    | .certificate certificate => some certificate
    | .query _ => none

def queries (events : List Event) : List AbciQuery :=
  events.filterMap fun
    | .certificate _ => none
    | .query query => some query

def Session.committed (session : Session σ) : Nat := session.sent.count .commit

-- the height a new engine starts from, and the blocks the app had committed by then
structure Boot where
  lastBlockHeight : Int64
  committed : Nat
deriving DecidableEq

def boot (events : List Event) : EngineM σ Boot := do
  let committed := (← get).committed
  let engine ← Engine.new app storePath
  modify fun session => { session with engine }
  run app stores events
  return { lastBlockHeight := engine.lastBlockHeight, committed }

def history (sessions : List (List Event)) : EngineM σ (List Boot) :=
  sessions.mapM (boot app stores storePath)

def AbciApp.ReportsZero (app : AbciApp σ) : Prop :=
  ∀ s res t, app.info.run s = .ok res t → res.lastBlockHeight = 0

variable {app stores storePath}

theorem selects_of_events (events : List Event) :
    Selects (certificates events) (queries events) events := by
  induction events with
  | nil => exact .closed
  | cons event events ih =>
    cases event with
    | certificate certificate => exact .certificate certificate ih
    | query query => exact .query query ih

theorem new_ok (hzero : app.ReportsZero) {s t : Session σ} {engine : Engine}
    (h : (Engine.new app storePath).run s = .ok engine t) :
    engine.lastBlockHeight = 0 ∧ t.exchanges = s.exchanges := by
  obtain ⟨connected₁, u₁, h₁, h⟩ := run_bind_ok.mp h
  obtain ⟨_, v₁, hl₁, h⟩ := run_bind_ok.mp h
  obtain ⟨info, u₂, h₂, h⟩ := run_bind_ok.mp h
  obtain ⟨connected₃, u₃, h₃, h⟩ := run_bind_ok.mp h
  obtain ⟨_, v₃, hl₃, h⟩ := run_bind_ok.mp h
  obtain ⟨connected₄, u₄, h₄, h⟩ := run_bind_ok.mp h
  obtain ⟨_, v₄, hl₄, hpure⟩ := run_bind_ok.mp h
  obtain ⟨-, rfl⟩ := run_lift_eq_ok.mp hl₁
  obtain ⟨-, rfl⟩ := run_lift_eq_ok.mp hl₃
  obtain ⟨-, rfl⟩ := run_lift_eq_ok.mp hl₄
  cases (run_withApp _ _).symm.trans h₁
  cases (run_withApp _ _).symm.trans h₂
  cases (run_withApp _ _).symm.trans h₃
  cases (run_withApp _ _).symm.trans h₄
  cases hpure
  refine ⟨?_, rfl⟩
  dsimp only
  cases hi : app.info.run (final (app.connect.run s.app)) with
  | ok res u => exact hzero _ _ _ hi
  | error e u => rfl

theorem boot_ok (hzero : app.ReportsZero) {events : List Event} {s t : Session σ} {b : Boot}
    (h : (boot app stores storePath events).run s = .ok b t) :
    b.lastBlockHeight = 0 ∧ b.committed = s.committed ∧
      ∃ blocks : List (List Bytes), blocks.length = (certificates events).length ∧
        sent t = sent s ++ .initChain :: chainCalls 0 blocks := by
  obtain ⟨_, s₀, h₀, h⟩ := run_bind_ok.mp h
  cases h₀
  obtain ⟨engine, u, hnew, h⟩ := run_bind_ok.mp h
  obtain ⟨_, v, hv, h⟩ := run_bind_ok.mp h
  cases hv
  obtain ⟨_, w, hrun, hpure⟩ := run_bind_ok.mp h
  cases hpure
  obtain ⟨hheight, hexchanges⟩ := new_ok hzero hnew
  obtain ⟨hall, first, exchanges, ht, hfirst, hplan, -⟩ := run_ok (selects_of_events events) hrun
  refine ⟨hheight, rfl, (certificates events).map (engine.delivered stores), List.length_map .., ?_⟩
  have hcalls : exchanges.map Exchange.call =
      chainCalls engine.lastBlockHeight ((certificates events).map (engine.delivered stores)) :=
    hplan.trans (plan_complete hall)
  have ht' : t.exchanges = s.exchanges ++ first :: exchanges := by
    rw [ht]
    exact congrArg (· ++ first :: exchanges) hexchanges
  rw [sent, ht', List.map_append, List.map_cons, hfirst, hcalls, hheight, sent]

theorem committed_of_boot {s t : Session σ} {blocks : List (List Bytes)}
    (h : sent t = sent s ++ .initChain :: chainCalls 0 blocks) :
    t.committed = s.committed + blocks.length := by
  have hcons : (BlockCall.initChain :: chainCalls 0 blocks).count .commit = blocks.length := by
    rw [List.count_cons, count_commit_chainCalls]
    rfl
  rw [committed, h, List.count_append, hcons, committed]

theorem proposedHeights_of_boot {s t : Session σ} {blocks : List (List Bytes)}
    (h : sent t = sent s ++ .initChain :: chainCalls 0 blocks) :
    proposedHeights (sent t) = proposedHeights (sent s) ++
      (List.range blocks.length).map fun k => Int64.ofNat (k + 1) := by
  have hcons : proposedHeights (.initChain :: chainCalls 0 blocks) =
      (List.range blocks.length).map fun k => 0 + Int64.ofNat (k + 1) :=
    proposedHeights_chainCalls 0 blocks
  rw [h, proposedHeights_append, hcons]
  simp only [Int64.zero_add]

theorem history_ok (hzero : app.ReportsZero) {sessions : List (List Event)} {s t : Session σ}
    {boots : List Boot} (h : (history app stores storePath sessions).run s = .ok boots t) :
    t.committed = s.committed + (sessions.map fun events => (certificates events).length).sum ∧
      proposedHeights (sent t) = proposedHeights (sent s) ++ sessions.flatMap fun events =>
        (List.range (certificates events).length).map fun k => Int64.ofNat (k + 1) := by
  induction sessions generalizing s boots with
  | nil =>
    cases run_mapM_nil.symm.trans h
    simp
  | cons events sessions ih =>
    obtain ⟨b, boots', u, hb, hrest, rfl⟩ := run_mapM_cons.mp h
    obtain ⟨-, -, blocks, hlen, hsent⟩ := boot_ok hzero hb
    obtain ⟨hcommitted, hheights⟩ := ih hrest
    constructor
    · rw [hcommitted, committed_of_boot hsent, hlen, List.map_cons, List.sum_cons, Nat.add_assoc]
    · rw [hheights, proposedHeights_of_boot hsent, hlen, List.flatMap_cons, List.append_assoc]

theorem boots_iff (hzero : app.ReportsZero) {sessions : List (List Event)} {s t : Session σ}
    {boots : List Boot} (h : (history app stores storePath sessions).run s = .ok boots t) :
    (∀ b ∈ boots, b.lastBlockHeight.toInt = b.committed) ↔
      (sessions ≠ [] → s.committed = 0) ∧
        ∀ events ∈ sessions.dropLast, certificates events = [] := by
  induction sessions generalizing s boots with
  | nil =>
    cases run_mapM_nil.symm.trans h
    simp
  | cons events sessions ih =>
    obtain ⟨b, boots', u, hb, hrest, rfl⟩ := run_mapM_cons.mp h
    obtain ⟨hheight, hbefore, blocks, hlen, hsent⟩ := boot_ok hzero hb
    have hfirst : b.lastBlockHeight.toInt = b.committed ↔ s.committed = 0 := by
      rw [hheight, hbefore, Int64.toInt_zero]
      omega
    have hu : u.committed = 0 ↔ s.committed = 0 ∧ certificates events = [] := by
      rw [committed_of_boot hsent, hlen, ← List.length_eq_zero_iff]
      omega
    rw [List.forall_mem_cons, hfirst, ih hrest, hu]
    cases sessions with
    | nil => simp
    | cons later sessions =>
      rw [List.dropLast_cons_of_ne_nil (List.cons_ne_nil later sessions), List.forall_mem_cons]
      simp only [ne_eq, List.cons_ne_nil, not_false_eq_true, forall_const]
      tauto

theorem StarknetAbci.server_reportsZero (runtime : StarknetAbci.Runtime) :
    (StarknetAbci.server runtime).ReportsZero := by
  rintro s res t h
  cases h
  rfl

theorem heights_continue_iff (runtime : StarknetAbci.Runtime) {sessions : List (List Event)}
    {engine : Engine} {boots : List Boot} {t : Session StarknetAbci.App}
    (hrun : (history (StarknetAbci.server runtime) stores storePath sessions).run
      (Session.start engine StarknetAbci.App.new) = .ok boots t) :
    (proposedHeights (sent t) = (List.range t.committed).map (fun k => Int64.ofNat (k + 1)) ∧
      ∀ b ∈ boots, b.lastBlockHeight.toInt = b.committed) ↔
    ∀ events ∈ sessions.dropLast, certificates events = [] := by
  have hzero := StarknetAbci.server_reportsZero runtime
  have hstart : (Session.start engine StarknetAbci.App.new).committed = 0 := rfl
  have hboots := boots_iff hzero hrun
  constructor
  · rintro ⟨-, h⟩
    exact (hboots.mp h).2
  · intro h
    refine ⟨?_, hboots.mpr ⟨fun _ => hstart, h⟩⟩
    obtain ⟨hcommitted, hheights⟩ := history_ok hzero hrun
    rw [hheights, hcommitted]
    rcases List.eq_nil_or_concat' sessions with rfl | ⟨earlier, last, rfl⟩
    · rfl
    · rw [List.dropLast_concat] at h
      have hnone : (earlier.flatMap fun events =>
          (List.range (certificates events).length).map fun k => Int64.ofNat (k + 1)) = [] := by
        rw [List.flatMap_eq_nil_iff]
        intro events hevents
        rw [h events hevents]
        rfl
      have hsum : (earlier.map fun events => (certificates events).length).sum = 0 := by
        apply List.sum_eq_zero
        intro n hn
        obtain ⟨events, hevents, rfl⟩ := List.mem_map.mp hn
        rw [h events hevents]
        rfl
      rw [List.flatMap_append, hnone, List.map_append, List.sum_append, hsum, hstart,
        List.nil_append, List.flatMap_singleton, List.map_singleton, List.sum_singleton,
        Nat.zero_add, Nat.zero_add]
      rfl

namespace Reference

def runtime : StarknetAbci.Runtime where
  fromSlice _ := none
  execute _ := false
  sha256 bs := bs
  terminated := "server connection terminated"

def emptyCertificate : Certificate where
  header.payload.entries := []
  header.payload.ascending := .nil

def blockSession (n : Nat) : List Event := List.replicate n (.certificate emptyCertificate)

def blockExchanges (height : Int64) : List Exchange :=
  [⟨.beginBlock height, .ok ()⟩, ⟨.endBlock height, .ok ()⟩, ⟨.commit, .ok ()⟩]

def lastSession : Session StarknetAbci.App where
  engine := { storePath := "db", lastBlockHeight := 2 }
  app := StarknetAbci.App.new
  exchanges := ⟨.initChain, .ok ()⟩ :: ⟨.initChain, .ok ()⟩ :: blockExchanges 1 ++ blockExchanges 2

def repeatedSession : Session StarknetAbci.App where
  engine := { storePath := "db", lastBlockHeight := 1 }
  app := StarknetAbci.App.new
  exchanges :=
    ⟨.initChain, .ok ()⟩ :: blockExchanges 1 ++ ⟨.initChain, .ok ()⟩ :: blockExchanges 1

def emptySession : Session StarknetAbci.App where
  engine := { storePath := "db", lastBlockHeight := 0 }
  app := StarknetAbci.App.new
  exchanges := [⟨.initChain, .ok ()⟩]

def oneBlockSession : Session StarknetAbci.App where
  engine := { storePath := "db", lastBlockHeight := 1 }
  app := StarknetAbci.App.new
  exchanges := ⟨.initChain, .ok ()⟩ :: blockExchanges 1

theorem history_last :
    (history (StarknetAbci.server runtime) (database stored) "db" [blockSession 0, blockSession 2]).run
      (Session.start engine StarknetAbci.App.new) = .ok [⟨0, 0⟩, ⟨0, 0⟩] lastSession := by
  have hfirst : (boot (StarknetAbci.server runtime) (database stored) "db" (blockSession 0)).run
      (Session.start engine StarknetAbci.App.new) = .ok ⟨0, 0⟩ emptySession := rfl
  have hlast : (boot (StarknetAbci.server runtime) (database stored) "db" (blockSession 2)).run
      emptySession = .ok ⟨0, 0⟩ lastSession := rfl
  exact run_mapM_cons.mpr ⟨_, _, _, hfirst, run_mapM_singleton.mpr ⟨_, hlast, rfl⟩, rfl⟩

theorem history_repeated :
    (history (StarknetAbci.server runtime) (database stored) "db" [blockSession 1, blockSession 1]).run
      (Session.start engine StarknetAbci.App.new) = .ok [⟨0, 0⟩, ⟨0, 1⟩] repeatedSession := by
  have hfirst : (boot (StarknetAbci.server runtime) (database stored) "db" (blockSession 1)).run
      (Session.start engine StarknetAbci.App.new) = .ok ⟨0, 0⟩ oneBlockSession := rfl
  have hlast : (boot (StarknetAbci.server runtime) (database stored) "db" (blockSession 1)).run
      oneBlockSession = .ok ⟨0, 1⟩ repeatedSession := rfl
  exact run_mapM_cons.mpr ⟨_, _, _, hfirst, run_mapM_singleton.mpr ⟨_, hlast, rfl⟩, rfl⟩

end Reference

theorem heights_continue_last :
    proposedHeights (sent Reference.lastSession) =
      (List.range Reference.lastSession.committed).map fun k => Int64.ofNat (k + 1) := by
  have h := heights_continue_iff Reference.runtime Reference.history_last
  refine (h.mpr ?_).1
  intro events hevents
  cases List.mem_singleton.mp hevents
  rfl

theorem heights_repeat :
    ∃ boots t, (history (StarknetAbci.server Reference.runtime) (Reference.database Reference.stored) "db"
        [Reference.blockSession 1, Reference.blockSession 1]).run
          (Session.start Reference.engine StarknetAbci.App.new) = .ok boots t ∧
      proposedHeights (sent t) = [1, 1] ∧
      ¬ (proposedHeights (sent t) =
          (List.range t.committed).map (fun k => Int64.ofNat (k + 1)) ∧
        ∀ b ∈ boots, b.lastBlockHeight.toInt = b.committed) := by
  refine ⟨_, _, Reference.history_repeated, rfl, ?_⟩
  rintro ⟨-, h⟩
  have hlast := h ⟨0, 1⟩ (List.mem_cons_of_mem _ (List.mem_cons_self ..))
  cases hlast

end Narwhal
