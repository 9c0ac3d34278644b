import StarknetSequencer.Narwhal.Restarts
import StarknetSequencer.Programs.Fibonacci

namespace Narwhal.StarknetAbci

open Wire Effect Session Engine
open Programs.Fibonacci (contractClass mainSelector execute_main execute_unknown)

variable (runtime : Runtime)

-- the transactions the app answers, whatever hash they carry
def Runtime.Executes (tx : Bytes) : Prop :=
  ∃ id transactionHash function programName,
    runtime.fromSlice tx =
      some ⟨id, transactionHash, .functionExecution function programName⟩ ∧
    runtime.execute function = true

-- the steps of an engine that succeed against the app, in whatever state it is
def Passes : Step → Prop
  | .call (.deliverTx tx) => runtime.Executes tx
  | .ask query => query.listening = true
  | .fail _ => False
  | _ => True

variable {runtime}

theorem computeAndHash_functionExecution (function programName : String) :
    (TransactionType.functionExecution function programName).computeAndHash runtime =
      if runtime.execute function then .ok (.ok (hexEncode (runtime.sha256 (utf8 function))))
      else .error (.expect "Could not execute contract") := rfl

theorem withHasher_ok (f : Bytes → Bytes) (app : App) :
    ∃ written t, (Consensus.withHasher (modify f)).run app = .ok written t := by
  rw [Consensus.withHasher, run_zoom]
  cases hpoisoned : app.consensus.hasher.poisoned with
  | true =>
    rw [Mutex.run_lockMap_poisoned _ hpoisoned]
    exact ⟨_, _, rfl⟩
  | false =>
    rw [Mutex.run_lockMap _ hpoisoned]
    exact ⟨_, _, rfl⟩

theorem deliverTx_ok_iff (tx : Bytes) (app : App) :
    (∃ response t, (Consensus.deliverTx runtime tx).run app = .ok response t) ↔
      runtime.Executes tx := by
  constructor
  · rintro ⟨response, t, h⟩
    obtain ⟨⟨id, transactionHash, transactionType⟩, s₁, htx, h⟩ := run_bind_ok.mp h
    obtain ⟨txHash, s₂, hhash, -⟩ := run_bind_ok.mp h
    obtain ⟨hslice, -⟩ := run_orThrow_eq_ok.mp htx
    obtain ⟨hcompute, -⟩ := run_lift_eq_ok.mp hhash
    cases transactionType with
    | functionExecution function programName =>
      refine ⟨id, transactionHash, function, programName, hslice, ?_⟩
      by_contra hfails
      rw [computeAndHash_functionExecution, if_neg hfails] at hcompute
      cases hcompute
    | declare => cases hcompute
    | deploy => cases hcompute
    | invoke => cases hcompute
  · rintro ⟨id, transactionHash, function, programName, hslice, hexecute⟩
    simp only [Consensus.deliverTx, EStateM.run_bind, hslice, run_orThrow_some,
      computeAndHash_functionExecution, if_pos hexecute, run_lift_ok, Except.map]
    cases hexEncode (runtime.sha256 (utf8 function)) == transactionHash with
    | true =>
      obtain ⟨written, t, ht⟩ := withHasher_ok (fun stream => stream ++ utf8 transactionHash)
        { app with transactions := app.transactions + 1 }
      exact ⟨_, t, run_bind_ok.mpr ⟨written, t, ht, rfl⟩⟩
    | false => exact ⟨_, _, rfl⟩

theorem call_ok_iff (blockCall : BlockCall) (app : App) :
    (∃ t, ((server runtime).call blockCall).run app = .ok () t) ↔
      Passes runtime (.call blockCall) := by
  have hanswer : ((server runtime).call blockCall).run app =
      (answer runtime (call runtime blockCall)).run app := rfl
  cases blockCall with
  | deliverTx tx =>
    rw [hanswer, answer, EStateM.run_adaptExcept, call, EStateM.run_bind, Passes,
      ← deliverTx_ok_iff tx app]
    cases (Consensus.deliverTx runtime tx).run app with
    | ok response t => exact iff_of_true ⟨t, rfl⟩ ⟨response, t, rfl⟩
    | error e t => exact iff_of_false (by rintro ⟨u, ⟨⟩⟩) (by rintro ⟨response, u, ⟨⟩⟩)
  | initChain => exact iff_of_true ⟨_, rfl⟩ trivial
  | beginBlock height => exact iff_of_true ⟨_, rfl⟩ trivial
  | endBlock height => exact iff_of_true ⟨_, rfl⟩ trivial
  | commit => exact iff_of_true ⟨_, rfl⟩ trivial

theorem perform_ok_iff (step : Step) (s : Session App) :
    (∃ t, (step.perform (server runtime)).run s = .ok () t) ↔ Passes runtime step := by
  cases step with
  | advance => exact iff_of_true ⟨_, rfl⟩ trivial
  | call blockCall =>
    rw [Step.perform, run_call, ← call_ok_iff blockCall s.app]
    cases ((server runtime).call blockCall).run s.app with
    | ok _ t => exact iff_of_true ⟨_, rfl⟩ ⟨t, rfl⟩
    | error e t => exact iff_of_false (by rintro ⟨u, ⟨⟩⟩) (by rintro ⟨u, ⟨⟩⟩)
  | ask query =>
    have hquery : ((server runtime).query (requestQuery query.req)).run s.app = .ok _ s.app := rfl
    rw [Step.perform, run_handleAbciQuery, hquery, Passes]
    cases query.listening with
    | true => exact iff_of_true ⟨_, rfl⟩ rfl
    | false => exact iff_of_false (by rintro ⟨u, ⟨⟩⟩) Bool.false_ne_true
  | fail error => exact iff_of_false (by rintro ⟨u, ⟨⟩⟩) id

theorem deliveries_pass_iff (batches : List (Except EngineError (List Bytes))) :
    (∀ step ∈ batches.flatMap deliveries, Passes runtime step) ↔
      batches.all Except.isOk = true ∧ ∀ tx ∈ firstTransactions batches, runtime.Executes tx := by
  induction batches with
  | nil => simp [firstTransactions]
  | cons batch batches ih =>
    rw [List.flatMap_cons, List.forall_mem_append, ih, List.all_cons, Bool.and_eq_true]
    cases batch with
    | error e =>
      refine iff_of_false (fun h => h.1 (.fail e) (List.mem_singleton_self _)) ?_
      exact fun h => Bool.false_ne_true h.1.1
    | ok txs =>
      have htxs : (∀ step ∈ deliveries (.ok txs), Passes runtime step) ↔
          ∀ tx ∈ txs, runtime.Executes tx := List.forall_mem_map
      rw [htxs, firstTransactions, List.forall_mem_append]
      constructor
      · rintro ⟨hhead, hok, htail⟩
        exact ⟨⟨rfl, hok⟩, hhead, htail⟩
      · rintro ⟨⟨-, hok⟩, hhead, htail⟩
        exact ⟨hhead, hok, htail⟩

variable {stores : Stores}

theorem blockScript_passes_iff (engine : Engine) (certificate : Certificate) :
    (∀ step ∈ engine.blockScript stores certificate, Passes runtime step) ↔
      engine.reconstructs stores certificate = true ∧
        ∀ tx ∈ engine.delivered stores certificate, runtime.Executes tx := by
  rw [blockScript, List.forall_mem_append, List.forall_mem_cons, List.forall_mem_cons,
    deliveries_pass_iff]
  constructor
  · rintro ⟨⟨-, -, h⟩, -⟩
    exact h
  · intro h
    refine ⟨⟨trivial, trivial, h⟩, ?_⟩
    rw [List.forall_mem_cons, List.forall_mem_singleton]
    exact ⟨trivial, trivial⟩

theorem script_passes_iff (engine : Engine) (events : List Event) :
    (∀ step ∈ engine.script stores events, Passes runtime step) ↔
      (∀ query ∈ queries events, query.listening = true) ∧
        ∀ certificate ∈ certificates events, engine.reconstructs stores certificate = true ∧
          ∀ tx ∈ engine.delivered stores certificate, runtime.Executes tx := by
  induction events generalizing engine with
  | nil => simp [script, queries, certificates]
  | cons event events ih =>
    cases event with
    | certificate certificate =>
      have hnext := ih engine.next
      have hcertificates : certificates (.certificate certificate :: events) =
          certificate :: certificates events := rfl
      rw [script, List.forall_mem_append, blockScript_passes_iff, hnext, hcertificates,
        List.forall_mem_cons]
      exact and_left_comm
    | query query =>
      have hqueries : queries (.query query :: events) = query :: queries events := rfl
      rw [script, List.forall_mem_cons, ih engine, hqueries, List.forall_mem_cons, and_assoc]
      rfl

theorem run_completes_iff (engine : Engine) (events : List Event) (s : App) :
    value ((run (server runtime) stores events).run (Session.start engine s)) = .ok () ↔
      (∀ query ∈ queries events, query.listening = true) ∧
        ∀ certificate ∈ certificates events, engine.reconstructs stores certificate = true ∧
          ∀ tx ∈ engine.delivered stores certificate, runtime.Executes tx := by
  obtain ⟨t, ht⟩ : ∃ t, (initChain (server runtime)).run (Session.start engine s) =
      .ok () ⟨engine, t, [⟨.initChain, .ok ()⟩]⟩ := ⟨s, rfl⟩
  rw [run_eq, ht, ← script_passes_iff, ← run_forM_ok_iff perform_ok_iff]
  dsimp only
  cases (forM (engine.script stores events) (Step.perform (server runtime))).run
    (⟨engine, t, [⟨.initChain, .ok ()⟩]⟩ : Session App) with
  | ok _ u => exact iff_of_true rfl ⟨u, rfl⟩
  | error e u => exact iff_of_false (by rintro ⟨⟩) (by rintro ⟨u, ⟨⟩⟩)

section Bundled

variable {snKeccak : Bytes → Cairo.Felt} {steps : Nat}

theorem execute_bundled_iff
    (hexecute : ∀ function, runtime.execute function =
      (contractClass.execute (snKeccak (utf8 function)) [] steps).isOk)
    (hsteps : 3517 ≤ steps) (function : String) :
    runtime.execute function = true ↔ snKeccak (utf8 function) = mainSelector := by
  rw [hexecute]
  by_cases hselector : snKeccak (utf8 function) = mainSelector
  · rw [hselector, execute_main, if_pos hsteps]
    exact iff_of_true rfl rfl
  · rw [execute_unknown hselector]
    exact iff_of_false Bool.false_ne_true hselector

-- with the bundled class behind the app, one transaction that names another function ends the run
theorem bundled_run_completes_iff
    (hexecute : ∀ function, runtime.execute function =
      (contractClass.execute (snKeccak (utf8 function)) [] steps).isOk)
    (hsteps : 3517 ≤ steps) (engine : Engine) (events : List Event) (s : App) :
    value ((run (server runtime) stores events).run (Session.start engine s)) = .ok () ↔
      (∀ query ∈ queries events, query.listening = true) ∧
        ∀ certificate ∈ certificates events, engine.reconstructs stores certificate = true ∧
          ∀ tx ∈ engine.delivered stores certificate,
            ∃ id transactionHash function programName,
              runtime.fromSlice tx =
                some ⟨id, transactionHash, .functionExecution function programName⟩ ∧
              snKeccak (utf8 function) = mainSelector := by
  rw [run_completes_iff]
  simp only [Runtime.Executes, execute_bundled_iff hexecute hsteps]

end Bundled

namespace Reference

open Narwhal.Reference (digest batch certificate database engine)

def snKeccak (name : Bytes) : Cairo.Felt := if name = utf8 "main" then mainSelector else 0

def main : String :=
  "\x7b\"id\":\"0\",\"transaction_hash\":\"0\",\"transaction_type\":" ++
    "\x7b\"FunctionExecution\":\x7b\"function\":\"main\",\"program_name\":\"fibonacci\"\x7d\x7d\x7d"

def bundled : Runtime where
  fromSlice tx :=
    if tx = utf8 main then some ⟨"0", "0", .functionExecution "main" "fibonacci"⟩ else none
  execute function := (contractClass.execute (snKeccak (utf8 function)) [] 1000000).isOk
  sha256 _ := []
  terminated := "channel closed"

def stored (key : Bytes) : Option Bytes :=
  if key = (digest 1).toVec then some (batch (utf8 main))
  else if key = (digest 2).toVec then some (WorkerMessage.codec.encode (.batch []))
  else none

theorem delivered_main : engine.delivered (database stored) certificate = [utf8 main] := by
  decide +kernel

theorem reconstructs_main : engine.reconstructs (database stored) certificate = true := by
  decide +kernel

theorem fromSlice_main : bundled.fromSlice (utf8 main) =
    some ⟨"0", "0", .functionExecution "main" "fibonacci"⟩ := by
  simp only [bundled, if_true]

end Reference

theorem bundled_run_completes_main :
    value ((run (server Reference.bundled) (Narwhal.Reference.database Reference.stored)
      [.certificate Narwhal.Reference.certificate]).run
        (Session.start Narwhal.Reference.engine App.new)) = .ok () := by
  have hexecute : ∀ function, Reference.bundled.execute function =
      (contractClass.execute (Reference.snKeccak (utf8 function)) [] 1000000).isOk := fun _ => rfl
  refine (bundled_run_completes_iff hexecute (by decide) _ _ _).mpr ⟨nofun, ?_⟩
  intro certificate hcertificate
  cases List.mem_singleton.mp hcertificate
  refine ⟨Reference.reconstructs_main, ?_⟩
  rw [Reference.delivered_main, List.forall_mem_singleton]
  exact ⟨"0", "0", "main", "fibonacci", Reference.fromSlice_main, if_pos rfl⟩

end Narwhal.StarknetAbci
