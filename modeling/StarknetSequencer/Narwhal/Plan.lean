import StarknetSequencer.Narwhal.Script

namespace Narwhal

open Wire Effect Session Engine

variable {σ : Type} {app : AbciApp σ} {stores : Stores}

namespace Step

def calls (steps : List Step) : List BlockCall :=
  (steps.flatMap exchanged).map Exchange.call

-- the calls that are sent when the app answers them all: nothing after the first failure
def plan : List Step → List BlockCall
  | [] => []
  | .advance :: steps => plan steps
  | .call blockCall :: steps => blockCall :: plan steps
  | .ask _ :: steps => plan steps
  | .fail _ :: _ => []

theorem not_fail_of_ok {steps : List Step} {s t : Session σ}
    (h : (forM steps (perform app)).run s = .ok () t) (error : EngineError) :
    .fail error ∉ steps := by
  intro hmem
  obtain ⟨done, rest, rfl⟩ := List.append_of_mem hmem
  obtain ⟨u, -, hu⟩ := run_forM_append_ok.mp h
  rw [run_forM_cons] at hu
  cases hu

theorem plan_append {steps : List Step} (h : ∀ error, .fail error ∉ steps) (rest : List Step) :
    plan (steps ++ rest) = calls steps ++ plan rest := by
  induction steps with
  | nil => rfl
  | cons step steps ih =>
    have hsteps : ∀ error, .fail error ∉ steps := fun error hmem =>
      h error (List.mem_cons_of_mem _ hmem)
    cases step with
    | advance => exact ih hsteps
    | call blockCall => exact congrArg (blockCall :: ·) (ih hsteps)
    | ask query => exact ih hsteps
    | fail error => exact absurd (List.mem_cons_self ..) (h error)

theorem answer_of_exchanged {steps : List Step} {x : Exchange}
    (h : x ∈ steps.flatMap exchanged) : x.answer = .ok () := by
  obtain ⟨step, -, hx⟩ := List.mem_flatMap.mp h
  cases step with
  | call blockCall =>
    cases List.mem_singleton.mp hx
    rfl
  | advance => cases hx
  | ask query => cases hx
  | fail error => cases hx

theorem perform_all_ok {steps : List Step} {s t : Session σ}
    (h : (forM steps (perform app)).run s = .ok () t) :
    ∃ exchanges, t.exchanges = s.exchanges ++ exchanges ∧
      exchanges.map Exchange.call = plan steps ∧ ∀ x ∈ exchanges, x.answer = .ok () := by
  have hplan := plan_append (not_fail_of_ok h) []
  rw [List.append_nil, plan, List.append_nil] at hplan
  refine ⟨steps.flatMap exchanged, ?_, hplan.symm, fun x hx => answer_of_exchanged hx⟩
  rw [run_forM_foldl (fun _ _ _ => perform_ok) h, foldl_effect_exchanges]

theorem perform_all_error {steps : List Step} {s t : Session σ} {e : EngineError}
    (h : (forM steps (perform app)).run s = .error e t) :
    ∃ exchanges, t.exchanges = s.exchanges ++ exchanges ∧
      exchanges.map Exchange.call <+: plan steps ∧
        ∀ x ∈ exchanges.dropLast, x.answer = .ok () := by
  obtain ⟨done, step, rest, u, rfl, hdone, hstep⟩ := run_forM_error.mp h
  have hu : u.exchanges = s.exchanges ++ done.flatMap exchanged := by
    rw [run_forM_foldl (fun _ _ _ => perform_ok) hdone, foldl_effect_exchanges]
  rw [plan_append (not_fail_of_ok hdone)]
  rcases perform_error hstep with ht | ⟨blockCall, message, rfl, ht⟩
  · refine ⟨done.flatMap exchanged, ht.trans hu, List.prefix_append .., ?_⟩
    intro x hx
    exact answer_of_exchanged (List.mem_of_mem_dropLast hx)
  · refine ⟨done.flatMap exchanged ++ [⟨blockCall, .error message⟩], ?_, ?_, ?_⟩
    · rw [ht, hu, List.append_assoc]
    · rw [List.map_append]
      exact (List.prefix_append_right_inj _).mpr ⟨plan rest, rfl⟩
    · intro x hx
      rw [List.dropLast_concat] at hx
      exact answer_of_exchanged hx

end Step

namespace Engine

variable (stores)

def firstTransactions : List (Except EngineError (List Bytes)) → List Bytes
  | .ok txs :: batches => txs ++ firstTransactions batches
  | _ => []

-- the transactions of the batches before the first one that cannot be reconstructed
def delivered (engine : Engine) (certificate : Certificate) : List Bytes :=
  firstTransactions (engine.batches stores certificate)

def reconstructs (engine : Engine) (certificate : Certificate) : Bool :=
  (engine.batches stores certificate).all Except.isOk

def plan (engine : Engine) : List Certificate → List BlockCall
  | [] => []
  | certificate :: certificates =>
    .beginBlock engine.next.lastBlockHeight ::
      (engine.delivered stores certificate).map .deliverTx ++
        if engine.reconstructs stores certificate then
          [.endBlock engine.next.lastBlockHeight, .commit] ++ engine.next.plan certificates
        else []

variable {stores}

theorem plan_deliveries (batches : List (Except EngineError (List Bytes))) (rest : List Step) :
    Step.plan (batches.flatMap deliveries ++ rest) =
      (firstTransactions batches).map .deliverTx ++
        if batches.all Except.isOk then Step.plan rest else [] := by
  induction batches with
  | nil => rfl
  | cons batch batches ih =>
    cases batch with
    | error e => rfl
    | ok txs =>
      have htxs : ∀ rest, Step.plan ((txs.map fun tx => Step.call (.deliverTx tx)) ++ rest) =
          txs.map .deliverTx ++ Step.plan rest := by
        intro rest
        induction txs with
        | nil => rfl
        | cons tx txs ihtxs => exact congrArg (BlockCall.deliverTx tx :: ·) ihtxs
      rw [List.flatMap_cons, deliveries, List.append_assoc, htxs, ih, firstTransactions,
        List.map_append, List.append_assoc]
      rfl

theorem plan_script {certificates : List Certificate} {queries : List AbciQuery}
    {events : List Event} (h : Selects certificates queries events) (engine : Engine) :
    Step.plan (engine.script stores events) = engine.plan stores certificates := by
  induction h generalizing engine with
  | closed => rfl
  | query query h ih => exact ih engine
  | certificate certificate h ih =>
    rw [script, blockScript, List.append_assoc, List.cons_append, List.cons_append, Step.plan,
      Step.plan, plan_deliveries, plan, ← ih]
    rfl

theorem plan_within (engine : Engine) (certificates : List Certificate) :
    engine.plan stores certificates <+:
      chainCalls engine.lastBlockHeight (certificates.map (engine.delivered stores)) := by
  induction certificates generalizing engine with
  | nil => exact List.prefix_rfl
  | cons certificate certificates ih =>
    rw [plan, List.map_cons, chainCalls, blockCalls, List.append_assoc]
    apply (List.prefix_append_right_inj _).mpr
    split
    · exact (List.prefix_append_right_inj _).mpr (ih engine.next)
    · exact List.nil_prefix

theorem plan_complete {engine : Engine} {certificates : List Certificate}
    (h : ∀ certificate ∈ certificates, engine.reconstructs stores certificate = true) :
    engine.plan stores certificates =
      chainCalls engine.lastBlockHeight (certificates.map (engine.delivered stores)) := by
  induction certificates generalizing engine with
  | nil => rfl
  | cons certificate certificates ih =>
    rw [List.forall_mem_cons] at h
    have hnext := @ih engine.next h.2
    rw [plan, if_pos h.1, hnext, List.map_cons, chainCalls, blockCalls, List.append_assoc]
    rfl

theorem plan_stops (engine : Engine) (earlier : List Certificate) {certificate : Certificate}
    (h : engine.reconstructs stores certificate = false) (later : List Certificate) :
    engine.plan stores (earlier ++ certificate :: later) <+:
      chainCalls engine.lastBlockHeight (earlier.map (engine.delivered stores)) ++
        .beginBlock (engine.lastBlockHeight + Int64.ofNat (earlier.length + 1)) ::
          (engine.delivered stores certificate).map .deliverTx := by
  induction earlier generalizing engine with
  | nil =>
    rw [List.nil_append, plan, h, if_neg Bool.false_ne_true, List.append_nil]
    exact List.prefix_rfl
  | cons first earlier ih =>
    have hheight : engine.lastBlockHeight + Int64.ofNat ((first :: earlier).length + 1) =
        engine.next.lastBlockHeight + Int64.ofNat (earlier.length + 1) := by
      rw [List.length_cons, Int64.ofNat_add (earlier.length + 1), Int64.add_comm (Int64.ofNat _),
        ← Int64.add_assoc]
      rfl
    rw [List.cons_append, plan, List.map_cons, chainCalls, blockCalls, hheight, List.append_assoc,
      List.append_assoc]
    apply (List.prefix_append_right_inj _).mpr
    split
    · exact (List.prefix_append_right_inj _).mpr (ih engine.next h)
    · exact List.nil_prefix

theorem mem_blockScript {engine : Engine} {certificate : Certificate} {step : Step}
    (h : step ∈ engine.blockScript stores certificate) :
    step = .advance ∨ (∃ blockCall, step = .call blockCall) ∨
      ∃ batch ∈ engine.batches stores certificate, step ∈ deliveries batch := by
  rw [blockScript, List.mem_append, List.mem_cons, List.mem_cons, List.mem_cons,
    List.mem_singleton, List.mem_flatMap] at h
  rcases h with (rfl | rfl | ⟨batch, hbatch, hstep⟩) | rfl | rfl
  · exact .inl rfl
  · exact .inr (.inl ⟨_, rfl⟩)
  · exact .inr (.inr ⟨batch, hbatch, hstep⟩)
  · exact .inr (.inl ⟨_, rfl⟩)
  · exact .inr (.inl ⟨_, rfl⟩)

theorem fail_mem_blockScript {engine : Engine} {certificate : Certificate} {e : EngineError} :
    .fail e ∈ engine.blockScript stores certificate ↔
      .error e ∈ engine.batches stores certificate := by
  constructor
  · intro hmem
    rcases mem_blockScript hmem with h | ⟨blockCall, h⟩ | ⟨batch, hbatch, hstep⟩
    · cases h
    · cases h
    · cases batch with
      | ok txs =>
        obtain ⟨tx, -, h⟩ := List.mem_map.mp hstep
        cases h
      | error e =>
        cases List.mem_singleton.mp hstep
        exact hbatch
  · intro hmem
    have hstep : Step.fail e ∈ (engine.batches stores certificate).flatMap deliveries :=
      List.mem_flatMap.mpr ⟨_, hmem, List.mem_singleton.mpr rfl⟩
    exact List.mem_append_left _ (List.mem_cons_of_mem _ (List.mem_cons_of_mem _ hstep))

theorem no_fail_blockScript {engine : Engine} {certificate : Certificate} :
    (∀ e, .fail e ∉ engine.blockScript stores certificate) ↔
      engine.reconstructs stores certificate = true := by
  simp only [fail_mem_blockScript, reconstructs, List.all_eq_true]
  constructor
  · intro h batch hbatch
    cases batch with
    | ok txs => rfl
    | error e => exact absurd hbatch (h e)
  · intro h e hmem
    cases h _ hmem

theorem reconstructs_of_not_fail {certificates : List Certificate} {queries : List AbciQuery}
    {events : List Event} (h : Selects certificates queries events) {engine : Engine}
    (hfail : ∀ error, .fail error ∉ engine.script stores events) :
    ∀ certificate ∈ certificates, engine.reconstructs stores certificate = true := by
  induction h generalizing engine with
  | closed => simp
  | query query h ih =>
    exact ih fun error hmem => hfail error (List.mem_cons_of_mem _ hmem)
  | certificate certificate h ih =>
    have hfirst : engine.reconstructs stores certificate = true :=
      no_fail_blockScript.mp fun error hmem => hfail error (List.mem_append_left _ hmem)
    have hlater := @ih engine.next fun error hmem => hfail error (List.mem_append_right _ hmem)
    exact List.forall_mem_cons.mpr ⟨hfirst, hlater⟩

end Engine

end Narwhal
