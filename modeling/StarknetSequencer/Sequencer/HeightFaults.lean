import StarknetSequencer.Effect.Faults
import StarknetSequencer.Sequencer.HeightCount

namespace Sequencer

open Wire Effect

namespace HeightFile

def readOrCreateFrom : Option Bytes → FileProgram Panic UInt8 Int64
  | some bytes =>
    match decode bytes with
    | some height => .done height
    | none => .panic (.expect "Contents of height file are not readable")
  | none => .fsWrite (encode 0) (.done 0)

def readOrCreateSteps : FileProgram Panic UInt8 Int64 := .read readOrCreateFrom

def incrementFrom : Option Bytes → FileProgram Panic UInt8 Int64
  | some bytes =>
    match decode bytes with
    | some height => .fsWrite (encode (height + 1)) (.done (height + 1))
    | none => .panic .unwrap
  | none => .panic .unwrap

def incrementSteps : FileProgram Panic UInt8 Int64 := .read incrementFrom

theorem readOrCreateFrom_encode (height : Int64) :
    readOrCreateFrom (some (encode height)) = .done height := by
  rw [readOrCreateFrom, decode_encode]

theorem incrementFrom_encode (height : Int64) :
    incrementFrom (some (encode height)) = .fsWrite (encode (height + 1)) (.done (height + 1)) := by
  rw [incrementFrom, decode_encode]

theorem run_readOrCreateSteps : readOrCreateSteps.run = readOrCreate := by
  funext file
  cases file with
  | none => rfl
  | some bytes =>
    change (readOrCreateFrom (some bytes)).run.run (some bytes) = readOrCreate.run (some bytes)
    simp only [readOrCreateFrom, readOrCreate, EStateM.run_bind, EStateM.run_get]
    cases decode bytes <;> rfl

theorem run_incrementSteps : incrementSteps.run = increment := by
  funext file
  cases file with
  | none => rfl
  | some bytes =>
    change (incrementFrom (some bytes)).run.run (some bytes) = increment.run (some bytes)
    simp only [incrementFrom, increment, EStateM.run_bind, EStateM.run_get, run_orThrow_some]
    cases decode bytes <;> rfl

end HeightFile

def HeightCall.program : HeightCall → FileProgram Panic UInt8 Int64
  | .new => HeightFile.readOrCreateSteps
  | .info => HeightFile.readOrCreateSteps
  | .commit => HeightFile.incrementSteps

-- the same call in the model without faults
def HeightCall.onFile : HeightCall → EStateM Panic (Option Bytes) Int64
  | .new => HeightFile.readOrCreate
  | .info => HeightFile.readOrCreate
  | .commit => HeightFile.increment

theorem HeightCall.exec_undisturbed (call : HeightCall) (file : Option Bytes) :
    call.program.exec [] file = match call.onFile.run file with
      | .ok height file => (.returned height, file)
      | .error panic file => (.panicked panic, file) := by
  have hrun : call.program.run = call.onFile := by
    cases call with
    | new => exact HeightFile.run_readOrCreateSteps
    | info => exact HeightFile.run_readOrCreateSteps
    | commit => exact HeightFile.run_incrementSteps
  rw [FileProgram.exec_nil, hrun]
  cases call.onFile.run file <;> rfl

abbrev HeightOutcome := Outcome Panic UInt8 Int64

structure HeightEvent where
  call : HeightCall
  -- the read failed although the file was there
  unreadable : Bool
  outcome : HeightOutcome

structure HeightNode where
  file : Option Bytes
  up : Bool

-- a panic of `new` ends the process, a panic of a hook only the connection that called it
def HeightCall.leavesUp (call : HeightCall) : HeightOutcome → Bool
  | .returned _ => true
  | .panicked _ => call ≠ .new
  | .stopped _ => false

def HeightNode.run : HeightNode → List (HeightCall × List Fate) → Option (List HeightEvent)
  | _, [] => some []
  | node, (call, fates) :: calls =>
    if call = .new ∨ node.up = true then
      let (outcome, file) := call.program.exec fates node.file
      let unreadable := fates.head? = some .fails && node.file.isSome
      (HeightNode.run ⟨file, call.leavesUp outcome⟩ calls).map (⟨call, unreadable, outcome⟩ :: ·)
    else none

def HeightEvent.reported (event : HeightEvent) : Option Int64 :=
  match event.call, event.outcome with
  | .info, .returned height => some height
  | _, _ => none

structure HeightsSurvive (trace : List HeightEvent) : Prop where
  neverDecreases : (trace.filterMap HeightEvent.reported).Pairwise fun h h' => h.toInt ≤ h'.toInt
  comesUp : ∀ (before between after : List HeightEvent) (last event : HeightEvent)
    (h h' : Int64), trace = before ++ last :: (between ++ event :: after) →
    last.outcome = .returned h → (∀ e ∈ between, ∀ k, e.outcome ≠ .returned k) →
    event.call = .new → event.outcome = .returned h' →
    h' = h ∨ h' = h + 1 ∧ ∃ e ∈ between, e.call = .commit ∧ ∃ rest, e.outcome = .stopped rest
  neverZero : ∀ (before between after : List HeightEvent) (committed event : HeightEvent)
    (h h' : Int64), trace = before ++ committed :: (between ++ event :: after) →
    committed.call = .commit → committed.outcome = .returned h →
    event.call = .new → event.outcome = .returned h' → 0 < h'.toInt

def NewNeverPanics (trace : List HeightEvent) : Prop :=
  ∀ event ∈ trace, event.call = .new → ∀ panic, event.outcome ≠ .panicked panic

def CrashLoop (trace : List HeightEvent) : Prop :=
  ∀ event ∈ trace, event.call = .new ∧ event.outcome.torn = false ∧
    ∀ h, event.outcome ≠ .returned h

-- a counter that an interrupted commit either advances or leaves alone
inductive Durable : Bool → Nat → List HeightEvent → Prop
  | nil {up : Bool} {n : Nat} : Durable up n []
  | started {up b : Bool} {n : Nat} {trace : List HeightEvent} :
    Durable true n trace → Durable up n (⟨.new, b, .returned (Int64.ofNat n)⟩ :: trace)
  | reported {b : Bool} {n : Nat} {trace : List HeightEvent} :
    Durable true n trace → Durable true n (⟨.info, b, .returned (Int64.ofNat n)⟩ :: trace)
  | committed {b : Bool} {n : Nat} {trace : List HeightEvent} :
    Durable true (n + 1) trace →
    Durable true n (⟨.commit, b, .returned (Int64.ofNat (n + 1))⟩ :: trace)
  | refused {b : Bool} {n : Nat} {panic : Panic} {trace : List HeightEvent} :
    Durable true n trace → Durable true n (⟨.commit, b, .panicked panic⟩ :: trace)
  | stopped {up b : Bool} {n : Nat} {call : HeightCall} {rest : FileProgram Panic UInt8 Int64}
    {trace : List HeightEvent} : (Outcome.stopped rest).torn = false →
    Durable false n trace → Durable up n (⟨call, b, .stopped rest⟩ :: trace)
  | advanced {b : Bool} {n : Nat} {rest : FileProgram Panic UInt8 Int64}
    {trace : List HeightEvent} : (Outcome.stopped rest).torn = false →
    Durable false (n + 1) trace → Durable true n (⟨.commit, b, .stopped rest⟩ :: trace)
  | torn {up b : Bool} {n : Nat} {call : HeightCall} {outcome : HeightOutcome}
    {trace : List HeightEvent} : outcome.torn = true →
    CrashLoop trace → Durable up n (⟨call, b, outcome⟩ :: trace)

namespace HeightFile

open FileProgram

theorem exec_readOrCreate_present (height : Int64) {fates : List Fate}
    (hread : fates.head? ≠ some .fails) :
    readOrCreateSteps.exec fates (some (encode height)) =
        (.returned height, some (encode height)) ∨
      ∃ rest, readOrCreateSteps.exec fates (some (encode height)) =
        (.stopped rest, some (encode height)) ∧ (Outcome.stopped rest).torn = false := by
  rcases exec_read _ fates (some (encode height)) with h | ⟨hfails, -⟩ | h
  · exact .inr ⟨_, h, rfl⟩
  · exact absurd hfails hread
  · rw [readOrCreateFrom_encode] at h
    rcases exec_done height fates.tail (some (encode height)) with hd | hd
    · exact .inl (h.trans hd)
    · exact .inr ⟨_, h.trans hd, rfl⟩

theorem exec_readOrCreate_empty {fates : List Fate} (hread : fates.head? ≠ some .fails) :
    (∃ panic, readOrCreateSteps.exec fates (some []) = (.panicked panic, some [])) ∨
      ∃ rest, readOrCreateSteps.exec fates (some []) = (.stopped rest, some []) ∧
        (Outcome.stopped rest).torn = false := by
  rcases exec_read _ fates (some []) with h | ⟨hfails, -⟩ | h
  · exact .inr ⟨_, h, rfl⟩
  · exact absurd hfails hread
  · rcases exec_panic _ fates.tail (some []) with hp | hp
    · exact .inl ⟨_, h.trans hp⟩
    · exact .inr ⟨_, h.trans hp, rfl⟩

-- `fs::write` of `height` over `file`, and then the end of the call
theorem exec_write_done (height : Int64) (fates : List Fate) (file : Option Bytes) :
    (∃ rest, (fsWrite (encode height) (done height)).exec fates file =
        ((.stopped rest, file) : HeightOutcome × Option Bytes) ∧
        (Outcome.stopped rest).torn = false) ∨
      (∃ outcome : HeightOutcome, (fsWrite (encode height) (done height)).exec fates file =
        (outcome, some []) ∧ outcome.torn = true) ∨
      (fsWrite (encode height) (done height)).exec fates file =
        ((.returned height, some (encode height)) : HeightOutcome × Option Bytes) ∨
      ∃ rest, (fsWrite (encode height) (done height)).exec fates file =
        ((.stopped rest, some (encode height)) : HeightOutcome × Option Bytes) ∧
        (Outcome.stopped rest).torn = false := by
  rcases exec_fsWrite (encode height) (done height) fates file with h | h | h
  · exact .inl ⟨_, h, rfl⟩
  · exact .inr (.inl ⟨_, h, rfl⟩)
  · rcases exec_done height fates.tail.tail (some (encode height)) with hd | hd
    · exact .inr (.inr (.inl (h.trans hd)))
    · exact .inr (.inr (.inr ⟨_, h.trans hd, rfl⟩))

theorem exec_readOrCreate_missing (fates : List Fate) :
    (∃ rest, readOrCreateSteps.exec fates none = (.stopped rest, none) ∧
        (Outcome.stopped rest).torn = false) ∨
      (∃ outcome, readOrCreateSteps.exec fates none = (outcome, some []) ∧
        outcome.torn = true) ∨
      readOrCreateSteps.exec fates none = (.returned 0, some (encode 0)) ∨
      ∃ rest, readOrCreateSteps.exec fates none = (.stopped rest, some (encode 0)) ∧
        (Outcome.stopped rest).torn = false := by
  have hread : (∃ rest, readOrCreateSteps.exec fates none = (.stopped rest, none) ∧
      (Outcome.stopped rest).torn = false) ∨ readOrCreateSteps.exec fates none =
        (fsWrite (encode 0) (done 0)).exec fates.tail none := by
    rcases exec_read _ fates none with h | ⟨-, h⟩ | h
    · exact .inl ⟨_, h, rfl⟩
    · exact .inr h
    · exact .inr h
  rcases hread with hstopped | h
  · exact .inl hstopped
  · rw [h]
    exact exec_write_done 0 fates.tail none

theorem exec_increment_present (height : Int64) (fates : List Fate) :
    (∃ panic, incrementSteps.exec fates (some (encode height)) =
        (.panicked panic, some (encode height))) ∨
      (∃ rest, incrementSteps.exec fates (some (encode height)) =
        (.stopped rest, some (encode height)) ∧ (Outcome.stopped rest).torn = false) ∨
      (∃ outcome, incrementSteps.exec fates (some (encode height)) = (outcome, some []) ∧
        outcome.torn = true) ∨
      incrementSteps.exec fates (some (encode height)) =
        (.returned (height + 1), some (encode (height + 1))) ∨
      ∃ rest, incrementSteps.exec fates (some (encode height)) =
        (.stopped rest, some (encode (height + 1))) ∧ (Outcome.stopped rest).torn = false := by
  rcases exec_read _ fates (some (encode height)) with h | ⟨-, h⟩ | h
  · exact .inr (.inl ⟨_, h, rfl⟩)
  · rcases exec_panic _ fates.tail (some (encode height)) with hp | hp
    · exact .inl ⟨_, h.trans hp⟩
    · exact .inr (.inl ⟨_, h.trans hp, rfl⟩)
  · rw [incrementFrom_encode] at h
    refine .inr ?_
    rw [incrementSteps, h]
    exact exec_write_done (height + 1) fates.tail (some (encode height))

end HeightFile

open HeightFile

def ReadsGoThrough (trace : List HeightEvent) : Prop :=
  ∀ event ∈ trace, event.unreadable = true → event.call = .commit

theorem run_cons {node : HeightNode} {call : HeightCall} {fates : List Fate}
    {calls : List (HeightCall × List Fate)} {trace : List HeightEvent}
    (h : node.run ((call, fates) :: calls) = some trace) : ∃ trace',
      (call = .new ∨ node.up = true) ∧
      HeightNode.run ⟨(call.program.exec fates node.file).2,
        call.leavesUp (call.program.exec fates node.file).1⟩ calls = some trace' ∧
      trace = ⟨call, fates.head? = some .fails && node.file.isSome,
        (call.program.exec fates node.file).1⟩ :: trace' := by
  rw [HeightNode.run] at h
  split at h
  · rename_i hup
    obtain ⟨trace', htrace, heq⟩ := Option.map_eq_some_iff.mp h
    exact ⟨trace', hup, htrace, heq.symm⟩
  · cases h

theorem leavesUp_of_torn (call : HeightCall) {outcome : HeightOutcome}
    (h : outcome.torn = true) : call.leavesUp outcome = false := by
  cases outcome with
  | stopped rest => rfl
  | returned height => cases h
  | panicked panic => cases h

theorem head_goes {call : HeightCall} {fates : List Fate} {bytes : Bytes} (hc : call ≠ .commit)
    {outcome : HeightOutcome} {trace : List HeightEvent}
    (hreads : ReadsGoThrough
      (⟨call, fates.head? = some .fails && (some bytes).isSome, outcome⟩ :: trace)) :
    fates.head? ≠ some .fails := by
  intro hfails
  exact hc (hreads _ List.mem_cons_self (by simp [hfails]))

theorem run_crashLoop {calls : List (HeightCall × List Fate)} {trace : List HeightEvent}
    (hrun : HeightNode.run ⟨some [], false⟩ calls = some trace) (hreads : ReadsGoThrough trace) :
    CrashLoop trace := by
  induction calls generalizing trace with
  | nil =>
    cases hrun
    exact fun event hevent => absurd hevent List.not_mem_nil
  | cons step calls ih =>
    obtain ⟨call, fates⟩ := step
    obtain ⟨trace', hup, hrest, rfl⟩ := run_cons hrun
    obtain rfl : call = .new := hup.resolve_right Bool.false_ne_true
    have hreads' : ReadsGoThrough trace' := fun event hevent =>
      hreads event (List.mem_cons_of_mem _ hevent)
    rw [CrashLoop, List.forall_mem_cons]
    rcases exec_readOrCreate_empty (head_goes (by decide) hreads) with
      ⟨panic, hexec⟩ | ⟨rest, hexec, htorn⟩ <;>
    · rw [HeightCall.program, hexec] at hrest ⊢
      exact ⟨⟨rfl, by first | rfl | exact htorn, by simp⟩, ih hrest hreads'⟩

def HeightNode.Holds (n : Nat) (node : HeightNode) : Prop :=
  node.file = some (encode (Int64.ofNat n)) ∨ n = 0 ∧ node.file = none ∧ node.up = false

theorem run_durable {calls : List (HeightCall × List Fate)} {trace : List HeightEvent} {n : Nat}
    {node : HeightNode} (hn : node.Holds n) (hrun : node.run calls = some trace)
    (hreads : ReadsGoThrough trace) : Durable node.up n trace := by
  induction calls generalizing trace n node with
  | nil =>
    cases hrun
    exact .nil
  | cons step calls ih =>
    obtain ⟨call, fates⟩ := step
    obtain ⟨trace', hup, hrest, rfl⟩ := run_cons hrun
    have hreads' : ReadsGoThrough trace' := fun event hevent =>
      hreads event (List.mem_cons_of_mem _ hevent)
    obtain ⟨file, up⟩ := node
    rcases hn with hfile | ⟨rfl, hfile, hdown⟩
    · cases hfile
      cases call with
      | commit =>
        obtain rfl : up = true := hup.resolve_left (by decide)
        have hsucc : Int64.ofNat n + 1 = Int64.ofNat (n + 1) := (Int64.ofNat_add n 1).symm
        rcases exec_increment_present (Int64.ofNat n) fates with
          ⟨panic, hexec⟩ | ⟨rest, hexec, htorn⟩ | ⟨outcome, hexec, htorn⟩ | hexec |
          ⟨rest, hexec, htorn⟩ <;>
        rw [HeightCall.program, hexec] at hrest ⊢
        · exact .refused (ih (.inl rfl) hrest hreads')
        · exact .stopped htorn (ih (.inl rfl) hrest hreads')
        · rw [leavesUp_of_torn .commit htorn] at hrest
          exact .torn htorn (run_crashLoop hrest hreads')
        · rw [hsucc] at hrest ⊢
          exact .committed (ih (.inl rfl) hrest hreads')
        · rw [hsucc] at hrest
          exact .advanced htorn (ih (.inl rfl) hrest hreads')
      | new =>
        rcases exec_readOrCreate_present (Int64.ofNat n) (head_goes (by decide) hreads) with
          hexec | ⟨rest, hexec, htorn⟩ <;>
        rw [HeightCall.program, hexec] at hrest ⊢
        · exact .started (ih (.inl rfl) hrest hreads')
        · exact .stopped htorn (ih (.inl rfl) hrest hreads')
      | info =>
        obtain rfl : up = true := hup.resolve_left (by decide)
        rcases exec_readOrCreate_present (Int64.ofNat n) (head_goes (by decide) hreads) with
          hexec | ⟨rest, hexec, htorn⟩ <;>
        rw [HeightCall.program, hexec] at hrest ⊢
        · exact .reported (ih (.inl rfl) hrest hreads')
        · exact .stopped htorn (ih (.inl rfl) hrest hreads')
    · cases hfile
      cases hdown
      obtain rfl : call = .new := hup.resolve_right Bool.false_ne_true
      rcases exec_readOrCreate_missing fates with
        ⟨rest, hexec, htorn⟩ | ⟨outcome, hexec, htorn⟩ | hexec | ⟨rest, hexec, htorn⟩ <;>
      rw [HeightCall.program, hexec] at hrest ⊢
      · exact .stopped htorn (ih (.inr ⟨rfl, rfl, rfl⟩) hrest hreads')
      · rw [leavesUp_of_torn .new htorn] at hrest
        exact .torn htorn (run_crashLoop hrest hreads')
      · exact .started (n := 0) (ih (.inl rfl) hrest hreads')
      · exact .stopped htorn (ih (.inl rfl) hrest hreads')

def commits (trace : List HeightEvent) : Nat := (trace.map HeightEvent.call).count .commit

theorem commits_cons (event : HeightEvent) (trace : List HeightEvent) :
    commits (event :: trace) = commits trace + event.call.counted := by
  obtain ⟨call, b, outcome⟩ := event
  cases call <;> simp [commits, HeightCall.counted]

theorem commits_append (trace trace' : List HeightEvent) :
    commits (trace ++ trace') = commits trace + commits trace' := by
  rw [commits, List.map_append, List.count_append]
  rfl

namespace Durable

variable {up : Bool} {n : Nat} {event : HeightEvent} {before trace : List HeightEvent}

theorem told {h : Int64} (hd : Durable up n (event :: trace)) (hh : event.outcome = .returned h) :
    h = Int64.ofNat (n + event.call.counted) ∧ Durable true (n + event.call.counted) trace := by
  cases hd with
  | started hd => cases hh; exact ⟨rfl, hd⟩
  | reported hd => cases hh; exact ⟨rfl, hd⟩
  | committed hd => cases hh; exact ⟨rfl, hd⟩
  | refused hd => cases hh
  | stopped htorn hd => cases hh
  | advanced htorn hd => cases hh
  | torn htorn hd =>
    cases hh
    cases htorn

theorem crashLoop (hd : Durable up n (event :: trace)) (htorn : event.outcome.torn = true) :
    CrashLoop trace := by
  cases hd with
  | started hd => cases htorn
  | reported hd => cases htorn
  | committed hd => cases htorn
  | refused hd => cases htorn
  | stopped hsound hd => exact absurd htorn (by simp [hsound])
  | advanced hsound hd => exact absurd htorn (by simp [hsound])
  | torn htorn hd => exact hd

theorem suffix (hd : Durable up n (before ++ trace)) :
    (∃ up' m, n ≤ m ∧ m ≤ n + commits before ∧ Durable up' m trace) ∨
      (∃ event ∈ before, event.outcome.torn = true) ∧ CrashLoop trace := by
  induction before generalizing up n with
  | nil => exact .inl ⟨up, n, le_rfl, Nat.le_add_right .., hd⟩
  | cons event before ih =>
    have hstep (up' : Bool) (m : Nat) (hn : n ≤ m) (hm : m ≤ n + event.call.counted)
        (hrest : Durable up' m (before ++ trace)) :
        (∃ up' m, n ≤ m ∧ m ≤ n + commits (event :: before) ∧ Durable up' m trace) ∨
          (∃ e ∈ event :: before, e.outcome.torn = true) ∧ CrashLoop trace := by
      rcases ih hrest with ⟨up'', k, hmk, hk, hd'⟩ | ⟨⟨e, he, htorn⟩, hloop⟩
      · refine .inl ⟨up'', k, by omega, ?_, hd'⟩
        rw [commits_cons]
        omega
      · exact .inr ⟨⟨e, List.mem_cons_of_mem _ he, htorn⟩, hloop⟩
    cases hd with
    | started hd => exact hstep _ n le_rfl (Nat.le_add_right ..) hd
    | reported hd => exact hstep _ n le_rfl (Nat.le_add_right ..) hd
    | committed hd => exact hstep _ (n + 1) (Nat.le_succ n) le_rfl hd
    | refused hd => exact hstep _ n le_rfl (Nat.le_add_right ..) hd
    | stopped _ hd => exact hstep _ n le_rfl (Nat.le_add_right ..) hd
    | advanced _ hd => exact hstep _ (n + 1) (Nat.le_succ n) le_rfl hd
    | torn htorn hloop =>
      refine .inr ⟨⟨_, List.mem_cons_self, htorn⟩, fun e he => ?_⟩
      exact hloop e (List.mem_append_right before he)

theorem comesUp {between after : List HeightEvent} {h : Int64}
    (hd : Durable up n (between ++ event :: after))
    (hbetween : ∀ e ∈ between, ∀ k, e.outcome ≠ .returned k) (hnew : event.call = .new)
    (hh : event.outcome = .returned h) :
    h = Int64.ofNat n ∨ up = true ∧ h = Int64.ofNat n + 1 ∧
      ∃ e ∈ between, e.call = .commit ∧ ∃ rest, e.outcome = .stopped rest := by
  induction between generalizing up n with
  | nil =>
    have htold := (hd.told hh).1
    rw [hnew] at htold
    exact .inl htold
  | cons e between ih =>
    rw [List.forall_mem_cons] at hbetween
    have hskip {up' : Bool} (hup : up' = true → up = true)
        (hrest : Durable up' n (between ++ event :: after)) :
        h = Int64.ofNat n ∨ up = true ∧ h = Int64.ofNat n + 1 ∧
          ∃ e' ∈ e :: between, e'.call = .commit ∧ ∃ rest, e'.outcome = .stopped rest := by
      rcases ih hrest hbetween.2 with heq | ⟨hup', heq, e', he', hc⟩
      · exact .inl heq
      · exact .inr ⟨hup hup', heq, e', List.mem_cons_of_mem _ he', hc⟩
    cases hd with
    | started hd => exact absurd rfl (hbetween.1 _)
    | reported hd => exact absurd rfl (hbetween.1 _)
    | committed hd => exact absurd rfl (hbetween.1 _)
    | refused hd => exact hskip (fun _ => rfl) hd
    | stopped _ hd => exact hskip (fun hf => absurd hf Bool.false_ne_true) hd
    | advanced _ hd =>
      -- the process is down, so no second commit comes before `new`
      rcases ih hd hbetween.2 with heq | ⟨hf, -⟩
      · refine .inr ⟨rfl, ?_, _, List.mem_cons_self, rfl, _, rfl⟩
        rw [heq]
        exact Int64.ofNat_add n 1
      · exact absurd hf Bool.false_ne_true
    | torn _ hloop =>
      have hmem : event ∈ between ++ event :: after :=
        List.mem_append_right between List.mem_cons_self
      exact absurd hh ((hloop event hmem).2.2 h)

theorem neverDecreases (hd : Durable up n trace) (hn : n + commits trace < 2 ^ 63) :
    (trace.filterMap HeightEvent.reported).Pairwise (fun h h' => h.toInt ≤ h'.toInt) ∧
      ∀ h ∈ trace.filterMap HeightEvent.reported, (n : Int) ≤ h.toInt := by
  induction hd with
  | nil => exact ⟨.nil, by simp⟩
  | started _ ih => exact ih hn
  | @reported b n trace _ ih =>
    obtain ⟨hsorted, hle⟩ := ih hn
    have hhead : (Int64.ofNat n).toInt = n := Int64.toInt_ofNat_of_lt (by omega)
    have hcons : List.filterMap HeightEvent.reported
        (⟨.info, b, .returned (Int64.ofNat n)⟩ :: trace) =
          Int64.ofNat n :: trace.filterMap HeightEvent.reported := rfl
    rw [hcons, List.pairwise_cons, List.forall_mem_cons, hhead]
    exact ⟨⟨hle, hsorted⟩, le_rfl, hle⟩
  | @committed b n trace _ ih =>
    rw [commits_cons] at hn
    have hcounted : n + 1 + commits trace < 2 ^ 63 := by
      rw [HeightCall.counted] at hn
      omega
    exact ⟨(ih hcounted).1, fun h hh => le_trans (by omega) ((ih hcounted).2 h hh)⟩
  | @refused b n panic trace _ ih =>
    rw [commits_cons] at hn
    exact ih (by omega)
  | @stopped up b n call rest trace _ _ ih =>
    rw [commits_cons] at hn
    have hskip : List.filterMap HeightEvent.reported (⟨call, b, .stopped rest⟩ :: trace) =
        trace.filterMap HeightEvent.reported := by cases call <;> rfl
    rw [hskip]
    exact ih (by omega)
  | @advanced b n rest trace _ _ ih =>
    rw [commits_cons] at hn
    have hcounted : n + 1 + commits trace < 2 ^ 63 := by
      rw [HeightCall.counted] at hn
      omega
    exact ⟨(ih hcounted).1, fun h hh => le_trans (by omega) ((ih hcounted).2 h hh)⟩
  | @torn up b n call outcome trace htorn hloop =>
    have hnone : List.filterMap HeightEvent.reported (⟨call, b, outcome⟩ :: trace) = [] := by
      rw [List.filterMap_eq_nil_iff, List.forall_mem_cons]
      constructor
      · cases outcome with
        | stopped rest => cases call <;> rfl
        | returned height => cases htorn
        | panicked panic => cases htorn
      · intro event hevent
        rw [HeightEvent.reported, (hloop event hevent).1]
    rw [hnone]
    exact ⟨.nil, by simp⟩

theorem survives (hd : Durable false 0 trace) (hn : commits trace < 2 ^ 63) :
    HeightsSurvive trace where
  neverDecreases := (hd.neverDecreases (by omega)).1
  comesUp before between after last event h h' heq hlast hbetween hnew hh := by
    rw [heq] at hd
    rcases hd.suffix with ⟨up', m, -, -, hd'⟩ | ⟨-, hloop⟩
    · obtain ⟨rfl, hrest⟩ := hd'.told hlast
      rcases hrest.comesUp hbetween hnew hh with hsame | ⟨-, hsucc, hstopped⟩
      · exact .inl hsame
      · exact .inr ⟨hsucc, hstopped⟩
    · exact absurd hlast ((hloop last List.mem_cons_self).2.2 h)
  neverZero before between after committed event h h' heq hcommit hreturned hnew hh := by
    rw [heq] at hd
    rcases hd.suffix with ⟨up', m, -, hm, hd'⟩ | ⟨-, hloop⟩
    · have hrest := (hd'.told hreturned).2
      rw [hcommit, HeightCall.counted] at hrest
      rcases hrest.suffix with ⟨up'', k, hmk, hk, hd''⟩ | ⟨-, hloop⟩
      · have hval := (hd''.told hh).1
        rw [hnew] at hval
        change h' = Int64.ofNat k at hval
        rw [heq, commits_append, commits_cons, commits_append, hcommit, HeightCall.counted] at hn
        rw [hval, Int64.toInt_ofNat_of_lt (by omega)]
        omega
      · have hmem : event ∈ event :: after := List.mem_cons_self
        exact absurd hh ((hloop event hmem).2.2 h')
    · exact absurd hreturned ((hloop committed List.mem_cons_self).2.2 h)

end Durable

theorem heights_survive_stops {calls : List (HeightCall × List Fate)} {trace : List HeightEvent}
    (hrun : HeightNode.run ⟨none, false⟩ calls = some trace) (hn : commits trace < 2 ^ 63)
    (hreads : ReadsGoThrough trace) :
    HeightsSurvive trace ∧
      ((∀ event ∈ trace, event.outcome.torn = false) → NewNeverPanics trace) ∧
      ∀ (before after : List HeightEvent) (event : HeightEvent),
        trace = before ++ event :: after → event.outcome.torn = true → CrashLoop after := by
  have hd := run_durable (.inr ⟨rfl, rfl, rfl⟩) hrun hreads
  refine ⟨hd.survives hn, ?_, ?_⟩
  · intro hsound event hevent hnew panic hpanic
    obtain ⟨before, after, rfl⟩ := List.append_of_mem hevent
    rcases hd.suffix with ⟨up', m, -, -, hd'⟩ | ⟨⟨e, he, htorn⟩, -⟩
    · cases hd' with
      | refused _ => cases hnew
      | started _ => cases hpanic
      | reported _ => cases hpanic
      | committed _ => cases hpanic
      | stopped _ _ => cases hpanic
      | advanced _ _ => cases hpanic
      | torn htorn _ =>
        cases hpanic
        cases htorn
    · exact absurd htorn (by simp [hsound e (List.mem_append_left _ he)])
  · rintro before after event rfl htorn
    rcases hd.suffix with ⟨up', m, -, -, hd'⟩ | ⟨-, hloop⟩
    · exact hd'.crashLoop htorn
    · exact absurd htorn (by simp [(hloop event List.mem_cons_self).2.1])

def interruptedCalls : List (HeightCall × List Fate) :=
  [(.new, []), (.commit, [.goes, .goes, .goes, .stops]), (.new, []), (.commit, [.fails]),
    (.info, [])]

def interruptedTrace : List HeightEvent :=
  [⟨.new, false, .returned 0⟩, ⟨.commit, false, .stopped (.done 1)⟩, ⟨.new, false, .returned 1⟩,
    ⟨.commit, true, .panicked .unwrap⟩, ⟨.info, false, .returned 1⟩]

theorem heights_survive_stops_interrupted :
    HeightNode.run ⟨none, false⟩ interruptedCalls = some interruptedTrace ∧
      HeightsSurvive interruptedTrace ∧
      ((∀ event ∈ interruptedTrace, event.outcome.torn = false) →
        NewNeverPanics interruptedTrace) ∧
      ∀ (before after : List HeightEvent) (event : HeightEvent),
        interruptedTrace = before ++ event :: after → event.outcome.torn = true →
          CrashLoop after := by
  have hrun : HeightNode.run ⟨none, false⟩ interruptedCalls = some interruptedTrace := rfl
  refine ⟨hrun, heights_survive_stops hrun (by decide) ?_⟩
  simp [ReadsGoThrough, interruptedTrace]

def faultyCalls : List (HeightCall × List Fate) :=
  [(.new, []), (.commit, []), (.info, []), (.new, [.fails]), (.info, []),
    (.commit, [.goes, .goes, .stops]), (.new, [])]

def faultyTrace : List HeightEvent :=
  [⟨.new, false, .returned 0⟩, ⟨.commit, false, .returned 1⟩, ⟨.info, false, .returned 1⟩,
    ⟨.new, true, .returned 0⟩, ⟨.info, false, .returned 0⟩,
    ⟨.commit, false, .stopped (.write (HeightFile.encode 1) (.done 1))⟩,
    ⟨.new, false, .panicked (.expect "Contents of height file are not readable")⟩]

theorem heights_lost :
    HeightNode.run ⟨none, false⟩ faultyCalls = some faultyTrace ∧
      ¬ HeightsSurvive faultyTrace ∧ ¬ NewNeverPanics faultyTrace := by
  refine ⟨rfl, ?_, ?_⟩
  · intro h
    have hsorted : List.Pairwise (fun h h' : Int64 => h.toInt ≤ h'.toInt) [1, 0] :=
      h.neverDecreases
    exact absurd (List.rel_of_pairwise_cons hsorted List.mem_cons_self) (by decide)
  · intro h
    exact h ⟨.new, false, .panicked (.expect "Contents of height file are not readable")⟩
      (by simp [faultyTrace]) rfl _ rfl

end Sequencer
