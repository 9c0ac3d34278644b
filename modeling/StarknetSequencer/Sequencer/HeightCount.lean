import StarknetSequencer.Sequencer.Restart

namespace Sequencer

open Wire Effect StarknetApp

variable {C S I : Type} (L : Starknet C S I)

inductive HeightCall where
  | new
  | info
  | commit
deriving DecidableEq

inductive HeightAnswer where
  | new
  | info (response : ResponseInfo)
  | commit (response : ResponseCommit)

def HeightCall.run : HeightCall → Hook S HeightAnswer
  | .new => do restart L; return .new
  | .info => .info <$> StarknetApp.info
  | .commit => .commit <$> StarknetApp.commit L

structure StarknetApp.Counts (n : Nat) (app : StarknetApp S) : Prop where
  hasher : app.hasher.poisoned = false
  heightFile : app.heightFile = some (HeightFile.encode (Int64.ofNat n))

theorem HeightFile.encode_ofNat {n : Nat} (h : n < 2 ^ 63) :
    HeightFile.encode (Int64.ofNat n) = toBytes 8 n := by
  have hbits : (Int64.ofNat n).toBitVec.toNat = n := Nat.mod_eq_of_lt (by omega)
  exact congrArg (toBytes 8) hbits

theorem StarknetApp.Counts.atHeight {n : Nat} {app : StarknetApp S} (h : app.Counts n) :
    app.AtHeight (Int64.ofNat n) := ⟨_, h.heightFile, HeightFile.decode_encode _⟩

def HeightCall.counted : HeightCall → Nat
  | .commit => 1
  | _ => 0

def HeightAnswer.Reports (n : Nat) : HeightAnswer → Prop
  | .info response => response.lastBlockHeight = Int64.ofNat n
  | _ => True

variable {L}

theorem HeightCall.run_counts (call : HeightCall) {n : Nat} {app : StarknetApp S}
    (h : app.Counts n) : ∃ answer app', (call.run L).run app = .ok answer app' ∧
      app'.Counts (n + call.counted) ∧ answer.Reports n := by
  cases call with
  | new =>
    refine ⟨.new, restarted L (Int64.ofNat n), ?_, ⟨rfl, rfl⟩, trivial⟩
    rw [HeightCall.run, EStateM.run_bind, run_restart h.heightFile]
    rfl
  | info =>
    have hrun : (HeightCall.run L .info).run app =
        .ok (.info ⟨"cairo-app", "0.1.0", 1, Int64.ofNat n, []⟩) app := by
      rw [HeightCall.run, run_map, run_info h.atHeight]
    exact ⟨_, app, hrun, h, rfl⟩
  | commit =>
    have hrun : (HeightCall.run L .commit).run app =
        .ok (.commit ⟨L.sha256 app.hasher.data, 0⟩)
          { app with heightFile := some (HeightFile.encode (Int64.ofNat n + 1)) } := by
      rw [HeightCall.run, run_map, run_commit h.hasher h.atHeight]
    refine ⟨_, _, hrun, ⟨h.hasher, ?_⟩, trivial⟩
    exact congrArg (fun height => some (HeightFile.encode height)) (Int64.ofNat_add n 1).symm

theorem run_calls_counts {calls : List HeightCall} {n : Nat} {app : StarknetApp S}
    (h : app.Counts n) : ∃ answers app',
      (calls.mapM (HeightCall.run L)).run app = .ok answers app' ∧
      app'.Counts (n + calls.count .commit) ∧
      ∀ (i : Nat) (answer : HeightAnswer), answers[i]? = some answer →
        answer.Reports (n + (calls.take i).count .commit) := by
  induction calls generalizing n app with
  | nil => exact ⟨[], app, run_mapM_nil, h, by simp⟩
  | cons call calls ih =>
    have hcount (cs : List HeightCall) :
        n + (call :: cs).count .commit = n + call.counted + cs.count .commit := by
      cases call with
      | commit =>
        rw [List.count_cons_self, HeightCall.counted]
        omega
      | new => rfl
      | info => rfl
    obtain ⟨answer, app₁, hfirst, h₁, hanswer⟩ := call.run_counts (L := L) h
    obtain ⟨answers, app', hrest, h', hanswers⟩ := ih h₁
    refine ⟨answer :: answers, app', run_mapM_cons.mpr ⟨_, _, _, hfirst, hrest, rfl⟩, ?_, ?_⟩
    · rw [hcount]
      exact h'
    · intro i a ha
      cases i with
      | zero =>
        cases ha
        exact hanswer
      | succ i =>
        rw [List.take_succ_cons, hcount]
        exact hanswers i a ha

variable (L)

theorem height_counts_commits : ∃ app, StarknetApp.new L none = .ok app ∧
    ∀ calls : List HeightCall, calls.count .commit < 2 ^ 63 → ∃ answers app',
      (calls.mapM (HeightCall.run L)).run app = .ok answers app' ∧
      app'.heightFile = some (toBytes 8 (calls.count .commit)) ∧
      ∀ (i : Nat) (response : ResponseInfo), answers[i]? = some (.info response) →
        response.lastBlockHeight.toInt = (calls.take i).count .commit := by
  refine ⟨fresh L, new_missing, fun calls hcalls => ?_⟩
  have hfresh : (fresh L).Counts 0 := ⟨rfl, rfl⟩
  obtain ⟨answers, app', hrun, h', hanswers⟩ := @run_calls_counts C S I L calls 0 (fresh L) hfresh
  rw [Nat.zero_add] at h'
  refine ⟨answers, app', hrun, ?_, ?_⟩
  · rw [h'.heightFile, HeightFile.encode_ofNat hcalls]
  · intro i response hresponse
    have hreport : response.lastBlockHeight = Int64.ofNat (0 + (calls.take i).count .commit) :=
      hanswers i _ hresponse
    have hle : (calls.take i).count .commit ≤ calls.count .commit :=
      (List.take_sublist i calls).count_le _
    rw [hreport, Nat.zero_add, Int64.toInt_ofNat_of_lt (by omega)]

theorem height_counts_commits_reference : ∃ app,
    StarknetApp.new Reference.starknet none = .ok app ∧ ∃ answers app',
      ([.commit, .new, .commit, .info].mapM (HeightCall.run Reference.starknet)).run app =
        .ok answers app' ∧
      app'.heightFile = some [2, 0, 0, 0, 0, 0, 0, 0] ∧
      ∀ (i : Nat) (response : ResponseInfo), answers[i]? = some (.info response) →
        response.lastBlockHeight.toInt = (([.commit, .new, .commit, .info] : List HeightCall).take i).count .commit := by
  obtain ⟨app, hnew, h⟩ := height_counts_commits Reference.starknet
  exact ⟨app, hnew, h [.commit, .new, .commit, .info] (by decide)⟩

end Sequencer
