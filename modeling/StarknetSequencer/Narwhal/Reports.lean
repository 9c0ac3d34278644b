import StarknetSequencer.Effect.Except
import StarknetSequencer.Narwhal.LogParser

namespace Narwhal.Benchmark

open Wire Binary64 Effect

namespace LogParser

variable {p : LogParser}

theorem calculating_ok_iff {α : Type} {x : Except ArithmeticError α} {a : α} :
    calculating x = .ok a ↔ x = .ok a := by
  cases x <;> simp [calculating]

theorem commitLatency_ok_iff (commit : Digest × Timestamp) :
    (∃ latency, p.commitLatency commit = .ok latency) ↔ commit.1 ∈ p.proposals.keys := by
  rw [commitLatency, Dict.mem_keys]
  cases p.proposals.get? commit.1 <;> simp

theorem consensusLatency_ok_iff : (∃ latency, p.consensusLatency = .ok latency) ↔
    ∀ digest ∈ p.commits.keys, digest ∈ p.proposals.keys := by
  have hmean : (∃ latency, p.consensusLatency = .ok latency) ↔
      ∃ latency, p.commits.items.mapM p.commitLatency = .ok latency := by
    rw [consensusLatency, exists_bind_ok]
    exact exists_congr fun latency => and_iff_left ⟨_, rfl⟩
  rw [hmean, exists_mapM_ok]
  simp only [commitLatency_ok_iff, Dict.keys, List.mem_map, forall_exists_index, and_imp,
    forall_apply_eq_imp_iff₂]

theorem sampleLatency_ok_iff (sample : Dict Nat Timestamp × (Nat × Digest)) :
    (∃ latency, p.sampleLatency sample = .ok latency) ↔
      (sample.2.2 ∈ p.commits.keys → sample.2.1 ∈ sample.1.keys) := by
  rw [sampleLatency, Dict.mem_keys, Dict.mem_keys]
  cases p.commits.get? sample.2.2 with
  | none => simp
  | some finish => cases sample.1.get? sample.2.1 <;> simp

theorem endToEndLatency_ok_iff : (∃ latency, p.endToEndLatency = .ok latency) ↔
    ∀ sample ∈ p.samples, sample.2.2 ∈ p.commits.keys → sample.2.1 ∈ sample.1.keys := by
  have hmean : (∃ latency, p.endToEndLatency = .ok latency) ↔
      ∃ latency, p.samples.mapM p.sampleLatency = .ok latency := by
    rw [endToEndLatency, exists_bind_ok]
    exact exists_congr fun latency => and_iff_left ⟨_, rfl⟩
  rw [hmean, exists_mapM_ok]
  simp only [sampleLatency_ok_iff]

-- the last commit comes at another time than the earliest start, and not too soon after it
def Timed (p : LogParser) (starts : List Timestamp) : Prop :=
  ∃ start ∈ starts.min?, ∃ finish ∈ p.commits.values.max?, start ≠ finish ∧
    InRange ((rounded (p.sizes.values.sum * one) 1).natAbs * one) (since finish start).val.natAbs

structure Weighed (p : LogParser) : Prop where
  size_ne : p.size.first ≠ 0
  size_range : InRange (p.size.first * one) 1
  bytes_range : InRange (p.sizes.values.sum * one) 1

theorem since_ne_zero_iff (finish start : Timestamp) :
    (since finish start).val ≠ 0 ↔ start ≠ finish := by
  have hval : (since finish start).val = rounded (finish.val - start.val) 1 :=
    Double.get_ofUnits _
  rw [hval, Ne, rounded_eq_zero_iff, sub_eq_zero, ← Subtype.ext_iff, eq_comm]

theorem throughput_ok_iff (hne : p.commits.items ≠ []) {starts : List Timestamp}
    {tps bps : Double} {duration : Int} :
    p.throughput starts = .ok (tps, bps, duration) ↔
      ∃ start ∈ starts.min?, ∃ finish ∈ p.commits.values.max?, (since finish start).val = duration ∧
        ∃ bytes, ofNat p.sizes.values.sum = .ok bytes ∧
          (Double.finite bytes).div duration = .ok bps ∧
          ∃ size, ofNat p.size.first = .ok size ∧ bps.div size = .ok tps := by
  rw [throughput, if_neg hne]
  cases hstart : starts.min? with
  | none => simp [throw, throwThe, MonadExceptOf.throw]
  | some start =>
    cases hfinish : p.commits.values.max? with
    | none => simp [throw, throwThe, MonadExceptOf.throw]
    | some finish =>
      simp only [bind_ok_iff, calculating_ok_iff, Option.mem_some_iff, pure, Except.pure, Except.ok.injEq, Prod.mk.injEq]
      constructor
      · rintro ⟨bytes, hbytes, bps', hbps, size, hsize, tps', htps, rfl, rfl, rfl⟩
        exact ⟨start, rfl, finish, rfl, rfl, bytes, hbytes, hbps, size, hsize, htps⟩
      · rintro ⟨_, rfl, _, rfl, rfl, bytes, hbytes, hbps, size, hsize, htps⟩
        exact ⟨bytes, hbytes, bps, hbps, size, hsize, tps, htps, rfl, rfl, rfl⟩

theorem rounded_nat_ne_zero_iff (n : Nat) : rounded (n * one) 1 ≠ 0 ↔ n ≠ 0 := by
  have hone : (one : Int) ≠ 0 := Int.natCast_ne_zero.mpr (Nat.ne_of_gt one_pos)
  rw [Ne, rounded_eq_zero_iff, mul_eq_zero, or_iff_left hone, Int.natCast_eq_zero]

theorem throughput_finite_iff (hne : p.commits.items ≠ []) (starts : List Timestamp) :
    (∃ tps bps duration, p.throughput starts = .ok (tps, bps, duration) ∧
      tps.IsFinite ∧ bps.IsFinite) ↔ p.Weighed ∧ p.Timed starts := by
  simp only [throughput_ok_iff hne, ofNat_ok_iff, Double.div_ok_iff]
  constructor
  · rintro ⟨tps, bps, duration, ⟨start, hstart, finish, hfinish, rfl, bytes, ⟨hbytes, rfl⟩,
      ⟨hduration, rfl⟩, size, ⟨hsize, rfl⟩, hzero, rfl⟩, -, hbps⟩
    refine ⟨⟨(rounded_nat_ne_zero_iff _).mp hzero, hsize, hbytes⟩, start, hstart, finish, hfinish,
      (since_ne_zero_iff finish start).mp hduration, ?_⟩
    exact (Double.quotient_finite_iff _ hduration).mp hbps
  · rintro ⟨⟨hzero, hsize, hbytes⟩, start, hstart, finish, hfinish, hne, hrange⟩
    have hduration := (since_ne_zero_iff finish start).mpr hne
    have hbps := (Double.quotient_finite_iff _ hduration).mpr hrange
    refine ⟨_, _, _, ⟨start, hstart, finish, hfinish, rfl, _, ⟨hbytes, rfl⟩, ⟨hduration, rfl⟩,
      _, ⟨hsize, rfl⟩, (rounded_nat_ne_zero_iff _).mpr hzero, rfl⟩, ?_, hbps⟩
    exact (Double.quotient_quotient_finite_iff _ (one_le_rounded hzero)).mpr hbps

theorem calculating_round_ok_iff (x : Double) :
    (∃ n, calculating x.round = .ok n) ↔ x.IsFinite := by
  simp only [calculating_ok_iff, Double.round_ok_iff]

theorem summary_ok_iff : (∃ summary, p.summary = .ok summary) ↔
    (∃ latency, p.consensusLatency = .ok latency) ∧
      (∃ tps bps duration, p.consensusThroughput = .ok (tps, bps, duration) ∧
        tps.IsFinite ∧ bps.IsFinite) ∧
      (∃ tps bps duration, p.endToEndThroughput = .ok (tps, bps, duration) ∧
        tps.IsFinite ∧ bps.IsFinite) ∧
      ∃ latency, p.endToEndLatency = .ok latency := by
  simp only [summary, exists_bind_ok, Prod.exists]
  constructor
  · rintro ⟨latency, hlatency, tps, bps, d, hconsensus, tps', bps', d', hend, latency', hlatency',
      -, -, n, hn, m, hm, -, -, n', hn', m', hm', -⟩
    have hfinite {x : Double} {k : Int} (h : calculating x.round = .ok k) : x.IsFinite :=
      (calculating_round_ok_iff x).mp ⟨k, h⟩
    exact ⟨⟨latency, hlatency⟩, ⟨tps, bps, d, hconsensus, hfinite hn, hfinite hm⟩,
      ⟨tps', bps', d', hend, hfinite hn', hfinite hm'⟩, latency', hlatency'⟩
  · rintro ⟨⟨latency, hlatency⟩, ⟨tps, bps, d, hconsensus, htps, hbps⟩,
      ⟨tps', bps', d', hend, htps', hbps'⟩, latency', hlatency'⟩
    obtain ⟨n, hn⟩ := (calculating_round_ok_iff tps).mpr htps
    obtain ⟨m, hm⟩ := (calculating_round_ok_iff bps).mpr hbps
    obtain ⟨n', hn'⟩ := (calculating_round_ok_iff tps').mpr htps'
    obtain ⟨m', hm'⟩ := (calculating_round_ok_iff bps').mpr hbps'
    exact ⟨latency, hlatency, tps, bps, d, hconsensus, tps', bps', d', hend, latency', hlatency',
      _, rfl, n, hn, m, hm, _, rfl, n', hn', m', hm', _, rfl, _, rfl⟩

theorem result_ok_iff_summary :
    (∃ text, p.result = .ok text) ↔ ∃ summary, p.summary = .ok summary := by
  rw [result]
  cases p.summary <;> simp [Except.map]

-- the merged figures hold what `result` needs
structure Sufficient (p : LogParser) : Prop where
  proposed : ∀ digest ∈ p.commits.keys, digest ∈ p.proposals.keys
  weighed : p.Weighed
  sinceProposals : p.Timed p.proposals.values
  sinceStart : p.Timed p.start.toList
  sent : ∀ sample ∈ p.samples, sample.2.2 ∈ p.commits.keys → sample.2.1 ∈ sample.1.keys

theorem result_ok_iff :
    (∃ text, p.result = .ok text) ↔ p.commits.keys = [] ∨ p.Sufficient := by
  rw [result_ok_iff_summary, summary_ok_iff, consensusLatency_ok_iff, endToEndLatency_ok_iff]
  have hkeys : p.commits.keys = [] ↔ p.commits.items = [] := List.map_eq_nil_iff
  by_cases hne : p.commits.items = []
  · have hnone (digest : Digest) : digest ∉ p.commits.keys := by
      rw [hkeys.mpr hne]
      exact List.not_mem_nil
    have hzero (starts : List Timestamp) :
        p.throughput starts = .ok (.finite 0, .finite 0, 0) := if_pos hne
    refine iff_of_true ⟨fun digest h => absurd h (hnone digest), ?_, ?_, ?_⟩ (.inl (hkeys.mpr hne))
    · exact ⟨_, _, _, hzero _, ⟨0, rfl⟩, ⟨0, rfl⟩⟩
    · exact ⟨_, _, _, hzero _, ⟨0, rfl⟩, ⟨0, rfl⟩⟩
    · exact fun sample _ h => absurd h (hnone _)
  · rw [hkeys, or_iff_right hne, consensusThroughput, endToEndThroughput,
      throughput_finite_iff hne, throughput_finite_iff hne]
    constructor
    · rintro ⟨hproposed, ⟨hweighed, hproposals⟩, ⟨-, hstart⟩, hsent⟩
      exact ⟨hproposed, hweighed, hproposals, hstart, hsent⟩
    · rintro ⟨hproposed, hweighed, hproposals, hstart, hsent⟩
      exact ⟨hproposed, ⟨hweighed, hproposals⟩, ⟨hweighed, hstart⟩, hsent⟩

end LogParser

end Narwhal.Benchmark
