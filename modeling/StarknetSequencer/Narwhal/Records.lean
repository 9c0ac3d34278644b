import Mathlib.Algebra.Order.BigOperators.Group.List
import StarknetSequencer.Binary64
import StarknetSequencer.Effect.Except
import StarknetSequencer.Narwhal.Series

namespace Narwhal.Benchmark

open Binary64 Effect

def Field.value : Field → Int
  | .number n => n
  | _ => 0

def Setup.figures (setup : Setup) : SetupFigures where
  faults := setup.faults.value
  nodes := setup.nodes.value
  workers := setup.workers.value
  collocate := setup.collocate
  rate := setup.rate.value
  txSize := setup.txSize.value

-- `round(mean(xs))`: the mean of integers is an integer where it can be
def roundMean (xs : List Int) : Except ArithmeticError Int :=
  if (xs.length : Int) ∣ xs.sum then .ok (xs.sum / xs.length)
  else (Double.ofUnits (xs.sum * one) xs.length).round

-- `round(stdev(xs))`: the sample variance is rounded, and its root again
def roundStdev (xs : List Int) : Except ArithmeticError Int := do
  let deviations := xs.length * (xs.map (· ^ 2)).sum - xs.sum ^ 2
  let variance ←
    (Double.ofUnits (deviations * one) (xs.length * (xs.length - 1))).toFinite
  (Double.sqrt variance.toNat).round

theorem roundMean_nonneg {xs : List Int} {n : Int} (hxs : ∀ x ∈ xs, 0 ≤ x)
    (h : roundMean xs = .ok n) : 0 ≤ n := by
  have hsum : 0 ≤ xs.sum := List.sum_nonneg hxs
  rw [roundMean] at h
  split at h
  · cases h
    exact Int.ediv_nonneg hsum (Int.natCast_nonneg _)
  · exact Double.round_ofUnits_nonneg (Int.mul_nonneg hsum (Int.natCast_nonneg _)) h

theorem roundStdev_nonneg {xs : List Int} {n : Int} (h : roundStdev xs = .ok n) : 0 ≤ n := by
  obtain ⟨variance, -, hround⟩ := bind_ok_iff.mp h
  exact Double.round_sqrt_nonneg hround

-- no setup is without a result
def Result.aggregate : List Result → Except ArithmeticError Result
  | [result] => .ok result
  | results => do
    let meanTps ← roundMean (results.map Result.meanTps)
    let meanLatency ← roundMean (results.map Result.meanLatency)
    let stdTps ← roundStdev (results.map Result.meanTps)
    let stdLatency ← roundStdev (results.map Result.meanLatency)
    return ⟨meanTps, meanLatency, stdTps, stdLatency⟩

theorem Result.aggregate_counted {results : List Result} {result : Result}
    (h : ∀ r ∈ results, r.Counted) (hresult : Result.aggregate results = .ok result) :
    result.Counted := by
  have htps : ∀ n ∈ results.map Result.meanTps, 0 ≤ n :=
    List.forall_mem_map.mpr fun r hr => (h r hr).1
  have hlatency : ∀ n ∈ results.map Result.meanLatency, 0 ≤ n :=
    List.forall_mem_map.mpr fun r hr => (h r hr).2.1
  have hmany (hresult : (do
      let meanTps ← roundMean (results.map Result.meanTps)
      let meanLatency ← roundMean (results.map Result.meanLatency)
      let stdTps ← roundStdev (results.map Result.meanTps)
      let stdLatency ← roundStdev (results.map Result.meanLatency)
      return Result.mk meanTps meanLatency stdTps stdLatency) = Except.ok result) :
      result.Counted := by
    simp only [bind_ok_iff] at hresult
    obtain ⟨meanTps, hmeanTps, meanLatency, hmeanLatency, stdTps, hstdTps, stdLatency,
      hstdLatency, ⟨⟩⟩ := hresult
    exact ⟨roundMean_nonneg htps hmeanTps, roundMean_nonneg hlatency hmeanLatency,
      roundStdev_nonneg hstdTps, roundStdev_nonneg hstdLatency⟩
  rcases results with _ | ⟨r, _ | ⟨r', results⟩⟩
  · exact hmany hresult
  · cases hresult
    exact h _ List.mem_cons_self
  · exact hmany hresult

namespace LogAggregator

theorem readChunk_counted {chunk : List Char} {setup : Setup} {result : Result}
    (h : readChunk chunk = some (setup, result)) : setup.figures.Counted ∧ result.Counted := by
  simp only [readChunk, Setup.fromStr, Result.fromStr, Option.bind_eq_bind,
    Option.bind_eq_some_iff] at h
  obtain ⟨_, ⟨faults, -, nodes, -, workers, -, collocate, -, rate, -, txSize, -, ⟨⟩⟩, _,
    ⟨tps, -, latency, -, ⟨⟩⟩, ⟨⟩⟩ := h
  exact ⟨⟨Int.natCast_nonneg _, Int.natCast_nonneg _, Int.natCast_nonneg _, Int.natCast_nonneg _,
    Int.natCast_nonneg _⟩, Int.natCast_nonneg _, Int.natCast_nonneg _, le_refl 0, le_refl 0⟩

theorem readRecords_counted {files : List (List Char)} {records : Dict Setup (List Result)}
    (h : readRecords files = some records) {setup : Setup} {results : List Result}
    (hmem : (setup, results) ∈ records.items) :
    setup.figures.Counted ∧ ∀ result ∈ results, result.Counted := by
  obtain ⟨entries, hentries, rfl⟩ := readRecords_eq_some.mp h
  have hcounted {entry : Setup × Result} (hentry : entry ∈ entries) :
      entry.1.figures.Counted ∧ entry.2.Counted := by
    have hread : some entry ∈ (chunks files).map readChunk := hentries ▸ List.mem_map_of_mem hentry
    obtain ⟨chunk, -, hchunk⟩ := List.mem_map.mp hread
    exact readChunk_counted hchunk
  have hget := (Dict.get?_eq_some _).mpr hmem
  constructor
  · have hkey := (Dict.mem_keys _).mpr ⟨results, hget⟩
    rw [grouped, Dict.mem_keys_group] at hkey
    rcases hkey with hkey | ⟨entry, hentry, rfl⟩
    · exact absurd hkey List.not_mem_nil
    · exact (hcounted hentry).1
  · have hresults := getD_grouped entries setup
    rw [hget, Option.getD_some] at hresults
    intro result hresult
    rw [hresults] at hresult
    obtain ⟨entry, hentry, rfl⟩ := List.mem_map.mp hresult
    exact (hcounted (List.mem_of_mem_filter hentry)).2

-- what the constructor raises: `search` found nothing, or a figure is too large for a double
inductive Failure where
  | attributeError
  | arithmetic (e : ArithmeticError)
deriving DecidableEq

def aggregateAll (records : Dict Setup (List Result)) :
    Except ArithmeticError (Dict SetupFigures Result) := do
  let items ← records.items.mapM fun record => do
    let result ← Result.aggregate record.2
    return (record.1.figures, result)
  return .ofList items

def recordsOf (results : List (List Char)) : Except Failure (Dict SetupFigures Result) :=
  match readRecords results with
  | none => .error .attributeError
  | some records => (aggregateAll records).mapError .arithmetic

theorem recordsOf_counted {results : List (List Char)} {records : Dict SetupFigures Result}
    (h : recordsOf results = .ok records) :
    ∀ record ∈ records.items, record.1.Counted ∧ record.2.Counted := by
  rw [recordsOf] at h
  split at h
  · cases h
  rename_i read hread
  obtain ⟨items, hitems, ⟨⟩⟩ := bind_ok_iff.mp (mapError_ok h)
  rintro ⟨figures, result⟩ hrecord
  have hmem := Dict.mem_of_get?_ofList ((Dict.get?_eq_some _).mpr hrecord)
  obtain ⟨⟨setup, results⟩, hread', hresult⟩ := (mem_mapM_ok hitems).mp hmem
  obtain ⟨result, haggregate, ⟨⟩⟩ := bind_ok_iff.mp hresult
  obtain ⟨hfigures, hresults⟩ := readRecords_counted hread hread'
  exact ⟨hfigures, Result.aggregate_counted hresults haggregate⟩

-- the constructor; `results` are the texts of the result files
def new (maxLatencies : List Int) (results : List (List Char)) : Except Failure LogAggregator :=
  match h : recordsOf results with
  | .ok records => .ok ⟨records, maxLatencies, recordsOf_counted h⟩
  | .error failure => .error failure

theorem recordsOf_of_new {maxLatencies : List Int} {results : List (List Char)}
    {aggregator : LogAggregator} (h : new maxLatencies results = .ok aggregator) :
    recordsOf results = .ok aggregator.records ∧ aggregator.maxLatencies = maxLatencies := by
  rw [new] at h
  split at h
  · rename_i records hrecords
    cases h
    exact ⟨hrecords, rfl⟩
  · cases h

theorem figures_inj {s s' : Summary} (hs : s.Readable) (hs' : s'.Readable)
    (h : s.setup.figures = s'.setup.figures) : s.setup = s'.setup := by
  obtain ⟨⟨f, hf⟩, ⟨n, hn⟩, ⟨w, hw⟩, -, -⟩ := hs
  obtain ⟨⟨f', hf'⟩, ⟨n', hn'⟩, ⟨w', hw'⟩, -, -⟩ := hs'
  rw [Summary.setup_eq_iff]
  simpa [Summary.setup, Setup.figures, Field.value, hf, hn, hw, hf', hn', hw'] using h

-- the record of a setup is the aggregate of the summaries with its figures
theorem summaries_aggregated {files : List (List Summary)}
    (h : ∀ file ∈ files, ∀ s ∈ file, s.Readable) {maxLatencies : List Int}
    {aggregator : LogAggregator}
    (hnew : new maxLatencies (files.map fun file => file.flatMap Summary.str) = .ok aggregator)
    {s : Summary} (hs : s ∈ files.flatten) :
    ∃ result, Result.aggregate
        ((files.flatten.filter fun s' => s'.setup = s.setup).map Summary.result) = .ok result ∧
      aggregator.records.get? s.setup.figures = some result := by
  have hrecords := (recordsOf_of_new hnew).1
  rw [recordsOf, readRecords_summaries h] at hrecords
  obtain ⟨items, hitems, hofList⟩ := bind_ok_iff.mp (mapError_ok hrecords)
  obtain ⟨results, hget⟩ := (Dict.mem_keys _).mp (mem_keys_summaries.mpr ⟨s, hs, rfl⟩)
  have hread := (Dict.get?_eq_some _).mp hget
  have hresults := getD_summaries files.flatten s.setup
  rw [hget, Option.getD_some] at hresults
  obtain ⟨item, hitem⟩ := exists_mapM_ok.mp ⟨items, hitems⟩ _ hread
  obtain ⟨result, haggregate, ⟨⟩⟩ := bind_ok_iff.mp hitem
  have hmem := (mem_mapM_ok hitems).mpr ⟨_, hread, hitem⟩
  refine ⟨result, hresults ▸ haggregate, ?_⟩
  -- no other setup has these figures
  obtain ⟨result', hfound⟩ :=
    (Dict.mem_keys _).mp (Dict.mem_keys_ofList.mpr (List.mem_map_of_mem hmem))
  obtain ⟨⟨setup', results'⟩, hread', hitem'⟩ :=
    (mem_mapM_ok hitems).mp (Dict.mem_of_get?_ofList hfound)
  obtain ⟨_, haggregate', hsame⟩ := bind_ok_iff.mp hitem'
  have hget' := (Dict.get?_eq_some _).mpr hread'
  obtain ⟨s', hs', rfl⟩ := mem_keys_summaries.mp ((Dict.mem_keys _).mpr ⟨_, hget'⟩)
  have hreadable := Summary.mem_flatten_readable h
  obtain ⟨hfigures, rfl⟩ := Prod.mk.inj (Except.ok.inj hsame)
  rw [figures_inj (hreadable s' hs') (hreadable s hs) hfigures, hget] at hget'
  cases hget'
  cases haggregate.symm.trans haggregate'
  rw [← Except.ok.inj hofList]
  exact hfound

end LogAggregator

end Narwhal.Benchmark
