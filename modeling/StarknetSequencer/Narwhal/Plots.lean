import StarknetSequencer.Effect.Except
import StarknetSequencer.Narwhal.Ploter

namespace Narwhal.Benchmark.Ploter

open Wire Binary64 LogAggregator Summary

abbrev Series := Setup × List (Int × Result)

-- the series that the plotter finds under the names it asks for
def wanted (runs : List LogAggregator) (name : String) (setups : List Setup) : List Series :=
  setups.filterMap fun setup => (latest runs name setup).map (Prod.mk setup)

theorem mem_wanted {runs : List LogAggregator} {name : String} {setups : List Setup}
    {series : Series} : series ∈ wanted runs name setups ↔
      series.1 ∈ setups ∧ latest runs name series.1 = some series.2 := by
  obtain ⟨setup, values⟩ := series
  simp only [wanted, List.mem_filterMap, Option.map_eq_some_iff, Prod.mk.injEq]
  constructor
  · rintro ⟨_, hsetup, _, hlatest, rfl, rfl⟩
    exact ⟨hsetup, hlatest⟩
  · rintro ⟨hsetup, hlatest⟩
    exact ⟨setup, hsetup, values, hlatest, rfl, rfl⟩

theorem load_wanted (runs : List LogAggregator) {name : String} (h : Kind name)
    (setups : List Setup) : load (plots runs) ((wanted runs name setups).map fun series => file name series.1) =
      if wanted runs name setups = [] then .error (.plotError "No data to plot")
      else .ok ((wanted runs name setups).map fun series => text series.1 series.2) := by
  have hread : ((wanted runs name setups).map fun series => file name series.1).mapM
      (read (plots runs)) =
        .ok ((wanted runs name setups).map fun series => text series.1 series.2) := by
    rw [List.mapM_map]
    refine Effect.mapM_ok fun series hseries => ?_
    obtain ⟨-, hlatest⟩ := mem_wanted.mp hseries
    have hget := get?_plots runs h series.1
    rw [hlatest, Option.map_some] at hget
    rw [Function.comp_apply, read, hget]
    exact congrArg Except.ok (Summary.filter_eq_self (comma_not_mem _ _))
  rw [load]
  by_cases hnil : wanted runs name setups = []
  · rw [hnil, if_pos rfl]
    rfl
  · rw [if_neg hnil, if_neg (mt List.map_eq_nil_iff.mp hnil)]
    exact hread

def plain (text : List Char) : Bool := text.all fun c => !isDecimal c

-- whatever was printed before, under names of its own a series is read back as it was printed last
theorem printed_series_read_back (runs : List LogAggregator) {name : String} {setup : Setup}
    {values : List (Int × Result)} (h : latest runs name setup = some values) :
    (∃ data, (plots runs).get? (file name setup) = some data ∧
      load (plots runs) [file name setup] = .ok [data] ∧
      variableOf data = values.map (fun v => v.1.toNat) ∧
      tps data = values.map (fun v => (v.2.meanTps.toNat, v.2.stdTps.toNat)) ∧
      latency data =
        values.map fun v => (float v.2.meanLatency.toNat, float v.2.stdLatency.toNat)) ∧
      (∀ value ∈ values, 0 ≤ value.1 ∧ value.2.Counted) ∧
      ∀ name' setup' values', latest runs name' setup' = some values' →
        file name' setup' = file name setup → name' = name ∧ setup' = setup := by
  obtain ⟨hnamed, hdrawable⟩ := latest_drawable h
  have hget := get?_plots runs hnamed.name setup
  rw [h, Option.map_some] at hget
  refine ⟨⟨text setup values, hget, ?_, variableOf_text setup hdrawable,
    tps_text setup hdrawable, latency_text setup hdrawable⟩, hdrawable.counted, ?_⟩
  · have hload := load_wanted runs hnamed.name [setup]
    simp only [wanted, List.filterMap_cons, h, Option.map_some, List.filterMap_nil, List.map_cons,
      List.map_nil, if_neg (List.cons_ne_nil _ _)] at hload
    exact hload
  · intro name' setup' values' h' heq
    exact (latest_drawable h').1.file_inj hnamed.name heq

-- two committees, measured under one rate
def committees : LogAggregator where
  records := .ofList [(⟨0, 10, 1, true, 50000, 512⟩, ⟨46000, 900, 120, 14⟩),
    (⟨0, 4, 1, true, 50000, 512⟩, ⟨48000, 700, 80, 9⟩)]
  maxLatencies := [2500]
  counted := by decide

def growing : PlotParameters where
  faults := ⟨0, []⟩
  nodes := ⟨10, [4]⟩
  workers := ⟨1, []⟩
  collocate := true
  txSize := 512
  maxLatency := ⟨2500, [4500]⟩
  single := .inr rfl

theorem printed_series_read_back_committees : ∃ data,
    (plots [committees]).get? (file "latency" (growing.latencySetup 0 10)) = some data ∧
      variableOf data = [46000] := by
  have hlatest : latest [committees] "latency" (growing.latencySetup 0 10) =
      some [(46000, ⟨46000, 900, 120, 14⟩)] := by decide +kernel
  obtain ⟨⟨data, hget, -, hvariable, -⟩, -⟩ := printed_series_read_back [committees] hlatest
  exact ⟨data, hget, hvariable⟩

end Narwhal.Benchmark.Ploter
