import StarknetSequencer.Narwhal.ReadBack
import StarknetSequencer.Narwhal.Throughput

namespace Narwhal.Benchmark

open Wire

-- a figure that is no negative number
def Field.Undashed (field : Field) : Prop := '-' ∉ field.str

theorem Field.undashed_any : Field.any.Undashed := by simp [Undashed, str]

theorem Field.undashed_x : Field.x.Undashed := by simp [Undashed, str]

theorem Field.undashed_number {n : Int} : (Field.number n).Undashed ↔ 0 ≤ n := by
  constructor
  · intro h
    by_contra hneg
    obtain ⟨m, rfl⟩ := Int.eq_negSucc_of_lt_zero (Int.not_le.mp hneg)
    have hrepr : (Int.negSucc m).repr = "-" ++ (m + 1).repr := rfl
    apply h
    rw [Field.str, hrepr, String.toList_append]
    exact List.mem_cons_self
  · intro h
    obtain ⟨m, rfl⟩ := Int.eq_ofNat_of_zero_le h
    exact fun hdash => absurd (natRepr_digit hdash) (by decide)

theorem Field.str_ne_nil (field : Field) : field.str ≠ [] := by
  cases field with
  | number n => exact intRepr_ne_nil n
  | any => decide
  | x => decide
  | unknown => decide

-- a dash is the sign of a number
theorem Field.dash_head {field : Field} (h : '-' ∈ field.str) : field.str.head? = some '-' := by
  cases field with
  | number n =>
    cases n with
    | ofNat m => exact absurd (natRepr_digit h) (by decide)
    | negSucc m =>
      have hrepr : (Int.negSucc m).repr = "-" ++ (m + 1).repr := rfl
      rw [str, hrepr, String.toList_append]
      rfl
  | any => exact absurd h undashed_any
  | x => exact absurd h undashed_x
  | unknown => exact absurd h (by decide)

def PathMaker.plotsPath : List Char := "plots".toList

-- `join(PathMaker.plots_path(), name)`
def PathMaker.aggFile (type : String) (faults nodes workers : Field) (collocate : Bool)
    (rate txSize : Field) (maxLatency : Option Field) : List Char :=
  let bench := "-bench-".toList ++ (faults.str ++ ('-' :: nodes.str ++ ('-' :: workers.str ++
    ('-' :: boolStr collocate ++ ('-' :: rate.str ++ ('-' :: txSize.str ++ ".txt".toList))))))
  PathMaker.plotsPath ++ '/' :: (type.toList ++ match maxLatency with
    | none => bench
    | some maxLatency => '-' :: maxLatency.str ++ bench)

def Result.str (result : Result) : List Char :=
  " TPS: ".toList ++ (ungrouped result.meanTps ++ (" +/- ".toList ++
    (ungrouped result.stdTps ++ " tx/s\n".toList))) ++
  (" Latency: ".toList ++ (ungrouped result.meanLatency ++ (" +/- ".toList ++
    (ungrouped result.stdLatency ++ " ms\n".toList))))

-- the figures that the patterns of `from_str` can match
def SetupFigures.Counted (figures : SetupFigures) : Prop :=
  0 ≤ figures.faults ∧ 0 ≤ figures.nodes ∧ 0 ≤ figures.workers ∧ 0 ≤ figures.rate ∧
    0 ≤ figures.txSize

def Result.Counted (result : Result) : Prop :=
  0 ≤ result.meanTps ∧ 0 ≤ result.meanLatency ∧ 0 ≤ result.stdTps ∧ 0 ≤ result.stdLatency

instance (figures : SetupFigures) : Decidable figures.Counted :=
  inferInstanceAs (Decidable (_ ∧ _))

instance (result : Result) : Decidable result.Counted := inferInstanceAs (Decidable (_ ∧ _))

structure LogAggregator where
  records : Dict SetupFigures Result
  maxLatencies : List Int
  counted : ∀ record ∈ records.items, record.1.Counted ∧ record.2.Counted

namespace LogAggregator

def point (value : Int × Result) : List Char :=
  ' ' :: ("Variable value: X=".toList ++ (ungrouped value.1 ++ '\n' :: value.2.str))

def text (setup : Setup) (values : List (Int × Result)) : List Char :=
  let data := ['\n'].intercalate (values.map point)
  '\n' :: Summary.rule ++ (" RESULTS:\n".toList ++ (Summary.rule ++ (setup.str ++
    '\n' :: (data ++ Summary.rule))))

def printLatency (records : Dict SetupFigures Result) :
    String × Dict Setup (List (Int × Result)) :=
  let organized : Dict Setup (List (Int × Result × Int)) :=
    records.items.foldl (fun organized record =>
      organized.update [] { record.1.setup with rate := .any }
        (· ++ [(record.2.meanTps, record.2, record.1.rate)])) .empty
  ("latency", organized.mapValues fun results =>
    (results.mergeSort fun x y => x.2.2 ≤ y.2.2).map fun x => (x.1, x.2.1))

def file (name : String) (setup : Setup) : List Char :=
  PathMaker.aggFile name setup.faults setup.nodes setup.workers setup.collocate setup.rate
    setup.txSize (if setup.maxLatency = .any then none else some setup.maxLatency)

variable (aggregator : LogAggregator)

def results : List (String × Dict Setup (List (Int × Result))) :=
  [printLatency aggregator.records,
    printTps aggregator.records aggregator.maxLatencies false,
    printTps aggregator.records aggregator.maxLatencies true]

def print (files : Dict (List Char) (List Char)) : Dict (List Char) (List Char) :=
  aggregator.results.foldl (fun files result =>
    result.2.items.foldl (fun files series =>
      files.set (file result.1 series.1) (text series.1 series.2)) files) files

def latencySetup (figures : SetupFigures) : Setup := { figures.setup with rate := .any }

theorem latencySetup_inj {figures figures' : SetupFigures}
    (h : latencySetup figures = latencySetup figures') (hrate : figures.rate = figures'.rate) :
    figures = figures' := by
  obtain ⟨faults, nodes, workers, collocate, rate, txSize⟩ := figures
  obtain ⟨faults', nodes', workers', collocate', rate', txSize'⟩ := figures'
  simp only [latencySetup, SetupFigures.setup, Setup.mk.injEq, Field.number.injEq, true_and,
    and_true] at h
  obtain ⟨rfl, rfl, rfl, rfl, rfl⟩ := h
  cases hrate
  rfl

theorem pairwise_mergeSort {α : Type} {r : α → α → Prop} [DecidableRel r]
    (htrans : ∀ {x y z}, r x y → r y z → r x z) (htotal : ∀ x y, r x y ∨ r y x) (xs : List α) :
    (xs.mergeSort fun x y => r x y).Pairwise r := by
  have hbool := @List.pairwise_mergeSort α (fun x y => r x y)
    (fun _ _ _ hxy hyz => decide_eq_true (htrans (of_decide_eq_true hxy) (of_decide_eq_true hyz)))
    (fun x y => by
      rw [Bool.or_eq_true, decide_eq_true_iff, decide_eq_true_iff]
      exact htotal x y) xs
  exact hbool.imp of_decide_eq_true

-- the records of one latency series, as it is printed
def latencyRecords (records : Dict SetupFigures Result) (setup : Setup) :
    List (SetupFigures × Result) :=
  (records.items.filter fun record => latencySetup record.1 = setup).mergeSort
    fun x y => x.1.rate ≤ y.1.rate

theorem mem_latencyRecords {records : Dict SetupFigures Result} {setup : Setup}
    {record : SetupFigures × Result} : record ∈ latencyRecords records setup ↔
      records.get? record.1 = some record.2 ∧ latencySetup record.1 = setup := by
  rw [latencyRecords, List.mem_mergeSort, List.mem_filter, decide_eq_true_iff, Dict.get?_eq_some]

theorem latencyRecords_sorted (records : Dict SetupFigures Result) (setup : Setup) :
    (latencyRecords records setup).Pairwise fun x y => x.1.rate < y.1.rate := by
  let kept := records.items.filter fun record => latencySetup record.1 = setup
  have hle := @pairwise_mergeSort _ (fun x y : SetupFigures × Result => x.1.rate ≤ y.1.rate) _
    (fun hxy hyz => hxy.trans hyz) (fun _ _ => le_total _ _) kept
  -- the records of one series differ in their rates alone
  have hne : (latencyRecords records setup).Pairwise fun x y => x.1 ≠ y.1 := by
    have hkept : (kept.map Prod.fst).Nodup := records.nodup.sublist (List.filter_sublist.map _)
    have hnodup := ((List.mergeSort_perm kept fun x y => x.1.rate ≤ y.1.rate).map
      Prod.fst).nodup_iff.mpr hkept
    exact List.pairwise_map.mp hnodup
  refine (hle.and hne).imp_of_mem fun {x y} hx hy h => lt_of_le_of_ne h.1 fun heq => h.2 ?_
  exact latencySetup_inj ((mem_latencyRecords.mp hx).2.trans (mem_latencyRecords.mp hy).2.symm) heq

theorem latencyRecords_eq_nil {records : Dict SetupFigures Result} {setup : Setup} :
    latencyRecords records setup = [] ↔
      (records.items.filter fun record => latencySetup record.1 = setup) = [] := by
  rw [← List.length_eq_zero_iff, latencyRecords, List.length_mergeSort, List.length_eq_zero_iff]

theorem get?_printLatency (records : Dict SetupFigures Result) (setup : Setup) :
    (printLatency records).2.get? setup =
      if latencyRecords records setup = [] then none
      else some ((latencyRecords records setup).map fun record => (record.2.meanTps, record.2)) := by
  let organized : Dict Setup (List (Int × Result × Int)) :=
    Dict.empty.group [] (fun record => latencySetup record.1)
      (fun results (record : SetupFigures × Result) =>
        results ++ [(record.2.meanTps, record.2, record.1.rate)]) records.items
  let kept := records.items.filter fun record => latencySetup record.1 = setup
  have hvalues : (organized.get? setup).getD [] =
      kept.map fun record => (record.2.meanTps, record.2, record.1.rate) := by
    rw [Dict.getD_group, List.foldl_append_eq_append, ← List.flatMap_def, ← List.map_eq_flatMap]
    rfl
  have hkeys : setup ∈ organized.keys ↔ latencyRecords records setup ≠ [] := by
    have hempty : setup ∉ (Dict.empty : Dict Setup (List (Int × Result × Int))).keys :=
      List.not_mem_nil
    rw [Dict.mem_keys_group, or_iff_right hempty, Ne, latencyRecords_eq_nil,
      List.filter_eq_nil_iff]
    simp only [decide_eq_true_eq, not_forall, not_not, exists_prop]
  have hmerge : (kept.map fun record => (record.2.meanTps, record.2, record.1.rate)).mergeSort
      (fun x y => x.2.2 ≤ y.2.2) = (latencyRecords records setup).map
        fun record => (record.2.meanTps, record.2, record.1.rate) := by
    refine (List.map_mergeSort ?_).symm
    exact fun _ _ _ _ => rfl
  have hget : (printLatency records).2.get? setup = (organized.get? setup).map fun results =>
      (results.mergeSort fun x y => x.2.2 ≤ y.2.2).map fun x => (x.1, x.2.1) :=
    Dict.get?_mapValues _ organized setup
  rw [hget]
  cases hfound : organized.get? setup with
  | none =>
    have hnot := mt hkeys.mpr (organized.get?_eq_none.mp hfound)
    rw [if_pos (not_not.mp hnot)]
    rfl
  | some results =>
    have hmem : setup ∈ organized.keys := organized.mem_keys.mpr ⟨results, hfound⟩
    rw [hfound, Option.getD_some] at hvalues
    rw [if_neg (hkeys.mp hmem), Option.map_some, hvalues, hmerge, List.map_map]
    rfl

theorem latencyRecords_congr {records records' : Dict SetupFigures Result}
    (h : records'.Same records) (setup : Setup) :
    latencyRecords records' setup = latencyRecords records setup := by
  have hnodup (rs : Dict SetupFigures Result) : (latencyRecords rs setup).Nodup :=
    (latencyRecords_sorted rs setup).imp fun hlt heq => absurd (congrArg (·.1.rate) heq) hlt.ne
  refine List.Perm.eq_of_pairwise (fun _ _ _ _ hxy hyx => absurd hyx hxy.asymm)
    (latencyRecords_sorted _ _) (latencyRecords_sorted _ _) ?_
  refine (List.perm_ext_iff_of_nodup (hnodup _) (hnodup _)).mpr fun record => ?_
  rw [mem_latencyRecords, mem_latencyRecords, h record.1]

theorem latency_series_sorted (records : Dict SetupFigures Result) (setup : Setup) :
    (∃ entries : List (SetupFigures × Result),
      entries.Pairwise (fun x y => x.1.rate < y.1.rate) ∧
      (∀ figures result, (figures, result) ∈ entries ↔
        records.get? figures = some result ∧ { figures.setup with rate := .any } = setup) ∧
      (printLatency records).2.get? setup = if entries = [] then none
        else some (entries.map fun entry => (entry.2.meanTps, entry.2))) ∧
      ∀ records' : Dict SetupFigures Result, records'.Same records →
        (printLatency records').2.get? setup = (printLatency records).2.get? setup := by
  refine ⟨⟨latencyRecords records setup, latencyRecords_sorted records setup,
    fun figures result => mem_latencyRecords, get?_printLatency records setup⟩, ?_⟩
  intro records' hsame
  rw [get?_printLatency, get?_printLatency, latencyRecords_congr hsame]

-- the parts of a file's name between its dashes
def segments (name : String) (setup : Setup) : List (List Char) :=
  name.toList :: ((if setup.maxLatency = .any then [] else [setup.maxLatency.str]) ++
    ["bench".toList, setup.faults.str, setup.nodes.str, setup.workers.str,
      boolStr setup.collocate, setup.rate.str, setup.txSize.str ++ ".txt".toList])

theorem file_eq (name : String) (setup : Setup) :
    file name setup = "plots/".toList ++ ['-'].intercalate (segments name setup) := by
  rw [file, segments]
  split
  · simp [PathMaker.aggFile, PathMaker.plotsPath]
  · simp [PathMaker.aggFile, PathMaker.plotsPath]

theorem forall_mem_segments {P : List Char → Prop} {name : String} {setup : Setup} :
    (∀ segment ∈ segments name setup, P segment) ↔
      P name.toList ∧ (setup.maxLatency ≠ .any → P setup.maxLatency.str) ∧ P "bench".toList ∧
        P setup.faults.str ∧ P setup.nodes.str ∧ P setup.workers.str ∧
        P (boolStr setup.collocate) ∧ P setup.rate.str ∧ P (setup.txSize.str ++ ".txt".toList) := by
  have hbound : (∀ segment ∈ if setup.maxLatency = .any then [] else [setup.maxLatency.str],
      P segment) ↔ (setup.maxLatency ≠ .any → P setup.maxLatency.str) := by
    by_cases hany : setup.maxLatency = .any
    · simp [hany]
    · simp [hany]
  simp only [segments, List.forall_mem_cons, List.forall_mem_append, hbound, List.not_mem_nil,
    IsEmpty.forall_iff, implies_true, and_true]

-- the two kinds of series
def Kind (name : String) : Prop := name = "latency" ∨ name = "tps"

theorem dash_head_segments {name : String} (h : Kind name) (setup : Setup) :
    ∀ segment ∈ segments name setup, segment ≠ [] ∧ ('-' ∈ segment → segment.head? = some '-') := by
  have hfield (field : Field) : field.str ≠ [] ∧ ('-' ∈ field.str → field.str.head? = some '-') :=
    ⟨field.str_ne_nil, Field.dash_head⟩
  have hname : name.toList ≠ [] ∧ ('-' ∈ name.toList → name.toList.head? = some '-') := by
    rcases h with rfl | rfl <;> decide
  have hbool : boolStr setup.collocate ≠ [] ∧
      ('-' ∈ boolStr setup.collocate → (boolStr setup.collocate).head? = some '-') := by
    cases setup.collocate <;> decide
  refine forall_mem_segments.mpr ⟨hname, fun _ => hfield _, by decide, hfield _, hfield _, hfield _,
    hbool, hfield _, List.append_ne_nil_of_left_ne_nil (Field.str_ne_nil _) _, fun hmem => ?_⟩
  rw [List.head?_append_of_ne_nil _ (Field.str_ne_nil _)]
  rcases List.mem_append.mp hmem with hmem | hmem
  · exact Field.dash_head hmem
  · exact absurd hmem (by decide)

-- the names that `print` gives its files
structure Named (name : String) (setup : Setup) : Prop where
  name : Kind name
  faults : setup.faults.Undashed
  nodes : setup.nodes.Undashed
  workers : setup.workers.Undashed
  rate : setup.rate.Undashed
  txSize : setup.txSize.Undashed
  maxLatency : setup.maxLatency.Undashed

theorem Named.segments {name : String} {setup : Setup} (h : Named name setup) :
    ∀ segment ∈ segments name setup, segment ≠ [] ∧ '-' ∉ segment := by
  have hname : '-' ∉ name.toList := by
    rcases h.name with rfl | rfl <;> decide
  have hbool : '-' ∉ boolStr setup.collocate := by
    cases setup.collocate <;> decide
  have htxSize : '-' ∉ setup.txSize.str ++ ".txt".toList := by
    intro hmem
    rcases List.mem_append.mp hmem with hmem | hmem
    · exact h.txSize hmem
    · exact absurd hmem (by decide)
  have hdash : ∀ segment ∈ LogAggregator.segments name setup, '-' ∉ segment :=
    forall_mem_segments.mpr ⟨hname, fun _ => h.maxLatency, by decide, h.faults, h.nodes, h.workers,
      hbool, h.rate, htxSize⟩
  exact fun segment hmem => ⟨(dash_head_segments h.name setup segment hmem).1, hdash segment hmem⟩

-- whatever the other setup, negative figures included
theorem Named.file_inj {name name' : String} {setup setup' : Setup} (h : Named name setup)
    (h' : Kind name') (heq : file name setup = file name' setup') :
    name = name' ∧ setup = setup' := by
  rw [file_eq, file_eq] at heq
  have hsegments := intercalate_inj h.segments (dash_head_segments h' setup')
    (List.append_cancel_left heq)
  obtain ⟨nodes, workers, collocate, rate, txSize, faults, maxLatency⟩ := setup
  obtain ⟨nodes', workers', collocate', rate', txSize', faults', maxLatency'⟩ := setup'
  rw [LogAggregator.segments, LogAggregator.segments, List.cons.injEq] at hsegments
  obtain ⟨hname, hrest⟩ := hsegments
  -- a name with a bound has one part more
  have hlatency : maxLatency = maxLatency' ∧
      ["bench".toList, faults.str, nodes.str, workers.str, boolStr collocate, rate.str,
        txSize.str ++ ".txt".toList] =
      ["bench".toList, faults'.str, nodes'.str, workers'.str, boolStr collocate', rate'.str,
        txSize'.str ++ ".txt".toList] := by
    by_cases hany : maxLatency = .any <;> by_cases hany' : maxLatency' = .any <;>
      simp only [hany, hany', if_true, if_false, List.nil_append, List.singleton_append] at hrest
    · exact ⟨hany.trans hany'.symm, hrest⟩
    · exact absurd (congrArg List.length hrest) (by simp)
    · exact absurd (congrArg List.length hrest) (by simp)
    · obtain ⟨hbound, hbench⟩ := List.cons.inj hrest
      exact ⟨Field.str_inj hbound, hbench⟩
  obtain ⟨rfl, hbench⟩ := hlatency
  simp only [List.cons.injEq, true_and, and_true] at hbench
  obtain ⟨hfaults, hnodes, hworkers, hcollocate, hrate, htxSize⟩ := hbench
  have hbool : collocate = collocate' := by
    revert hcollocate
    cases collocate <;> cases collocate' <;> decide
  refine ⟨String.toList_inj.mp hname, ?_⟩
  rw [Field.str_inj hfaults, Field.str_inj hnodes, Field.str_inj hworkers, hbool,
    Field.str_inj hrate, Field.str_inj (List.append_cancel_right htxSize)]

theorem keys_printTps_apart {records : Dict SetupFigures Result} {maxLatencies : List Int}
    {setup : Setup} (h : setup ∈ (printTps records maxLatencies false).2.keys) :
    setup ∉ (printTps records maxLatencies true).2.keys := by
  intro h'
  obtain ⟨_, _, _, _, figures, -, -, rfl, -⟩ := mem_keys_printTps.mp h
  obtain ⟨_, _, _, _, figures', -, -, heq, -⟩ := mem_keys_printTps.mp h'
  exact absurd (congrArg Setup.nodes heq) Field.noConfusion

def named (result : String × Dict Setup (List (Int × Result))) :
    List ((String × Setup) × List (Int × Result)) :=
  result.2.items.map fun series => ((result.1, series.1), series.2)

theorem keys_named (result : String × Dict Setup (List (Int × Result))) :
    (named result).map Prod.fst = result.2.keys.map (Prod.mk result.1) := by
  rw [named, Dict.keys, List.map_map, List.map_map]
  rfl

theorem nodup_named (result : String × Dict Setup (List (Int × Result))) :
    ((named result).map Prod.fst).Nodup := by
  rw [keys_named]
  exact List.Nodup.map (Prod.mk_right_injective result.1) result.2.nodup

-- all series of one call of `print`, under their names
def printed : Dict (String × Setup) (List (Int × Result)) where
  items := aggregator.results.flatMap named
  nodup := by
    have hlatency : ∀ key ∈ (named (printLatency aggregator.records)).map Prod.fst,
        ∀ scalability, ∀ key' ∈ (named (printTps aggregator.records aggregator.maxLatencies
          scalability)).map Prod.fst, key ≠ key' := by
      rintro key hkey scalability _ hkey' rfl
      rw [keys_named] at hkey hkey'
      obtain ⟨_, -, rfl⟩ := List.mem_map.mp hkey
      obtain ⟨_, -, heq⟩ := List.mem_map.mp hkey'
      have hname : "tps" = "latency" := congrArg Prod.fst heq
      exact absurd hname (by decide)
    have htps : ∀ key ∈ (named (printTps aggregator.records aggregator.maxLatencies
        false)).map Prod.fst, ∀ key' ∈ (named (printTps aggregator.records
          aggregator.maxLatencies true)).map Prod.fst, key ≠ key' := by
      rintro key hkey _ hkey' rfl
      rw [keys_named] at hkey hkey'
      obtain ⟨setup, hsetup, rfl⟩ := List.mem_map.mp hkey
      obtain ⟨setup', hsetup', heq⟩ := List.mem_map.mp hkey'
      have hsame : setup' = setup := congrArg Prod.snd heq
      exact keys_printTps_apart hsetup (hsame ▸ hsetup')
    simp only [results, List.flatMap_cons, List.flatMap_nil, List.append_nil, List.map_append]
    refine List.nodup_append.mpr ⟨nodup_named _, List.nodup_append.mpr
      ⟨nodup_named _, nodup_named _, htps⟩, fun key hkey key' hkey' => ?_⟩
    rcases List.mem_append.mp hkey' with hkey' | hkey'
    · exact hlatency key hkey false key' hkey'
    · exact hlatency key hkey true key' hkey'

theorem print_eq_setAll (files : Dict (List Char) (List Char)) : aggregator.print files =
    files.setAll (fun entry => file entry.1.1 entry.1.2) (fun entry => text entry.1.2 entry.2)
      aggregator.printed.items := by
  rw [print, Dict.setAll, printed, List.foldl_flatMap]
  simp only [named, List.foldl_map]

-- what the plotter can read
structure Drawable (values : List (Int × Result)) : Prop where
  ne_nil : values ≠ []
  counted : ∀ value ∈ values, 0 ≤ value.1 ∧ value.2.Counted

variable {aggregator}

theorem counted_of_get? {figures : SetupFigures} {result : Result}
    (h : aggregator.records.get? figures = some result) : figures.Counted ∧ result.Counted :=
  aggregator.counted _ (aggregator.records.get?_eq_some.mp h)

theorem drawable_latency {setup : Setup} {values : List (Int × Result)}
    (h : (printLatency aggregator.records).2.get? setup = some values) :
    Named "latency" setup ∧ Drawable values := by
  rw [get?_printLatency] at h
  split at h
  · exact absurd h (by simp)
  rename_i hne
  cases h
  have hcounted {record : SetupFigures × Result}
      (hrecord : record ∈ latencyRecords aggregator.records setup) :
      record.1.Counted ∧ record.2.Counted := counted_of_get? (mem_latencyRecords.mp hrecord).1
  obtain ⟨record, hrecord⟩ := List.exists_mem_of_ne_nil _ hne
  obtain ⟨hfaults, hnodes, hworkers, -, htxSize⟩ := (hcounted hrecord).1
  refine ⟨?_, by simpa using hne, fun value hvalue => ?_⟩
  · rw [← (mem_latencyRecords.mp hrecord).2]
    exact ⟨.inl rfl, Field.undashed_number.mpr hfaults, Field.undashed_number.mpr hnodes,
      Field.undashed_number.mpr hworkers, Field.undashed_any, Field.undashed_number.mpr htxSize,
      Field.undashed_any⟩
  · obtain ⟨entry, hentry, rfl⟩ := List.mem_map.mp hvalue
    exact ⟨(hcounted hentry).2.1, (hcounted hentry).2⟩

theorem drawable_tps {scalability : Bool} {setup : Setup} {values : List (Int × Result)}
    (h : (printTps aggregator.records aggregator.maxLatencies scalability).2.get? setup =
      some values) : Named "tps" setup ∧ Drawable values := by
  have hvalues : series aggregator.records aggregator.maxLatencies scalability setup = values := by
    rw [series, h]
    rfl
  have hkey := (Dict.mem_keys _).mpr ⟨values, h⟩
  obtain ⟨maxLatency, hbound, value, result, hplotted⟩ := mem_keys_printTps.mp hkey
  refine ⟨?_, ?_, fun value hvalue => ?_⟩
  · obtain ⟨figures, hget, hle, rfl, -⟩ := hplotted
    obtain ⟨⟨hfaults, hnodes, hworkers, -, htxSize⟩, -, hlatency, -⟩ := counted_of_get? hget
    have hmax := Field.undashed_number.mpr (hlatency.trans hle)
    have hfaults := Field.undashed_number.mpr hfaults
    have hnodes := Field.undashed_number.mpr hnodes
    have hworkers := Field.undashed_number.mpr hworkers
    have htxSize := Field.undashed_number.mpr htxSize
    cases scalability
    · exact ⟨.inr rfl, hfaults, Field.undashed_x, hworkers, Field.undashed_any, htxSize, hmax⟩
    · exact ⟨.inr rfl, hfaults, hnodes, Field.undashed_x, Field.undashed_any, htxSize, hmax⟩
  · have hmem := mem_series_values.mpr ⟨maxLatency, hbound, result, hplotted⟩
    rw [hvalues] at hmem
    obtain ⟨point, hpoint, -⟩ := List.mem_map.mp hmem
    exact List.ne_nil_of_mem hpoint
  · rw [← hvalues] at hvalue
    obtain ⟨⟨_, _, figures, hget, -, -, hfigure⟩, -⟩ := series_highest hvalue
    obtain ⟨⟨-, hnodes, hworkers, -, -⟩, hresult⟩ := counted_of_get? hget
    refine ⟨?_, hresult⟩
    rw [← hfigure]
    cases scalability
    · exact hnodes
    · exact hworkers

theorem get?_printed {name : String} {setup : Setup} {values : List (Int × Result)} :
    aggregator.printed.get? (name, setup) = some values ↔
      ∃ result ∈ aggregator.results, result.1 = name ∧ result.2.get? setup = some values := by
  simp only [Dict.get?_eq_some, printed, List.mem_flatMap, named, List.mem_map, Prod.mk.injEq,
    Prod.exists]
  constructor
  · rintro ⟨_, dict, hresult, setup, values, hmem, ⟨rfl, rfl⟩, rfl⟩
    exact ⟨_, dict, hresult, rfl, hmem⟩
  · rintro ⟨_, dict, hresult, rfl, hmem⟩
    exact ⟨_, dict, hresult, setup, values, hmem, ⟨rfl, rfl⟩, rfl⟩

theorem drawable_printed {name : String} {setup : Setup} {values : List (Int × Result)}
    (h : aggregator.printed.get? (name, setup) = some values) :
    Named name setup ∧ Drawable values := by
  obtain ⟨result, hresult, rfl, hget⟩ := get?_printed.mp h
  simp only [results, List.mem_cons, List.not_mem_nil, or_false] at hresult
  rcases hresult with rfl | rfl | rfl
  · exact drawable_latency hget
  · exact drawable_tps hget
  · exact drawable_tps hget

-- each series gets a file of its own, and the files under other names stay as they are
theorem get?_print (files : Dict (List Char) (List Char)) {name : String} (h : Kind name)
    (setup : Setup) : (aggregator.print files).get? (file name setup) =
      ((aggregator.printed.get? (name, setup)).map (text setup)).or
        (files.get? (file name setup)) := by
  have hnamed {entry : (String × Setup) × List (Int × Result)}
      (hentry : entry ∈ aggregator.printed.items) : Named entry.1.1 entry.1.2 :=
    (drawable_printed (aggregator.printed.get?_eq_some.mpr hentry)).1
  rw [print_eq_setAll]
  cases hget : aggregator.printed.get? (name, setup) with
  | none =>
    refine Dict.get?_setAll_of_ne _ _ files fun entry hentry heq => ?_
    obtain ⟨rfl, rfl⟩ := (hnamed hentry).file_inj h heq
    exact (Dict.get?_eq_none _).mp hget (List.mem_map_of_mem hentry)
  | some values =>
    have hnodup : (aggregator.printed.items.map fun entry =>
        file entry.1.1 entry.1.2).Nodup := by
      refine List.Nodup.map_on ?_ (List.Nodup.of_map _ aggregator.printed.nodup)
      intro entry hentry entry' hentry' heq
      obtain ⟨hname, hsetup⟩ := (hnamed hentry).file_inj (hnamed hentry').name heq
      exact List.inj_on_of_nodup_map aggregator.printed.nodup hentry hentry'
        (Prod.ext hname hsetup)
    exact Dict.get?_setAll _ _ files hnodup (aggregator.printed.get?_eq_some.mp hget)

-- the plots directory after calls of `print`, the earliest first
def plots (runs : List LogAggregator) : Dict (List Char) (List Char) :=
  runs.foldl (fun files aggregator => aggregator.print files) .empty

-- what the last call to print such a series printed of it
def latest (runs : List LogAggregator) (name : String) (setup : Setup) :
    Option (List (Int × Result)) :=
  runs.foldl (fun values aggregator => (aggregator.printed.get? (name, setup)).or values) none

theorem latest_drawable {runs : List LogAggregator} {name : String} {setup : Setup}
    {values : List (Int × Result)} (h : latest runs name setup = some values) :
    Named name setup ∧ Drawable values := by
  induction runs using List.reverseRecOn with
  | nil => cases h
  | append_singleton runs aggregator ih =>
    rw [latest, List.foldl_append, List.foldl_cons, List.foldl_nil, Option.or_eq_some_iff] at h
    rcases h with h | ⟨-, h⟩
    · exact drawable_printed h
    · exact ih h

theorem get?_plots (runs : List LogAggregator) {name : String} (h : Kind name) (setup : Setup) :
    (plots runs).get? (file name setup) = (latest runs name setup).map (text setup) := by
  induction runs using List.reverseRecOn with
  | nil => rfl
  | append_singleton runs aggregator ih =>
    rw [plots, latest, List.foldl_append, List.foldl_append]
    change (aggregator.print (plots runs)).get? _ =
      ((aggregator.printed.get? (name, setup)).or (latest runs name setup)).map _
    rw [get?_print _ h, ih]
    cases aggregator.printed.get? (name, setup) <;> rfl

end LogAggregator

end Narwhal.Benchmark
