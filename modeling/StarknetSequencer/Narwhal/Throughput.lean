import Mathlib.Algebra.Order.Ring.Int
import StarknetSequencer.Narwhal.Aggregate

namespace Narwhal.Benchmark.LogAggregator

def Lower (value : Int) (result : Result) (point : Int × Result) : Prop :=
  point.1 = value ∧ point.2.meanTps < result.meanTps

instance (value : Int) (result : Result) (point : Int × Result) :
    Decidable (Lower value result point) := inferInstanceAs (Decidable (_ ∧ _))

theorem removeLower_step {value : Int} {result : Result} {i : Nat} {points : List (Int × Result)}
    (hi : i < points.length) (highestTps : Bool) :
    removeLower value result i points highestTps =
      if Lower value result points[i] then
        removeLower value result (i + 1) (points.erase points[i]) true
      else removeLower value result (i + 1) points highestTps := by
  rw [removeLower, dif_pos hi]
  by_cases h : Lower value result points[i]
  · rw [if_pos h]
    exact if_pos ⟨h.2, h.1.symm⟩
  · rw [if_neg h]
    exact if_neg fun hb => h ⟨hb.2.symm, hb.1⟩

theorem removeLower_end {value : Int} {result : Result} {i : Nat} {points : List (Int × Result)}
    (hi : points.length ≤ i) (highestTps : Bool) :
    removeLower value result i points highestTps = (points, highestTps) := by
  rw [removeLower, dif_neg (Nat.not_lt.mpr hi)]

theorem removeLower_none {value : Int} {result : Result} {points : List (Int × Result)}
    (hpoints : ∀ point ∈ points, ¬ Lower value result point) (i : Nat) (highestTps : Bool) :
    removeLower value result i points highestTps = (points, highestTps) := by
  induction hn : points.length - i generalizing i with
  | zero => exact removeLower_end (by omega) highestTps
  | succ n ih =>
    have hi : i < points.length := by omega
    rw [removeLower_step hi, if_neg (hpoints _ (List.getElem_mem hi))]
    exact ih (i + 1) (by omega)

theorem removeLower_append {value : Int} {result : Result} {done rest : List (Int × Result)}
    (hnodup : ((done ++ rest).map Prod.fst).Nodup)
    (hdone : ∀ point ∈ done, ¬ Lower value result point) :
    removeLower value result done.length (done ++ rest) false =
      (done ++ rest.filter (fun point => ¬ Lower value result point),
        rest.any fun point => Lower value result point) := by
  induction rest generalizing done with
  | nil =>
    rw [removeLower_end (by simp)]
    rfl
  | cons point rest ih =>
    have hi : done.length < (done ++ point :: rest).length := by simp
    have hpoint : (done ++ point :: rest)[done.length] = point := by simp
    rw [removeLower_step hi, hpoint]
    by_cases hlower : Lower value result point
    · -- the other points have other values, so the one that the loop skips is kept anyway
      rw [List.map_append, List.map_cons, List.nodup_append, List.nodup_cons] at hnodup
      have hnew : point ∉ done := fun hmem =>
        hnodup.2.2 _ (List.mem_map_of_mem hmem) _ List.mem_cons_self rfl
      have hrest : ∀ p ∈ rest, ¬ Lower value result p := by
        intro p hp hl
        exact hnodup.2.1.1 (List.mem_map.mpr ⟨p, hp, hl.1.trans hlower.1.symm⟩)
      have herase : (done ++ point :: rest).erase point = done ++ rest := by
        rw [List.erase_append_right _ hnew, List.erase_cons_head]
      have hall : ∀ p ∈ done ++ rest, ¬ Lower value result p := by
        intro p hp
        exact (List.mem_append.mp hp).elim (hdone p) (hrest p)
      have hfilter : (point :: rest).filter (fun p => ¬ Lower value result p) = rest := by
        rw [List.filter_cons, if_neg (by simpa using hlower)]
        exact List.filter_eq_self.mpr fun p hp => decide_eq_true (hrest p hp)
      rw [if_pos hlower, herase, removeLower_none hall, hfilter, List.any_cons,
        decide_eq_true hlower, Bool.true_or]
    · have hdone' : ∀ p ∈ done ++ [point], ¬ Lower value result p := by
        intro p hp
        rcases List.mem_append.mp hp with hp | hp
        · exact hdone p hp
        · exact List.mem_singleton.mp hp ▸ hlower
      have hsplit : done ++ point :: rest = done ++ [point] ++ rest := by simp
      have hnext := ih (hsplit ▸ hnodup) hdone'
      rw [List.length_append, List.length_singleton, ← hsplit] at hnext
      rw [if_neg hlower, hnext, List.filter_cons, if_pos (by simpa using hlower), List.any_cons,
        decide_eq_false hlower, Bool.false_or, List.append_assoc, List.singleton_append]

theorem removeLower_eq {points : List (Int × Result)} (hnodup : (points.map Prod.fst).Nodup)
    (value : Int) (result : Result) : removeLower value result 0 points false =
      (points.filter (fun point => ¬ Lower value result point),
        points.any fun point => Lower value result point) :=
  @removeLower_append value result [] points hnodup (fun _ h => absurd h List.not_mem_nil)

-- one point for each value seen, with the highest throughput seen for it
structure Best (seen points : List (Int × Result)) : Prop where
  nodup : (points.map Prod.fst).Nodup
  values : ∀ value, value ∈ points.map Prod.fst ↔ value ∈ seen.map Prod.fst
  mem : ∀ point ∈ points, point ∈ seen
  highest : ∀ point ∈ points, ∀ other ∈ seen, other.1 = point.1 →
    other.2.meanTps ≤ point.2.meanTps

theorem Best.nil : Best [] [] where
  nodup := List.nodup_nil
  values _ := Iff.rfl
  mem _ h := h
  highest _ h := absurd h List.not_mem_nil

theorem Best.unique {seen points : List (Int × Result)} (h : Best seen points)
    {point other : Int × Result} (hp : point ∈ points) (ho : other ∈ points)
    (heq : point.1 = other.1) : point = other := List.inj_on_of_nodup_map h.nodup hp ho heq

theorem mem_fst_concat {points : List (Int × Result)} {value w : Int} {result : Result} :
    w ∈ (points ++ [(value, result)]).map Prod.fst ↔ w ∈ points.map Prod.fst ∨ w = value := by
  rw [List.map_append, List.mem_append]
  exact or_congr_right List.mem_singleton

theorem Best.replace {seen points kept : List (Int × Result)} (h : Best seen points) {value : Int}
    {result : Result} (hlower : ∀ p ∈ points, p.1 = value → p.2.meanTps < result.meanTps)
    (hkept : kept.Sublist points) (hmem : ∀ p, p ∈ kept ↔ p ∈ points ∧ p.1 ≠ value) :
    Best (seen ++ [(value, result)]) (kept ++ [(value, result)]) where
  nodup := by
    rw [List.map_append, List.nodup_append]
    refine ⟨h.nodup.sublist (hkept.map Prod.fst), List.nodup_singleton _, ?_⟩
    intro w hw w' hw' heq
    obtain ⟨p, hp, rfl⟩ := List.mem_map.mp hw
    exact ((hmem p).mp hp).2 (heq.trans (List.mem_singleton.mp hw'))
  values w := by
    rw [mem_fst_concat, mem_fst_concat, ← h.values w]
    by_cases hw : w = value
    · simp [hw]
    · have hsame : w ∈ kept.map Prod.fst ↔ w ∈ points.map Prod.fst := by
        simp only [List.mem_map, hmem]
        constructor
        · rintro ⟨p, ⟨hp, -⟩, rfl⟩
          exact ⟨p, hp, rfl⟩
        · rintro ⟨p, hp, rfl⟩
          exact ⟨p, ⟨hp, hw⟩, rfl⟩
      rw [hsame]
  mem p hp := by
    rcases List.mem_append.mp hp with hp | hp
    · exact List.mem_append_left _ (h.mem p ((hmem p).mp hp).1)
    · exact List.mem_append_right _ hp
  highest p hp o ho heq := by
    rcases List.mem_append.mp hp with hp | hp <;> rcases List.mem_append.mp ho with ho | ho
    · exact h.highest p ((hmem p).mp hp).1 o ho heq
    · cases List.mem_singleton.mp ho
      exact absurd heq.symm ((hmem p).mp hp).2
    · cases List.mem_singleton.mp hp
      have hvalue : o.1 ∈ points.map Prod.fst := (h.values o.1).mpr (List.mem_map_of_mem ho)
      obtain ⟨q, hq, hqo⟩ := List.mem_map.mp hvalue
      exact (h.highest q hq o ho hqo.symm).trans (hlower q hq (hqo.trans heq)).le
    · cases List.mem_singleton.mp hp
      cases List.mem_singleton.mp ho
      exact le_rfl

theorem Best.keep {seen points : List (Int × Result)} (h : Best seen points) {best : Int × Result}
    (hbest : best ∈ points) {result : Result} (hle : result.meanTps ≤ best.2.meanTps) :
    Best (seen ++ [(best.1, result)]) points where
  nodup := h.nodup
  values w := by
    rw [mem_fst_concat, h.values w]
    refine ⟨.inl, ?_⟩
    rintro (hw | rfl)
    · exact hw
    · exact (h.values best.1).mp (List.mem_map_of_mem hbest)
  mem p hp := List.mem_append_left _ (h.mem p hp)
  highest p hp o ho heq := by
    rcases List.mem_append.mp ho with ho | ho
    · exact h.highest p hp o ho heq
    · cases List.mem_singleton.mp ho
      cases h.unique hbest hp heq
      exact hle

theorem Best.addPoint {seen points : List (Int × Result)} (h : Best seen points) (value : Int)
    (result : Result) :
    Best (seen ++ [(value, result)]) (addPoint value result points) := by
  have hsplit : LogAggregator.addPoint value result points =
      if (points.all (fun x => value ≠ x.1) ||
          points.any fun point => Lower value result point) = true then
        points.filter (fun point => ¬ Lower value result point) ++ [(value, result)]
      else points.filter fun point => ¬ Lower value result point := by
    rw [LogAggregator.addPoint, removeLower_eq h.nodup]
  rw [hsplit]
  by_cases hlower : ∀ p ∈ points, p.1 = value → p.2.meanTps < result.meanTps
  · have hadded : (points.all (fun x => value ≠ x.1) ||
        points.any fun point => Lower value result point) = true := by
      rw [Bool.or_eq_true, List.all_eq_true, List.any_eq_true]
      by_cases hvalue : ∃ p ∈ points, p.1 = value
      · obtain ⟨p, hp, heq⟩ := hvalue
        exact .inr ⟨p, hp, decide_eq_true ⟨heq, hlower p hp heq⟩⟩
      · rw [not_exists] at hvalue
        exact .inl fun p hp => decide_eq_true fun heq => hvalue p ⟨hp, heq.symm⟩
    rw [if_pos hadded]
    refine h.replace hlower List.filter_sublist fun p => ?_
    rw [List.mem_filter, decide_eq_true_iff]
    refine and_congr_right fun hp => ?_
    exact ⟨fun hnot heq => hnot ⟨heq, hlower p hp heq⟩, fun hne hl => hne hl.1⟩
  · push Not at hlower
    obtain ⟨best, hbest, rfl, hle⟩ := hlower
    have hnone : ∀ p ∈ points, ¬ Lower best.1 result p := by
      intro p hp hl
      cases h.unique hp hbest hl.1
      exact absurd hl.2 (not_lt.mpr hle)
    have hsame : points.filter (fun point => ¬ Lower best.1 result point) = points :=
      List.filter_eq_self.mpr fun p hp => decide_eq_true (hnone p hp)
    have hkept : ¬ (points.all (fun x => best.1 ≠ x.1) ||
        points.any fun point => Lower best.1 result point) = true := by
      rw [Bool.or_eq_true, List.all_eq_true, List.any_eq_true]
      rintro (hall | ⟨p, hp, hl⟩)
      · exact of_decide_eq_true (hall best hbest) rfl
      · exact hnone p hp (of_decide_eq_true hl)
    rw [if_neg hkept, hsame]
    exact h.keep hbest hle

theorem Best.foldl (entries seen points : List (Int × Result)) (h : Best seen points) :
    Best (seen ++ entries)
      (entries.foldl (fun points entry => LogAggregator.addPoint entry.1 entry.2 points) points) := by
  induction entries generalizing seen points with
  | nil =>
    rw [List.append_nil]
    exact h
  | cons entry entries ih =>
    have hnext := ih _ _ (h.addPoint entry.1 entry.2)
    rwa [List.append_assoc, List.singleton_append] at hnext

theorem Best.sorted {seen points : List (Int × Result)} (h : Best seen points) :
    (points.mergeSort fun x y => x.1 ≤ y.1).Pairwise fun x y => x.1 < y.1 := by
  have hle : (points.mergeSort fun x y => x.1 ≤ y.1).Pairwise fun x y => x.1 ≤ y.1 := by
    have hbool := @List.pairwise_mergeSort (Int × Result) (fun x y => x.1 ≤ y.1)
      (fun _ _ _ hxy hyz => decide_eq_true ((of_decide_eq_true hxy).trans (of_decide_eq_true hyz)))
      (fun x y => by
        rw [Bool.or_eq_true, decide_eq_true_iff, decide_eq_true_iff]
        exact Int.le_total x.1 y.1) points
    exact hbool.imp of_decide_eq_true
  have hne : (points.mergeSort fun x y => x.1 ≤ y.1).Pairwise fun x y => x.1 ≠ y.1 := by
    have hnodup := ((List.mergeSort_perm points fun x y => x.1 ≤ y.1).map Prod.fst).nodup_iff.mpr
      h.nodup
    exact List.pairwise_map.mp hnodup
  exact (hle.and hne).imp fun h => lt_of_le_of_ne h.1 h.2

theorem eq_of_sorted {xs ys : List (Int × Int)} (hxs : xs.Pairwise fun x y => x.1 < y.1)
    (hys : ys.Pairwise fun x y => x.1 < y.1) (hmem : ∀ p, p ∈ xs ↔ p ∈ ys) : xs = ys := by
  have hnodup {zs : List (Int × Int)} (hzs : zs.Pairwise fun x y => x.1 < y.1) : zs.Nodup :=
    hzs.imp fun hlt heq => absurd (congrArg Prod.fst heq) hlt.ne
  refine List.Perm.eq_of_pairwise (fun _ _ _ _ hxy hyx => absurd hyx hxy.asymm) hxs hys ?_
  exact (List.perm_ext_iff_of_nodup (hnodup hxs) (hnodup hys)).mpr hmem

-- the points that the two loops offer, each with the setup it goes under
def offered (records : Dict SetupFigures Result) (maxLatencies : List Int) (scalability : Bool) :
    List (Setup × (Int × Result)) :=
  maxLatencies.flatMap fun maxLatency =>
    (records.items.filter fun record => record.2.meanLatency ≤ maxLatency).map fun record =>
      (seriesSetup scalability maxLatency record.1, (seriesValue scalability record.1, record.2))

theorem printTps_eq_group (records : Dict SetupFigures Result) (maxLatencies : List Int)
    (scalability : Bool) : (printTps records maxLatencies scalability).2 =
      (Dict.empty.group [] Prod.fst (fun points point => addPoint point.2.1 point.2.2 points)
        (offered records maxLatencies scalability)).mapValues
          fun points => points.mergeSort fun x y => x.1 ≤ y.1 := by
  rw [printTps, Dict.group, offered, List.foldl_flatMap]
  simp only [List.foldl_map, List.foldl_filter, decide_eq_true_eq]

-- a record that the bound lets through, with the setup and the value it is plotted under
def Plotted (records : Dict SetupFigures Result) (maxLatency : Int) (scalability : Bool)
    (setup : Setup) (value : Int) (result : Result) : Prop :=
  ∃ figures, records.get? figures = some result ∧ result.meanLatency ≤ maxLatency ∧
    seriesSetup scalability maxLatency figures = setup ∧ seriesValue scalability figures = value

theorem mem_offered {records : Dict SetupFigures Result} {maxLatencies : List Int}
    {scalability : Bool} {setup : Setup} {value : Int} {result : Result} :
    (setup, (value, result)) ∈ offered records maxLatencies scalability ↔
      ∃ maxLatency ∈ maxLatencies, Plotted records maxLatency scalability setup value result := by
  simp only [offered, Plotted, List.mem_flatMap, List.mem_map, List.mem_filter, decide_eq_true_eq,
    Prod.exists, Prod.mk.injEq, Dict.get?_eq_some]
  constructor
  · rintro ⟨maxLatency, hbound, figures, r, ⟨hmem, hle⟩, hsetup, hvalue, rfl⟩
    exact ⟨maxLatency, hbound, figures, hmem, hle, hsetup, hvalue⟩
  · rintro ⟨maxLatency, hbound, figures, hmem, hle, hsetup, hvalue⟩
    exact ⟨maxLatency, hbound, figures, result, ⟨hmem, hle⟩, hsetup, hvalue, rfl⟩

def series (records : Dict SetupFigures Result) (maxLatencies : List Int) (scalability : Bool)
    (setup : Setup) : List (Int × Result) :=
  ((printTps records maxLatencies scalability).2.get? setup).getD []

theorem series_best (records : Dict SetupFigures Result) (maxLatencies : List Int)
    (scalability : Bool) (setup : Setup) : ∃ seen points, Best seen points ∧
      (∀ value result, (value, result) ∈ seen ↔
        ∃ maxLatency ∈ maxLatencies, Plotted records maxLatency scalability setup value result) ∧
      series records maxLatencies scalability setup =
        points.mergeSort fun x y => x.1 ≤ y.1 := by
  let entries := (offered records maxLatencies scalability).filter fun e => e.1 = setup
  let grouped : Dict Setup (List (Int × Result)) :=
    Dict.empty.group [] Prod.fst (fun points e => addPoint e.2.1 e.2.2 points)
      (offered records maxLatencies scalability)
  have hpoints : (grouped.get? setup).getD [] =
      (entries.map Prod.snd).foldl (fun points p => addPoint p.1 p.2 points) [] := by
    rw [Dict.getD_group, List.foldl_map]
    rfl
  refine ⟨entries.map Prod.snd, (grouped.get? setup).getD [], ?_, fun value result => ?_, ?_⟩
  · rw [hpoints]
    exact Best.nil.foldl (entries.map Prod.snd)
  · rw [← mem_offered, List.mem_map]
    constructor
    · rintro ⟨⟨setup', _⟩, hentry, rfl⟩
      obtain ⟨hmem, hsetup⟩ := List.mem_filter.mp hentry
      cases of_decide_eq_true hsetup
      exact hmem
    · intro hmem
      exact ⟨_, List.mem_filter.mpr ⟨hmem, decide_eq_true rfl⟩, rfl⟩
  · rw [series, printTps_eq_group, Dict.get?_mapValues]
    change ((grouped.get? setup).map _).getD [] = _
    cases grouped.get? setup with
    | none => simp
    | some points => rfl

theorem series_sorted (records : Dict SetupFigures Result) (maxLatencies : List Int)
    (scalability : Bool) (setup : Setup) :
    (series records maxLatencies scalability setup).Pairwise fun x y => x.1 < y.1 := by
  obtain ⟨seen, points, hbest, -, heq⟩ := series_best records maxLatencies scalability setup
  rw [heq]
  exact hbest.sorted

theorem mem_series_values {records : Dict SetupFigures Result} {maxLatencies : List Int}
    {scalability : Bool} {setup : Setup} {value : Int} :
    value ∈ (series records maxLatencies scalability setup).map Prod.fst ↔
      ∃ maxLatency ∈ maxLatencies, ∃ result,
        Plotted records maxLatency scalability setup value result := by
  obtain ⟨seen, points, hbest, hseen, heq⟩ := series_best records maxLatencies scalability setup
  have hperm := (List.mergeSort_perm points fun x y => x.1 ≤ y.1).map Prod.fst
  rw [heq, hperm.mem_iff, hbest.values, List.mem_map]
  constructor
  · rintro ⟨⟨v, result⟩, hmem, rfl⟩
    obtain ⟨maxLatency, hbound, h⟩ := (hseen v result).mp hmem
    exact ⟨maxLatency, hbound, result, h⟩
  · rintro ⟨maxLatency, hbound, result, h⟩
    exact ⟨(value, result), (hseen value result).mpr ⟨maxLatency, hbound, h⟩, rfl⟩

theorem series_highest {records : Dict SetupFigures Result} {maxLatencies : List Int}
    {scalability : Bool} {setup : Setup} {value : Int} {result : Result}
    (h : (value, result) ∈ series records maxLatencies scalability setup) :
    (∃ maxLatency ∈ maxLatencies, Plotted records maxLatency scalability setup value result) ∧
      ∀ maxLatency ∈ maxLatencies, ∀ other,
        Plotted records maxLatency scalability setup value other →
          other.meanTps ≤ result.meanTps := by
  obtain ⟨seen, points, hbest, hseen, heq⟩ := series_best records maxLatencies scalability setup
  rw [heq, List.mem_mergeSort] at h
  refine ⟨(hseen value result).mp (hbest.mem _ h), fun maxLatency hbound other hother => ?_⟩
  exact hbest.highest _ h _ ((hseen value other).mpr ⟨maxLatency, hbound, hother⟩) rfl

theorem Plotted.bound_eq {records : Dict SetupFigures Result} {maxLatency maxLatency' : Int}
    {scalability : Bool} {figures : SetupFigures} {value : Int} {result : Result}
    (h : Plotted records maxLatency' scalability (seriesSetup scalability maxLatency figures) value
      result) : maxLatency' = maxLatency := by
  obtain ⟨figures', -, -, hsetup, -⟩ := h
  have hlatency := congrArg Setup.maxLatency hsetup
  cases scalability <;> exact Field.number.inj hlatency

theorem exists_plotted_iff {records : Dict SetupFigures Result} {maxLatencies : List Int}
    {scalability : Bool} {maxLatency : Int} (hbound : maxLatency ∈ maxLatencies)
    {figures : SetupFigures} {value : Int} {result : Result} :
    (∃ l ∈ maxLatencies, Plotted records l scalability
        (seriesSetup scalability maxLatency figures) value result) ↔
      Plotted records maxLatency scalability (seriesSetup scalability maxLatency figures) value
        result := by
  constructor
  · rintro ⟨l, -, h⟩
    cases h.bound_eq
    exact h
  · exact fun h => ⟨maxLatency, hbound, h⟩

theorem mem_keys_printTps {records : Dict SetupFigures Result} {maxLatencies : List Int}
    {scalability : Bool} {setup : Setup} :
    setup ∈ (printTps records maxLatencies scalability).2.keys ↔
      ∃ maxLatency ∈ maxLatencies, ∃ value result,
        Plotted records maxLatency scalability setup value result := by
  rw [printTps_eq_group, Dict.keys_mapValues, Dict.mem_keys_group]
  have hempty : setup ∉ (Dict.empty : Dict Setup (List (Int × Result))).keys := List.not_mem_nil
  rw [or_iff_right hempty]
  constructor
  · rintro ⟨⟨setup, value, result⟩, hmem, rfl⟩
    obtain ⟨maxLatency, hbound, h⟩ := mem_offered.mp hmem
    exact ⟨maxLatency, hbound, value, result, h⟩
  · rintro ⟨maxLatency, hbound, value, result, h⟩
    exact ⟨_, mem_offered.mpr ⟨maxLatency, hbound, h⟩, rfl⟩

-- the part of a point that ties in the throughput leave alone
def figuresOf (points : List (Int × Result)) : List (Int × Int) :=
  points.map fun point => (point.1, point.2.meanTps)

theorem mem_figuresOf_series {records : Dict SetupFigures Result} {maxLatencies : List Int}
    {scalability : Bool} {setup : Setup} {value tps : Int} :
    (value, tps) ∈ figuresOf (series records maxLatencies scalability setup) ↔
      (∃ maxLatency ∈ maxLatencies, ∃ result,
        Plotted records maxLatency scalability setup value result ∧ result.meanTps = tps) ∧
      ∀ maxLatency ∈ maxLatencies, ∀ result,
        Plotted records maxLatency scalability setup value result → result.meanTps ≤ tps := by
  constructor
  · intro h
    obtain ⟨⟨v, result⟩, hmem, heq⟩ := List.mem_map.mp h
    cases heq
    obtain ⟨⟨maxLatency, hbound, hplotted⟩, hhighest⟩ := series_highest hmem
    exact ⟨⟨maxLatency, hbound, result, hplotted, rfl⟩, hhighest⟩
  · rintro ⟨⟨maxLatency, hbound, result, hplotted, rfl⟩, hhighest⟩
    have hvalue := mem_series_values.mpr ⟨maxLatency, hbound, result, hplotted⟩
    obtain ⟨⟨v, best⟩, hmem, rfl⟩ := List.mem_map.mp hvalue
    obtain ⟨⟨l, hl, hbest⟩, hbestHighest⟩ := series_highest hmem
    refine List.mem_map.mpr ⟨(v, best), hmem, Prod.ext rfl ?_⟩
    exact Int.le_antisymm (hhighest l hl best hbest) (hbestHighest maxLatency hbound result hplotted)

theorem figuresOf_series_congr {records records' : Dict SetupFigures Result}
    {maxLatencies maxLatencies' : List Int} (hrecords : records'.Same records)
    (hbounds : ∀ l, l ∈ maxLatencies' ↔ l ∈ maxLatencies) (scalability : Bool) (setup : Setup) :
    figuresOf (series records' maxLatencies' scalability setup) =
      figuresOf (series records maxLatencies scalability setup) := by
  have hsorted (rs : Dict SetupFigures Result) (ls : List Int) :
      (figuresOf (series rs ls scalability setup)).Pairwise fun x y => x.1 < y.1 :=
    List.pairwise_map.mpr (series_sorted rs ls scalability setup)
  refine eq_of_sorted (hsorted _ _) (hsorted _ _) fun ⟨value, tps⟩ => ?_
  have hplotted (l : Int) (result : Result) : Plotted records' l scalability setup value result ↔
      Plotted records l scalability setup value result := by
    simp only [Plotted, hrecords _]
  simp only [mem_figuresOf_series, hbounds, hplotted]

theorem tps_series_best (records : Dict SetupFigures Result) (maxLatencies : List Int)
    (scalability : Bool) :
    (∀ maxLatency ∈ maxLatencies, ∀ figures : SetupFigures,
      let setup := seriesSetup scalability maxLatency figures
      let points := series records maxLatencies scalability setup
      points.Pairwise (fun x y => x.1 < y.1) ∧
        (∀ value, value ∈ points.map Prod.fst ↔
          ∃ result, Plotted records maxLatency scalability setup value result) ∧
        ∀ value result, (value, result) ∈ points →
          Plotted records maxLatency scalability setup value result ∧
            ∀ other, Plotted records maxLatency scalability setup value other →
              other.meanTps ≤ result.meanTps) ∧
      (∀ setup, setup ∈ (printTps records maxLatencies scalability).2.keys ↔
        ∃ maxLatency ∈ maxLatencies, ∃ value result,
          Plotted records maxLatency scalability setup value result) ∧
      ∀ (records' : Dict SetupFigures Result) (maxLatencies' : List Int),
        records'.Same records → (∀ l, l ∈ maxLatencies' ↔ l ∈ maxLatencies) →
        ∀ setup, figuresOf (series records' maxLatencies' scalability setup) =
          figuresOf (series records maxLatencies scalability setup) := by
  refine ⟨fun maxLatency hbound figures => ?_, fun setup => mem_keys_printTps,
    fun records' maxLatencies' hrecords hbounds setup =>
      figuresOf_series_congr hrecords hbounds scalability setup⟩
  refine ⟨series_sorted _ _ _ _, fun value => ?_, fun value result h => ?_⟩
  · rw [mem_series_values]
    constructor
    · rintro ⟨l, hl, result, h⟩
      exact ⟨result, (exists_plotted_iff hbound).mp ⟨l, hl, h⟩⟩
    · rintro ⟨result, h⟩
      exact ⟨maxLatency, hbound, result, h⟩
  · obtain ⟨hplotted, hhighest⟩ := series_highest h
    exact ⟨(exists_plotted_iff hbound).mp hplotted, fun other => hhighest maxLatency hbound other⟩

-- two rates of one setup, and a bound that only the slower one meets
def rates : Dict SetupFigures Result := .ofList
  [(⟨0, 4, 1, true, 50000, 512⟩, ⟨46000, 900, 0, 0⟩),
    (⟨0, 4, 1, true, 70000, 512⟩, ⟨52000, 4100, 0, 0⟩),
    (⟨0, 10, 1, true, 50000, 512⟩, ⟨45000, 1200, 0, 0⟩)]

theorem tps_series_best_rates :
    4 ∈ (series rates [2000, 5000] false
        (seriesSetup false 5000 ⟨0, 10, 1, true, 50000, 512⟩)).map Prod.fst ∧
      ∀ setup, figuresOf (series rates [5000, 2000, 5000] false setup) =
        figuresOf (series rates [2000, 5000] false setup) := by
  obtain ⟨hseries, -, hsame⟩ := tps_series_best rates [2000, 5000] false
  obtain ⟨-, hvalues, -⟩ := hseries 5000 (by decide) ⟨0, 10, 1, true, 50000, 512⟩
  refine ⟨(hvalues 4).mpr ⟨⟨52000, 4100, 0, 0⟩, ⟨0, 4, 1, true, 70000, 512⟩, ?_⟩, ?_⟩
  · exact ⟨by decide, by decide, rfl, rfl⟩
  · refine hsame rates [5000, 2000, 5000] (fun _ => rfl) fun l => ?_
    simp only [List.mem_cons, List.not_mem_nil, or_false]
    tauto

end Narwhal.Benchmark.LogAggregator
