import Mathlib.Order.Bounds.Basic
import Mathlib.Order.MinMax
import StarknetSequencer.Dict

namespace Narwhal.Benchmark.LogParser

variable {κ τ : Type}

def Occurs (input : List (List (κ × τ))) (k : κ) (t : τ) : Prop := ∃ x ∈ input, (k, t) ∈ x

theorem occurs_flatten {input : List (List (κ × τ))} {k : κ} {t : τ} :
    Occurs input k t ↔ (k, t) ∈ input.flatten := by
  rw [Occurs, List.mem_flatten]

variable [LinearOrder τ]

theorem isLeast_insert_min (u v : τ) (s : Set τ) (t : τ) :
    IsLeast (insert (min u v) s) t ↔ IsLeast (insert u (insert v s)) t := by
  simp only [IsLeast, lowerBounds_insert, Set.mem_insert_iff, Set.mem_inter_iff, Set.mem_Iic,
    le_min_iff]
  constructor
  · rintro ⟨hmem, ⟨hu, hv⟩, hrest⟩
    refine ⟨?_, hu, hv, hrest⟩
    rcases hmem with rfl | hmem
    · rcases min_choice u v with h | h
      · exact .inl h
      · exact .inr (.inl h)
    · exact .inr (.inr hmem)
  · rintro ⟨hmem, hu, hv, hrest⟩
    refine ⟨?_, ⟨hu, hv⟩, hrest⟩
    rcases hmem with rfl | rfl | hmem
    · exact .inl (min_eq_left hv).symm
    · exact .inl (min_eq_right hu).symm
    · exact .inr hmem

variable [DecidableEq κ]

def keepEarliest (merged : Dict κ τ) (entry : κ × τ) : Dict κ τ :=
  match merged.get? entry.1 with
  | none => merged.set entry.1 entry.2
  | some t => if t > entry.2 then merged.set entry.1 entry.2 else merged

def mergeResults (input : List (List (κ × τ))) : Dict κ τ :=
  input.foldl (fun merged x => x.foldl keepEarliest merged) .empty

theorem get?_keepEarliest_of_ne (merged : Dict κ τ) {entry : κ × τ} {k : κ} (h : entry.1 ≠ k) :
    (keepEarliest merged entry).get? k = merged.get? k := by
  rw [keepEarliest]
  split
  · exact merged.get?_set_of_ne entry.2 h
  · split
    · exact merged.get?_set_of_ne entry.2 h
    · rfl

theorem get?_keepEarliest_self (merged : Dict κ τ) (k : κ) (v : τ) :
    (keepEarliest merged (k, v)).get? k =
      some (match merged.get? k with
        | none => v
        | some t => min t v) := by
  rw [keepEarliest]
  cases hk : merged.get? k with
  | none => exact merged.get?_set_self k v
  | some t =>
    change (if t > v then merged.set k v else merged).get? k = some (min t v)
    by_cases hlt : t > v
    · rw [if_pos hlt, merged.get?_set_self, min_eq_right hlt.le]
    · rw [if_neg hlt, hk, min_eq_left (not_lt.mp hlt)]

-- the times that a key has in the dictionary or in entries still to come
def timesOf (merged : Dict κ τ) (entries : List (κ × τ)) (k : κ) : Set τ :=
  {t | merged.get? k = some t ∨ (k, t) ∈ entries}

theorem isLeast_keepEarliest (merged : Dict κ τ) (entry : κ × τ) (entries : List (κ × τ))
    (k : κ) (t : τ) : IsLeast (timesOf (keepEarliest merged entry) entries k) t ↔
      IsLeast (timesOf merged (entry :: entries) k) t := by
  obtain ⟨j, v⟩ := entry
  by_cases hj : j = k
  · subst hj
    cases hm : merged.get? j with
    | none =>
      have hsame : timesOf (keepEarliest merged (j, v)) entries j =
          timesOf merged ((j, v) :: entries) j := by
        ext s
        simp only [timesOf, Set.mem_ofPred_eq, get?_keepEarliest_self, hm, List.mem_cons,
          Option.some.injEq, Prod.mk.injEq, true_and, reduceCtorEq, false_or, eq_comm]
      rw [hsame]
    | some u =>
      have hfirst : timesOf (keepEarliest merged (j, v)) entries j =
          insert (min u v) {s | (j, s) ∈ entries} := by
        ext s
        simp only [timesOf, get?_keepEarliest_self, hm, Option.some.injEq, eq_comm, Set.mem_insert_iff,
          Set.mem_ofPred_eq]
      have hsecond : timesOf merged ((j, v) :: entries) j =
          insert u (insert v {s | (j, s) ∈ entries}) := by
        ext s
        simp only [timesOf, hm, List.mem_cons, Option.some.injEq, Prod.mk.injEq, true_and,
          Set.mem_insert_iff, Set.mem_ofPred_eq, eq_comm]
      rw [hfirst, hsecond]
      exact isLeast_insert_min u v _ t
  · have hother : (keepEarliest merged (j, v)).get? k = merged.get? k :=
      get?_keepEarliest_of_ne merged hj
    have hsame : timesOf (keepEarliest merged (j, v)) entries k =
        timesOf merged ((j, v) :: entries) k := by
      ext s
      simp only [timesOf, Set.mem_ofPred_eq, hother, List.mem_cons, Prod.mk.injEq, Ne.symm hj,
        false_and, false_or]
    rw [hsame]

theorem isLeast_foldl (entries : List (κ × τ)) (merged : Dict κ τ) (k : κ) (t : τ) :
    (entries.foldl keepEarliest merged).get? k = some t ↔
      IsLeast (timesOf merged entries k) t := by
  induction entries generalizing merged with
  | nil =>
    rw [List.foldl_nil]
    have hsame : timesOf merged [] k = {s | merged.get? k = some s} := by simp [timesOf]
    rw [hsame]
    constructor
    · intro h
      refine ⟨h, fun s hs => ?_⟩
      exact (Option.some.inj (h.symm.trans hs)).le
    · exact fun h => h.1
  | cons entry entries ih => rw [List.foldl_cons, ih, isLeast_keepEarliest]

theorem mergeResults_flatten (input : List (List (κ × τ))) :
    mergeResults input = input.flatten.foldl keepEarliest .empty := by
  rw [mergeResults, List.foldl_flatten]

theorem get?_mergeResults (input : List (List (κ × τ))) (k : κ) (t : τ) :
    (mergeResults input).get? k = some t ↔ IsLeast {s | Occurs input k s} t := by
  have hset : timesOf (.empty : Dict κ τ) input.flatten k = {s | Occurs input k s} := by
    ext s
    rw [Set.mem_ofPred_eq, occurs_flatten]
    simp [timesOf]
  rw [mergeResults_flatten, isLeast_foldl, hset]

theorem foldl_eq_none (entries : List (κ × τ)) (merged : Dict κ τ) (k : κ) :
    (entries.foldl keepEarliest merged).get? k = none ↔
      merged.get? k = none ∧ ∀ t, (k, t) ∉ entries := by
  induction entries generalizing merged with
  | nil => simp
  | cons entry entries ih =>
    obtain ⟨j, v⟩ := entry
    rw [List.foldl_cons, ih]
    by_cases hj : j = k
    · subst hj
      rw [get?_keepEarliest_self]
      simp only [reduceCtorEq, false_and, false_iff, not_and, not_forall, not_not]
      exact fun _ => ⟨v, List.mem_cons_self⟩
    · have hmem (t : τ) : (k, t) ∈ (j, v) :: entries ↔ (k, t) ∈ entries := by
        simp [Ne.symm hj]
      rw [get?_keepEarliest_of_ne merged hj]
      simp only [hmem]

theorem mem_keys_mergeResults (input : List (List (κ × τ))) (k : κ) :
    k ∈ (mergeResults input).keys ↔ ∃ t, Occurs input k t := by
  rw [← not_iff_not, ← Dict.get?_eq_none, mergeResults_flatten, foldl_eq_none]
  simp [occurs_flatten]

def mergeLogs (logs : List (List (κ × τ))) : Dict κ τ :=
  mergeResults (logs.map fun log => (mergeResults [log]).items)

theorem occurs_merged_iff (logs : List (List (κ × τ))) (k : κ) (t : τ) :
    Occurs (logs.map fun log => (mergeResults [log]).items) k t ↔
      ∃ log ∈ logs, IsLeast {s | (k, s) ∈ log} t := by
  have hone (log : List (κ × τ)) (s : τ) : Occurs [log] k s ↔ (k, s) ∈ log := by simp [Occurs]
  constructor
  · rintro ⟨x, hx, hmem⟩
    obtain ⟨log, hlog, rfl⟩ := List.mem_map.mp hx
    have hleast := (get?_mergeResults [log] k t).mp ((Dict.get?_eq_some _).mpr hmem)
    simp only [hone] at hleast
    exact ⟨log, hlog, hleast⟩
  · rintro ⟨log, hlog, hleast⟩
    refine ⟨_, List.mem_map_of_mem hlog, (Dict.get?_eq_some _).mp ?_⟩
    rw [get?_mergeResults]
    simp only [hone]
    exact hleast

theorem exists_first (log : List (κ × τ)) {k : κ} {t : τ} (h : (k, t) ∈ log) :
    ∃ s ≤ t, IsLeast {s | (k, s) ∈ log} s := by
  have hkey : k ∈ (mergeResults [log]).keys :=
    (mem_keys_mergeResults [log] k).mpr ⟨t, log, List.mem_cons_self, h⟩
  obtain ⟨s, hs⟩ := (Dict.mem_keys _).mp hkey
  have hleast := (get?_mergeResults [log] k s).mp hs
  simp only [Occurs, List.mem_singleton, exists_eq_left] at hleast
  exact ⟨s, hleast.2 h, hleast⟩

theorem isLeast_merged_iff (logs : List (List (κ × τ))) (k : κ) (t : τ) :
    IsLeast {s | ∃ log ∈ logs, IsLeast {r | (k, r) ∈ log} s} t ↔
      IsLeast {s | Occurs logs k s} t := by
  constructor
  · rintro ⟨⟨log, hlog, hleast⟩, hlower⟩
    refine ⟨⟨log, hlog, hleast.1⟩, ?_⟩
    rintro r ⟨log', hlog', hr⟩
    obtain ⟨s, hsr, hs⟩ := exists_first log' hr
    exact (hlower ⟨log', hlog', hs⟩).trans hsr
  · rintro ⟨⟨log, hlog, ht⟩, hlower⟩
    refine ⟨⟨log, hlog, ht, fun r hr => hlower ⟨log, hlog, hr⟩⟩, ?_⟩
    rintro r ⟨log', hlog', hr⟩
    exact hlower ⟨log', hlog', hr.1⟩

theorem get?_mergeLogs (logs : List (List (κ × τ))) (k : κ) (t : τ) :
    (mergeLogs logs).get? k = some t ↔ IsLeast {s | Occurs logs k s} t := by
  have hset : {s | Occurs (logs.map fun log => (mergeResults [log]).items) k s} =
      {s | ∃ log ∈ logs, IsLeast {r | (k, r) ∈ log} s} := by
    ext s
    exact occurs_merged_iff logs k s
  rw [mergeLogs, get?_mergeResults, hset, isLeast_merged_iff]

theorem mem_keys_mergeLogs (logs : List (List (κ × τ))) (k : κ) :
    k ∈ (mergeLogs logs).keys ↔ ∃ t, Occurs logs k t := by
  rw [mergeLogs, mem_keys_mergeResults]
  constructor
  · rintro ⟨t, h⟩
    obtain ⟨log, hlog, hleast⟩ := (occurs_merged_iff logs k t).mp h
    exact ⟨t, log, hlog, hleast.1⟩
  · rintro ⟨t, log, hlog, h⟩
    obtain ⟨s, -, hleast⟩ := exists_first log h
    exact ⟨s, (occurs_merged_iff logs k s).mpr ⟨log, hlog, hleast⟩⟩

theorem merge_keeps_earliest (logs : List (List (κ × τ))) :
    (∀ k, k ∈ (mergeLogs logs).keys ↔ ∃ log ∈ logs, ∃ t, (k, t) ∈ log) ∧
      (∀ k t, (mergeLogs logs).get? k = some t ↔ IsLeast {s | ∃ log ∈ logs, (k, s) ∈ log} t) ∧
      ∀ logs' : List (List (κ × τ)),
        (∀ entry, (∃ log ∈ logs', entry ∈ log) ↔ ∃ log ∈ logs, entry ∈ log) →
        (mergeLogs logs').Same (mergeLogs logs) := by
  refine ⟨fun k => ?_, fun k t => get?_mergeLogs logs k t, fun logs' hlogs k => ?_⟩
  · rw [mem_keys_mergeLogs]
    constructor
    · rintro ⟨t, log, hlog, h⟩
      exact ⟨log, hlog, t, h⟩
    · rintro ⟨log, hlog, t, h⟩
      exact ⟨t, log, hlog, h⟩
  · have hsame (t : τ) : (mergeLogs logs').get? k = some t ↔ (mergeLogs logs).get? k = some t := by
      rw [get?_mergeLogs, get?_mergeLogs]
      have hset : {s | Occurs logs' k s} = {s | Occurs logs k s} := by
        ext s
        exact hlogs (k, s)
      rw [hset]
    exact Option.ext hsame

theorem merge_keeps_earliest_reordered :
    (mergeLogs [[("a", 2), ("b", 5)], [("a", 1)]]).get? "a" = some 1 ∧
      (mergeLogs [[("a", 1)], [("b", 5), ("a", 2), ("b", 5)]]).Same
        (mergeLogs [[("a", 2), ("b", 5)], [("a", 1)]]) := by
  refine ⟨by decide, (merge_keeps_earliest [[("a", 2), ("b", 5)], [("a", 1)]]).2.2 _ ?_⟩
  intro entry
  simp only [List.mem_cons, List.not_mem_nil, or_false, exists_eq_or_imp, exists_eq_left]
  tauto

end Narwhal.Benchmark.LogParser
