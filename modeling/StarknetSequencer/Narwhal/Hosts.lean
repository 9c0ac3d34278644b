import Mathlib.Data.List.Forall2
import Mathlib.Data.List.Perm.Subperm
import Mathlib.Tactic.Linarith
import StarknetSequencer.Narwhal.Testbed

namespace Narwhal.Benchmark

section Zip

variable {α : Type}

def uncons : List (List α) → Option (List α × List (List α))
  | [] => some ([], [])
  | [] :: _ => none
  | (x :: xs) :: lists => (uncons lists).map fun (heads, tails) => (x :: heads, xs :: tails)

def zipFrom : List α → List (List α) → List (List α)
  | [], _ => []
  | x :: xs, lists =>
    match uncons lists with
    | some (heads, tails) => (x :: heads) :: zipFrom xs tails
    | none => []

-- `zip(*lists)`, which stops at the end of the shortest list
def zip : List (List α) → List (List α)
  | [] => []
  | first :: lists => zipFrom first lists

def shortest (lists : List (List α)) : Nat := (lists.map List.length).min?.getD 0

theorem uncons_some {lists tails : List (List α)} {heads : List α}
    (h : uncons lists = some (heads, tails)) :
    heads.length = lists.length ∧ lists.map List.length = tails.map (fun xs => xs.length + 1) ∧
      lists.flatten.Perm (heads ++ tails.flatten) := by
  induction lists generalizing heads tails with
  | nil =>
    cases h
    exact ⟨rfl, rfl, .refl _⟩
  | cons list lists ih =>
    cases list with
    | nil => cases h
    | cons x xs =>
      obtain ⟨⟨heads', tails'⟩, hrest, heq⟩ := Option.map_eq_some_iff.mp h
      cases heq
      obtain ⟨hheads, hlengths, hperm⟩ := ih hrest
      refine ⟨congrArg (· + 1) hheads, ?_, ?_⟩
      · rw [List.map_cons, List.map_cons, hlengths, List.length_cons]
      · rw [List.flatten_cons, List.flatten_cons, List.cons_append, List.cons_append]
        refine .cons x ((hperm.append_left xs).trans ?_)
        rw [← List.append_assoc, ← List.append_assoc]
        exact List.perm_append_comm.append_right _

theorem uncons_none {lists : List (List α)} (h : uncons lists = none) : [] ∈ lists := by
  induction lists with
  | nil => cases h
  | cons list lists ih =>
    cases list with
    | nil => exact List.mem_cons_self
    | cons x xs => exact List.mem_cons_of_mem _ (ih (Option.map_eq_none_iff.mp h))

theorem foldl_min_le (ns : List Nat) (n : Nat) : ns.foldl min n ≤ n := by
  induction ns generalizing n with
  | nil => exact le_rfl
  | cons k ns ih => exact (ih (min n k)).trans (Nat.min_le_left n k)

theorem foldl_min_zero {ns : List Nat} {n : Nat} (h : 0 ∈ ns) : ns.foldl min n = 0 := by
  induction ns generalizing n with
  | nil => cases h
  | cons k ns ih =>
    rcases List.mem_cons.mp h with rfl | hns
    · exact Nat.le_zero.mp (foldl_min_le ns (min n 0) |>.trans (Nat.min_le_right n 0))
    · exact ih hns

theorem foldl_min_succ (lists : List (List α)) (n : Nat) :
    (lists.map fun xs => xs.length + 1).foldl min (n + 1) =
      (lists.map List.length).foldl min n + 1 := by
  induction lists generalizing n with
  | nil => rfl
  | cons xs lists ih =>
    rw [List.map_cons, List.foldl_cons, Nat.succ_min_succ, ih]
    rfl

theorem length_zipFrom (first : List α) (lists : List (List α)) :
    (zipFrom first lists).length = (lists.map List.length).foldl min first.length := by
  induction first generalizing lists with
  | nil => exact (Nat.le_zero.mp (foldl_min_le _ 0)).symm
  | cons x xs ih =>
    rw [zipFrom]
    cases h : uncons lists with
    | none =>
      have hzero : 0 ∈ lists.map List.length := List.mem_map.mpr ⟨[], uncons_none h, rfl⟩
      exact (foldl_min_zero hzero).symm
    | some split =>
      obtain ⟨heads, tails⟩ := split
      rw [(uncons_some h).2.1, @List.length_cons α x xs, foldl_min_succ, ← ih]
      exact List.length_cons

theorem length_flatten_zipFrom (first : List α) (lists : List (List α)) :
    (zipFrom first lists).flatten.length = (lists.length + 1) * (zipFrom first lists).length := by
  induction first generalizing lists with
  | nil => rfl
  | cons x xs ih =>
    rw [zipFrom]
    cases h : uncons lists with
    | none => rfl
    | some split =>
      obtain ⟨heads, tails⟩ := split
      obtain ⟨hheads, hlengths, -⟩ := uncons_some h
      have htails : tails.length = lists.length := by
        have hlen := congrArg List.length hlengths
        rw [List.length_map, List.length_map] at hlen
        exact hlen.symm
      change ((x :: heads) ++ (zipFrom xs tails).flatten).length =
        (lists.length + 1) * ((zipFrom xs tails).length + 1)
      rw [List.length_append, ih, htails, List.length_cons, hheads, Nat.mul_add, Nat.mul_one,
        Nat.add_comm]

theorem zipFrom_subperm (first : List α) (lists : List (List α)) :
    (zipFrom first lists).flatten.Subperm (first ++ lists.flatten) := by
  induction first generalizing lists with
  | nil => exact List.nil_subperm
  | cons x xs ih =>
    rw [zipFrom]
    cases h : uncons lists with
    | none => exact List.nil_subperm
    | some split =>
      obtain ⟨heads, tails⟩ := split
      have hperm := (uncons_some h).2.2
      have hrest : (heads ++ (zipFrom xs tails).flatten).Subperm (xs ++ lists.flatten) := by
        refine ((List.subperm_append_left heads).mpr (ih tails)).trans (List.Perm.subperm ?_)
        refine List.Perm.trans ?_ (hperm.append_left xs).symm
        rw [← List.append_assoc, ← List.append_assoc]
        exact List.perm_append_comm.append_right _
      exact (List.subperm_cons x).mpr hrest

theorem length_flatten_zip (lists : List (List α)) :
    (zip lists).flatten.length = lists.length * shortest lists := by
  cases lists with
  | nil => rfl
  | cons first lists =>
    rw [zip, length_flatten_zipFrom, length_zipFrom, shortest, List.map_cons, List.min?_cons']
    rfl

theorem zip_subperm (lists : List (List α)) : (zip lists).flatten.Subperm lists.flatten := by
  cases lists with
  | nil => exact List.nil_subperm
  | cons first lists => exact zipFrom_subperm first lists

-- `xs[:k]`
def sliceTo (k : Int) (xs : List α) : List α :=
  if 0 ≤ k then xs.take k.toNat else xs.take (xs.length - (-k).toNat)

theorem sliceTo_initial (k : Int) (xs : List α) : sliceTo k xs <+: xs := by
  rw [sliceTo]
  split <;> exact List.take_prefix ..

theorem length_sliceTo {k : Int} (hk : 0 ≤ k) (xs : List α) :
    ((sliceTo k xs).length : Int) = min k xs.length := by
  rw [sliceTo, if_pos hk, List.length_take]
  omega

end Zip

structure BenchParameters where
  faults : Int
  nodes : List Int
  workers : Int
  collocate : Bool
  nodes_ne_nil : nodes ≠ []
  nodes_pos : ∀ x ∈ nodes, 0 < x
  faults_lt : ∀ x ∈ nodes, faults < x

namespace BenchParameters

def new (faults : Int) (nodes : List Int) (workers : Int) (collocate : Option Bool) :
    Except String BenchParameters :=
  if h : nodes ≠ [] ∧ ∀ x ∈ nodes, 1 < x then
    if hf : ∀ x ∈ nodes, faults < x then
      .ok {
        faults, nodes, workers
        collocate := collocate.getD true
        nodes_ne_nil := h.1
        nodes_pos := fun x hx => lt_trans Int.one_pos (h.2 x hx)
        faults_lt := hf }
    else .error "There should be more nodes than faults"
  else .error "Missing or invalid number of nodes"

-- `max(bench_parameters.nodes)`
def maxNodes (parameters : BenchParameters) : Int := parameters.nodes.max?.getD 0

theorem maxNodes_pos (parameters : BenchParameters) : 0 < parameters.maxNodes := by
  obtain ⟨n, hn⟩ := Option.isSome_iff_exists.mp
    (List.isSome_max?_of_ne_nil parameters.nodes_ne_nil)
  rw [maxNodes, hn]
  exact parameters.nodes_pos n (List.max?_mem hn)

end BenchParameters

-- a list of hosts in collocate mode, of groups of hosts otherwise
inductive SelectedHosts where
  | hosts (hosts : List String)
  | groups (groups : List (List String))
deriving DecidableEq

namespace Bench

def selectHosts (parameters : BenchParameters) (hosts : OrderedDict (List String)) :
    SelectedHosts :=
  if parameters.collocate then
    let nodes := parameters.maxNodes
    if ((hosts.values.map List.length).sum : Int) < nodes then .hosts []
    else
      let ordered := (zip hosts.values).flatten
      .hosts (sliceTo nodes ordered)
  else
    let primaries := parameters.maxNodes
    if (hosts.keys.length : Int) < primaries then .groups []
    else if hosts.values.any fun ips => (ips.length : Int) < parameters.workers + 1 then .groups []
    else .groups <|
      (sliceTo primaries hosts.items).map fun region => sliceTo (parameters.workers + 1) region.2

variable (parameters : BenchParameters) (hosts : OrderedDict (List String))

def total : Nat := (hosts.values.map List.length).sum

def large (ips : List String) : Bool := parameters.workers + 1 ≤ (ips.length : Int)

def largeRegions : Nat := hosts.values.countP (large parameters)

def FullTestbed : SelectedHosts → Prop
  | .hosts selected => parameters.collocate = true ∧
    if parameters.maxNodes ≤ (total hosts : Int) then
      (selected.length : Int) = parameters.maxNodes ∧ selected.Nodup ∧
        ∀ host ∈ selected, host ∈ hosts.values.flatten
    else selected = []
  | .groups groups => parameters.collocate = false ∧
    if parameters.maxNodes ≤ (largeRegions parameters hosts : Int) then
      ∃ regions : List String, (regions.length : Int) = parameters.maxNodes ∧ regions.Nodup ∧
        List.Forall₂ (fun region group => (group.length : Int) = parameters.workers + 1 ∧
          group.Nodup ∧ ∃ ips, (region, ips) ∈ hosts.items ∧ ∀ host ∈ group, host ∈ ips)
          regions groups
    else groups = []

def Enough : Prop :=
  if parameters.collocate then
    (total hosts : Int) < parameters.maxNodes ∨
      parameters.maxNodes ≤ (hosts.values.length * shortest hosts.values : Nat)
  else
    (largeRegions parameters hosts : Int) < parameters.maxNodes ∨
      (∀ ips ∈ hosts.values, large parameters ips = true) ∧ 0 ≤ parameters.workers + 1

variable {parameters hosts}

theorem collocate_full_iff (hc : parameters.collocate = true)
    (hdistinct : hosts.values.flatten.Nodup) :
    FullTestbed parameters hosts (selectHosts parameters hosts) ↔ Enough parameters hosts := by
  have hpos := parameters.maxNodes_pos
  rw [selectHosts, if_pos hc, Enough, if_pos hc]
  by_cases htotal : (total hosts : Int) < parameters.maxNodes
  · have hempty : (((hosts.values.map List.length).sum : Nat) : Int) < parameters.maxNodes := htotal
    rw [if_pos hempty, FullTestbed, if_neg (Int.not_le.mpr htotal)]
    exact ⟨fun _ => .inl htotal, fun _ => ⟨hc, rfl⟩⟩
  · have hsome : ¬ (((hosts.values.map List.length).sum : Nat) : Int) < parameters.maxNodes := htotal
    have hlen := length_sliceTo (le_of_lt hpos) (zip hosts.values).flatten
    rw [length_flatten_zip] at hlen
    have hsub := (sliceTo_initial parameters.maxNodes (zip hosts.values).flatten).sublist
    have hall := hsub.subperm.trans (zip_subperm hosts.values)
    rw [if_neg hsome, FullTestbed, if_pos (Int.not_lt.mp htotal)]
    constructor
    · rintro ⟨-, hfull, -, -⟩
      exact .inr (by omega)
    · rintro (hfew | henough)
      · exact absurd hfew htotal
      · refine ⟨hc, by omega, ?_, fun host hhost => hall.subset hhost⟩
        obtain ⟨l, hperm, hl⟩ := hall
        exact hperm.nodup_iff.mp (hdistinct.sublist hl)

theorem largeRegions_eq_length :
    (largeRegions parameters hosts = hosts.values.length ↔
      ∀ ips ∈ hosts.values, large parameters ips = true) := List.countP_eq_length

theorem any_small_iff :
    (hosts.values.any fun ips => (ips.length : Int) < parameters.workers + 1) = true ↔
      ¬ ∀ ips ∈ hosts.values, large parameters ips = true := by
  simp [large]

theorem groups_of_regions (hdistinct : hosts.values.flatten.Nodup)
    (hlarge : ∀ ips ∈ hosts.values, large parameters ips = true)
    (hworkers : 0 ≤ parameters.workers + 1) {items : List (String × List String)}
    (hitems : items.Sublist hosts.items) :
    List.Forall₂ (fun region group => (group.length : Int) = parameters.workers + 1 ∧
      group.Nodup ∧ ∃ ips, (region, ips) ∈ hosts.items ∧ ∀ host ∈ group, host ∈ ips)
      (items.map Prod.fst) (items.map fun region => sliceTo (parameters.workers + 1) region.2) := by
  rw [List.forall₂_map_left_iff, List.forall₂_map_right_iff, List.forall₂_same]
  intro item hitem
  have hmem : item ∈ hosts.items := hitems.subset hitem
  have hvalue : item.2 ∈ hosts.values := List.mem_map_of_mem hmem
  have hinitial := sliceTo_initial (parameters.workers + 1) item.2
  have hlen := length_sliceTo hworkers item.2
  have hle : parameters.workers + 1 ≤ (item.2.length : Int) :=
    of_decide_eq_true (hlarge item.2 hvalue)
  refine ⟨by omega, ?_, item.2, hmem, fun host hhost => hinitial.subset hhost⟩
  exact ((List.nodup_flatten.mp hdistinct).1 item.2 hvalue).sublist hinitial.sublist

-- the source refuses too few regions and then too few hosts in any region
theorem selectHosts_separate (hc : parameters.collocate = false) :
    selectHosts parameters hosts =
      if (hosts.keys.length : Int) < parameters.maxNodes ∨
          ¬ ∀ ips ∈ hosts.values, large parameters ips = true then .groups []
      else .groups ((sliceTo parameters.maxNodes hosts.items).map fun region =>
        sliceTo (parameters.workers + 1) region.2) := by
  have hoff : ¬ parameters.collocate = true := by simp [hc]
  rw [selectHosts, if_neg hoff]
  by_cases hregions : (hosts.keys.length : Int) < parameters.maxNodes
  · rw [if_pos hregions, if_pos (.inl hregions)]
  · rw [if_neg hregions]
    by_cases hlarge : ∀ ips ∈ hosts.values, large parameters ips = true
    · rw [if_neg fun h => any_small_iff.mp h hlarge,
        if_neg (not_or_intro hregions (not_not_intro hlarge))]
    · rw [if_pos (any_small_iff.mpr hlarge), if_pos (.inr hlarge)]

theorem few_regions (hfew : (largeRegions parameters hosts : Int) < parameters.maxNodes) :
    (hosts.keys.length : Int) < parameters.maxNodes ∨
      ¬ ∀ ips ∈ hosts.values, large parameters ips = true := by
  refine or_iff_not_imp_left.mpr fun hregions hlarge => ?_
  have hkeys : hosts.keys.length = hosts.values.length := by
    rw [Dict.keys, Dict.values, List.length_map, List.length_map]
  have hall := largeRegions_eq_length.mpr hlarge
  omega

theorem separate_full_iff (hc : parameters.collocate = false)
    (hdistinct : hosts.values.flatten.Nodup) :
    FullTestbed parameters hosts (selectHosts parameters hosts) ↔ Enough parameters hosts := by
  have hpos := parameters.maxNodes_pos
  have hoff : ¬ parameters.collocate = true := by simp [hc]
  rw [selectHosts_separate hc, Enough, if_neg hoff]
  by_cases hfew : (largeRegions parameters hosts : Int) < parameters.maxNodes
  · rw [if_pos (few_regions hfew), FullTestbed, if_neg (Int.not_le.mpr hfew)]
    exact ⟨fun _ => .inl hfew, fun _ => ⟨hc, rfl⟩⟩
  · have hregions : ¬ (hosts.keys.length : Int) < parameters.maxNodes := by
      have hcount : largeRegions parameters hosts ≤ hosts.values.length := List.countP_le_length
      rw [Dict.values, List.length_map] at hcount
      rw [Dict.keys, List.length_map]
      omega
    rw [or_iff_right hfew]
    by_cases hlarge : ∀ ips ∈ hosts.values, large parameters ips = true
    · rw [if_neg (not_or_intro hregions (not_not_intro hlarge)), FullTestbed,
        if_pos (Int.not_lt.mp hfew)]
      constructor
      · rintro ⟨-, regions, hlen, -, hgroups⟩
        refine ⟨hlarge, ?_⟩
        cases regions with
        | nil =>
          rw [List.length_nil] at hlen
          omega
        | cons region regions =>
          obtain ⟨group, -, ⟨hgroup, -⟩, -, -⟩ := List.forall₂_cons_left_iff.mp hgroups
          exact hgroup ▸ Int.natCast_nonneg _
      · rintro ⟨-, hworkers⟩
        have hinitial := (sliceTo_initial parameters.maxNodes hosts.items).sublist
        have hlen := length_sliceTo (le_of_lt hpos) hosts.items
        rw [Dict.keys, List.length_map] at hregions
        refine ⟨hc, (sliceTo parameters.maxNodes hosts.items).map Prod.fst, ?_, ?_, ?_⟩
        · rw [List.length_map]
          omega
        · exact hosts.nodup.sublist (hinitial.map Prod.fst)
        · exact groups_of_regions hdistinct hlarge hworkers hinitial
    · rw [if_pos (.inr hlarge), FullTestbed, if_pos (Int.not_lt.mp hfew)]
      refine iff_of_false ?_ fun h => hlarge h.1
      rintro ⟨-, regions, hlen, -, hgroups⟩
      have hzero : regions.length = 0 := hgroups.length_eq
      omega

theorem select_hosts_full_iff (hdistinct : hosts.values.flatten.Nodup) :
    FullTestbed parameters hosts (selectHosts parameters hosts) ↔ Enough parameters hosts := by
  cases hc : parameters.collocate with
  | true => exact collocate_full_iff hc hdistinct
  | false => exact separate_full_iff hc hdistinct

def requesting (n workers : Nat) (collocate : Bool) : BenchParameters where
  faults := 0
  nodes := [n + 2]
  workers
  collocate
  nodes_ne_nil := List.cons_ne_nil _ _
  nodes_pos x hx := by
    cases List.mem_singleton.mp hx
    omega
  faults_lt x hx := by
    cases List.mem_singleton.mp hx
    omega

def uneven : OrderedDict (List String) where
  items := [("us-east-1", ["10.0.0.1"]), ("eu-north-1", ["10.0.1.1", "10.0.1.2"]),
    ("ap-southeast-2", ["10.0.2.1", "10.0.2.2"])]
  nodup := by decide

theorem select_hosts_full_iff_uneven :
    FullTestbed (requesting 1 1 true) uneven (selectHosts (requesting 1 1 true) uneven) ↔
      Enough (requesting 1 1 true) uneven :=
  select_hosts_full_iff (by decide)

theorem uneven_regions :
    selectHosts (requesting 2 1 true) uneven = .hosts ["10.0.0.1", "10.0.1.1", "10.0.2.1"] ∧
      ¬ FullTestbed (requesting 2 1 true) uneven (selectHosts (requesting 2 1 true) uneven) ∧
      selectHosts (requesting 0 1 false) uneven = .groups [] ∧
      ¬ FullTestbed (requesting 0 1 false) uneven (selectHosts (requesting 0 1 false) uneven) := by
  have hcollocate : selectHosts (requesting 2 1 true) uneven =
      .hosts ["10.0.0.1", "10.0.1.1", "10.0.2.1"] := by decide
  have hseparate : selectHosts (requesting 0 1 false) uneven = .groups [] := by decide
  refine ⟨hcollocate, ?_, hseparate, ?_⟩
  · rw [hcollocate]
    rintro ⟨-, h⟩
    rw [if_pos (by decide)] at h
    exact absurd h.1 (by decide)
  · rw [hseparate]
    rintro ⟨-, h⟩
    rw [if_pos (by decide)] at h
    obtain ⟨regions, hlen, -, hgroups⟩ := h
    have hzero : regions.length = 0 := hgroups.length_eq
    rw [hzero] at hlen
    exact absurd hlen (by decide)

end Bench

end Narwhal.Benchmark
