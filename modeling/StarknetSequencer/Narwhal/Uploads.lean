import StarknetSequencer.Effect.Triple
import StarknetSequencer.Narwhal.Machines

open Std.Do

set_option mvcgen.warning false

namespace Narwhal.Benchmark

open Effect

namespace Cluster

def counted (cluster : Cluster) : Cluster := { cluster with commands := cluster.commands + 1 }

variable (ip name : String) (cluster : Cluster)

@[simp] theorem counted_files : cluster.counted.files = cluster.files := rfl

@[simp] theorem counted_machines : cluster.counted.machines = cluster.machines := rfl

@[simp] theorem counted_booted : cluster.counted.booted = cluster.booted := rfl

@[simp] theorem cleanup_files : (cluster.cleanup ip).files = cluster.files := rfl

@[simp] theorem cleanup_booted : (cluster.cleanup ip).booted = cluster.booted := rfl

@[simp] theorem cleanup_machines : (cluster.cleanup ip).machines =
    Function.update cluster.machines ip (CommandMaker.cleanup (cluster.machines ip)) := rfl

@[simp] theorem put_files : (cluster.put ip name).files = cluster.files := rfl

@[simp] theorem put_booted : (cluster.put ip name).booted = cluster.booted := rfl

@[simp] theorem put_machines : (cluster.put ip name).machines = Function.update cluster.machines ip
    (Function.update (cluster.machines ip) name (cluster.files name)) := rfl

end Cluster

namespace Bench

variable {fails : Nat → Bool}

@[spec]
theorem command_spec {error : Exception} {effect : Cluster → Cluster} {s : Cluster} :
    ⦃fun u => ⌜u = s⌝⦄ command fails error effect
    ⦃post⟨fun _ t => ⌜fails (s.commands + 1) = false ∧ t = effect s.counted⌝,
      fun e t => ⌜fails (s.commands + 1) = true ∧ e = error ∧ t = s.counted⌝⟩⦄ := by
  mvcgen [command]
  all_goals subst_vars
  · rename_i h
    exact ⟨h, trivial, rfl⟩
  · rename_i h _
    exact ⟨Bool.eq_false_of_not_eq_true h, rfl⟩

-- the end of a command that failed
structure Interrupted (fails : Nat → Bool) (s t : Cluster) : Prop where
  booted : t.booted = s.booted
  faulty : ∃ k, fails k = true

theorem Interrupted.of_eq {s t u : Cluster} (h : Interrupted fails t u) (hs : t.booted = s.booted) :
    Interrupted fails s u := ⟨h.booted.trans hs, h.faulty⟩

structure Uploaded (i : Nat) (ips : List String) (s t : Cluster) : Prop where
  files : t.files = s.files
  booted : t.booted = s.booted
  others : ∀ ip ∉ ips, t.machines ip = s.machines ip
  machine : ∀ ip ∈ ips, ∃ before, t.machines ip = placed s.files i before

@[spec]
theorem upload_spec {i : Nat} {ip : String} {s : Cluster} :
    ⦃fun u => ⌜u = s⌝⦄ upload fails i ip
    ⦃post⟨fun _ t => ⌜Uploaded i [ip] s t⌝, fun _ t => ⌜Interrupted fails s t⌝⟩⦄ := by
  mvcgen [upload]
  case vc1 =>
    rintro - rfl
    rename_i u hs _ _ hcleanup _ _ hcommittee _ _ hkey _
    obtain ⟨-, rfl⟩ := hkey
    obtain ⟨-, rfl⟩ := hcommittee
    obtain ⟨-, rfl⟩ := hcleanup
    subst hs
    refine ⟨rfl, rfl, fun other hother => ?_, fun other hother => ⟨u.machines other, ?_⟩⟩
    · have hne : other ≠ ip := by simpa using hother
      simp [hne]
    · obtain rfl : other = ip := by simpa using hother
      simp [placed]
  all_goals
    rintro hfails - rfl
    exact ⟨by simp_all, _, hfails⟩

theorem Uploaded.append {i : Nat} {ips others : List String} {s t u : Cluster}
    (h : Uploaded i ips s t) (h' : Uploaded i others t u) : Uploaded i (ips ++ others) s u := by
  refine ⟨h'.files.trans h.files, h'.booted.trans h.booted, fun ip hip => ?_, fun ip hip => ?_⟩
  · rw [List.mem_append, not_or] at hip
    exact (h'.others ip hip.2).trans (h.others ip hip.1)
  · by_cases hother : ip ∈ others
    · obtain ⟨before, hmachine⟩ := h'.machine ip hother
      exact ⟨before, h.files ▸ hmachine⟩
    · obtain ⟨before, hmachine⟩ := h.machine ip ((List.mem_append.mp hip).resolve_right hother)
      exact ⟨before, (h'.others ip hother).trans hmachine⟩

@[spec]
theorem uploadTo_spec {i : Nat} {ips : List String} {s : Cluster} :
    ⦃fun u => ⌜u = s⌝⦄ uploadTo fails i ips
    ⦃post⟨fun _ t => ⌜Uploaded i ips s t⌝, fun _ t => ⌜Interrupted fails s t⌝⟩⦄ := by
  mvcgen [uploadTo] invariants
  · post⟨fun (⟨done, _, _⟩, _) t => ⌜Uploaded i done s t⌝, fun _ t => ⌜Interrupted fails s t⌝⟩
  case vc1 =>
    rename_i hdone _ _ hnext
    exact hdone.append hnext
  case vc2 =>
    rename_i hdone _
    exact fun t ht => ht.of_eq hdone.booted
  case vc3 =>
    rename_i hs
    subst hs
    exact ⟨rfl, rfl, fun _ _ => rfl, fun _ h => by cases h⟩

-- the machines of two authorities are not the same
def Apart (committee : Committee) (names : List String) : Prop :=
  names.Pairwise fun name other => ∀ ip ∈ committee.ips (some name), ip ∉ committee.ips (some other)

structure Configured (committee : Committee) (entries : List (String × Nat)) (s t : Cluster) :
    Prop where
  files : t.files = s.files
  booted : t.booted = s.booted
  machines : Apart committee (entries.map Prod.fst) → ∀ entry ∈ entries,
    ∀ ip ∈ committee.ips (some entry.1), ∃ before, t.machines ip = placed s.files entry.2 before

theorem Configured.append {committee : Committee} {entries : List (String × Nat)} {name : String}
    {i : Nat} {s t u : Cluster} (h : Configured committee entries s t)
    (h' : Uploaded i (committee.ips (some name)) t u) :
    Configured committee (entries ++ [(name, i)]) s u := by
  refine ⟨h'.files.trans h.files, h'.booted.trans h.booted, fun hapart entry hentry ip hip => ?_⟩
  rw [Apart, List.map_append, List.pairwise_append] at hapart
  rcases List.mem_append.mp hentry with hold | hnew
  · have hother := hapart.2.2 entry.1 (List.mem_map_of_mem hold) name List.mem_cons_self ip hip
    obtain ⟨before, hmachine⟩ := h.machines hapart.1 entry hold ip hip
    exact ⟨before, (h'.others ip hother).trans hmachine⟩
  · cases List.mem_singleton.mp hnew
    obtain ⟨before, hmachine⟩ := h'.machine ip hip
    exact ⟨before, h.files ▸ hmachine⟩

@[spec]
theorem uploadConfig_spec {committee : Committee} {names : List String} {s : Cluster} :
    ⦃fun u => ⌜u = s⌝⦄ uploadConfig fails committee names
    ⦃post⟨fun _ t => ⌜Configured committee names.zipIdx s t⌝,
      fun _ t => ⌜Interrupted fails s t⌝⟩⦄ := by
  mvcgen [uploadConfig] invariants
  · post⟨fun (⟨done, _, _⟩, _) t => ⌜Configured committee done s t⌝,
      fun _ t => ⌜Interrupted fails s t⌝⟩
  case vc1 =>
    rename_i hdone _ _ hnext
    exact hdone.append hnext
  case vc2 =>
    rename_i hdone _
    exact fun t ht => ht.of_eq hdone.booted
  case vc3 =>
    rename_i hs
    subst hs
    exact ⟨rfl, rfl, fun _ _ h => by cases h⟩

theorem progressBar_ok {α : Type} {xs ys : List α} (h : progressBar xs = .ok ys) : ys = xs := by
  cases xs with
  | nil => cases h
  | cons x xs =>
    cases h
    rfl

-- what a machine of the i-th authority is given
structure Supplied (committee : Committee) (i : Nat) (name : String) (files : Files) : Prop where
  committee : files PathMaker.committeeFile = some (.committee committee)
  parameters : files PathMaker.parametersFile = some .parameters
  key : ∃ key, files (PathMaker.keyFile i) = some (.key key) ∧ key.name = name
  others : ∀ k ≠ i, files (PathMaker.keyFile k) = none

def Supplies (faults : Int) (committee : Committee) (machines : String → Files) : Prop :=
  ∀ (i : Nat) (name : String) (authority : Authority), (i : Int) < committee.size - faults →
    committee.authorities.items[i]? = some (name, authority) →
    ∀ ip ∈ Committee.authorityIps authority, Supplied committee i name (machines ip)

section Configured

variable {newKey : String → Key} {basePort : Nat} {selected : SelectedHosts}

def keyNames (newKey : String → Key) (count : Nat) : List String :=
  (List.range count).map fun i => (newKey (PathMaker.keyFile i)).name

structure Prepared (newKey : String → Key) (basePort : Nat) (selected : SelectedHosts)
    (workers : Int) (committee : Committee) (names : List String) (files : Files) : Prop where
  names_eq : names = keyNames newKey selected.length
  new : Committee.new (.ofList (selected.addresses names workers)) basePort = .ok committee
  committee : files PathMaker.committeeFile = some (.committee committee)
  parameters : files PathMaker.parametersFile = some .parameters
  keys : ∀ i < selected.length,
    files (PathMaker.keyFile i) = some (.key (newKey (PathMaker.keyFile i)))

theorem configFiles_ok {workers : Int} {committee : Committee} {names : List String}
    {before files : Files}
    (h : configFiles newKey basePort selected workers before = .ok (committee, names, files)) :
    Prepared newKey basePort selected workers committee names files := by
  rw [configFiles, LocalBench.generateKeys_ok] at h
  obtain ⟨_, hkeys, h⟩ := bind_ok_iff.mp h
  cases hkeys
  obtain ⟨built, hnew, h⟩ := bind_ok_iff.mp h
  cases h
  have hparameters : PathMaker.committeeFile ≠ PathMaker.parametersFile := by decide
  refine ⟨by simp [keyNames, Function.comp_def], hnew, ?_, Function.update_self .., fun i hi => ?_⟩
  · rw [Function.update_of_ne hparameters, Function.update_self]
  · obtain ⟨hcommittee, hparameters⟩ := PathMaker.keyFile_apart i
    rw [Function.update_of_ne hparameters, Function.update_of_ne hcommittee,
      if_pos (List.mem_map_of_mem (List.mem_range.mpr hi))]

theorem Prepared.length_eq {workers : Int} {committee : Committee} {names : List String}
    {files : Files} (h : Prepared newKey basePort selected workers committee names files) :
    names.length = selected.length := by
  rw [h.names_eq, keyNames, List.length_map, List.length_range]

theorem Prepared.keys_eq {workers : Int} {committee : Committee} {names : List String}
    {files : Files} (h : Prepared newKey basePort selected workers committee names files)
    (hnames : names.Nodup) : committee.authorities.keys = names := by
  have hlen := h.length_eq
  have hfst := SelectedHosts.addresses_fst hlen workers
  have hitems := Dict.ofList_items (hfst.symm ▸ hnames)
  rw [(Committee.new_items h.new).2, Dict.keys, hitems, hfst]

theorem Prepared.apart {workers : Int} {committee : Committee} {names : List String}
    {files : Files} (h : Prepared newKey basePort selected workers committee names files)
    (hnames : names.Nodup)
    (hapart : (selected.machines workers).Pairwise fun machines others =>
      ∀ host ∈ machines, host ∉ others)
    (hcolon : ∀ machines ∈ selected.machines workers, ∀ host ∈ machines, ':' ∉ host.toList) :
    Apart committee names := by
  have hlen := h.length_eq
  have hfst := SelectedHosts.addresses_fst hlen workers
  have hitems := Dict.ofList_items (hfst.symm ▸ hnames)
  have hsnd : (selected.addresses names workers).map Prod.snd = selected.machines workers := by
    rw [SelectedHosts.addresses_eq]
    exact List.map_snd_zip (by rw [SelectedHosts.length_machines, hlen])
  rw [← hsnd, List.pairwise_map] at hapart
  rw [← hsnd, List.forall_mem_map] at hcolon
  have hips := Committee.ips_apart h.new (by rwa [hitems]) (by rwa [hitems])
  rwa [h.keys_eq hnames] at hips

theorem Prepared.supplies {workers faults : Int} {committee : Committee} {names : List String}
    {s t : Cluster} (h : Prepared newKey basePort selected workers committee names s.files)
    (hnames : names.Nodup) (hapart : Apart committee names)
    (ht : Configured committee (sliceTo (names.length - faults) names).zipIdx s t) :
    Supplies faults committee t.machines := by
  intro i name authority hi hitem ip hip
  have hkeys := h.keys_eq hnames
  have hsize : committee.size = names.length := by
    rw [← hkeys, Dict.keys, List.length_map, Committee.size]
  have hname : names[i]? = some name := by
    rw [← hkeys, Dict.keys, List.getElem?_map, hitem]
    rfl
  have hlt : i < selected.length := by
    rw [← h.length_eq]
    exact (List.getElem?_eq_some_iff.mp hname).1
  have hinitial := sliceTo_initial (names.length - faults) names
  have hslice : (sliceTo (names.length - faults) names)[i]? = some name := by
    rw [hsize] at hi
    rw [sliceTo, if_pos (by omega), List.getElem?_take, if_pos (by omega), hname]
  obtain ⟨before, hmachine⟩ := ht.machines
    (by rw [List.zipIdx_map_fst]; exact hapart.sublist hinitial.sublist) (name, i)
    (List.mem_zipIdx_iff_getElem?.mpr hslice) ip
    (Committee.mem_ips.mpr ⟨authority, List.mem_of_getElem? hitem, hip⟩)
  have hkey : (newKey (PathMaker.keyFile i)).name = name := by
    rw [h.names_eq, keyNames, List.getElem?_map, List.getElem?_range hlt] at hname
    exact Option.some.inj hname
  rw [hmachine]
  refine ⟨?_, ?_, ⟨newKey (PathMaker.keyFile i), ?_, hkey⟩, fun k hk => placed_other _ _ _ hk⟩
  · rw [placed_committee, h.committee]
  · rw [placed_parameters, h.parameters]
  · rw [placed_key, h.keys i hlt]

theorem configFiles_new {workers : Int} {committee : Committee} (before : Files)
    (h : Committee.new (.ofList (selected.addresses (keyNames newKey selected.length) workers))
      basePort = .ok committee) :
    ∃ names files, configFiles newKey basePort selected workers before =
      .ok (committee, names, files) := by
  have hnames : (((List.range selected.length).map PathMaker.keyFile).map newKey).map Key.name =
      keyNames newKey selected.length := by
    simp [keyNames, Function.comp_def]
  rw [configFiles, LocalBench.generateKeys_ok]
  refine ⟨_, _, bind_ok_iff.mpr ⟨_, rfl, bind_ok_iff.mpr ⟨committee, ?_, rfl⟩⟩⟩
  rw [hnames]
  exact h

-- `_config` goes through when no command fails
structure Configurable (newKey : String → Key) (basePort : Nat) (selected : SelectedHosts)
    (parameters : BenchParameters) : Prop where
  new : ∃ committee, Committee.new (.ofList (selected.addresses (keyNames newKey selected.length)
    parameters.workers)) basePort = .ok committee
  faults : parameters.faults < selected.length
  hosts : selected.length ≠ 0

theorem Configurable.bar {parameters : BenchParameters} {names : List String} {e : Exception}
    (h : Configurable newKey basePort selected parameters) (hlen : names.length = selected.length) :
    progressBar (sliceTo (names.length - parameters.faults) names) ≠ .error e := by
  have hfaults := h.faults
  have hslice := length_sliceTo (by omega : 0 ≤ (names.length : Int) - parameters.faults) names
  have hhosts := h.hosts
  cases hnames : sliceTo (names.length - parameters.faults) names with
  | nil =>
    rw [hnames, List.length_nil] at hslice
    omega
  | cons name names => rintro ⟨⟩

@[spec]
theorem config_spec {parameters : BenchParameters} {s : Cluster} :
    ⦃fun u => ⌜u = s⌝⦄ config fails newKey basePort selected parameters
    ⦃post⟨fun committee t => ⌜t.booted = s.booted ∧ ∃ names u,
        Prepared newKey basePort selected parameters.workers committee names u.files ∧
        Configured committee (sliceTo (names.length - parameters.faults) names).zipIdx u t⌝,
      fun _ t => ⌜t.booted = s.booted ∧ ((∃ k, fails k = true) ∨
        ¬ Configurable newKey basePort selected parameters)⌝⟩⦄ := by
  mvcgen [config]
  case vc1 =>
    rename_i hs _ _ _ hcommand _ _ _ hfiles _ _ _ _ hbar _ _ hconfigured
    subst hs
    obtain ⟨-, rfl⟩ := hcommand
    obtain ⟨hfiles, rfl⟩ := hfiles
    obtain ⟨hbar, rfl⟩ := hbar
    rw [progressBar_ok hbar] at hconfigured
    exact ⟨hconfigured.booted, _, _, configFiles_ok (mapError_ok hfiles), hconfigured⟩
  case vc2 =>
    rename_i hs _ _ _ hcommand _ _ _ hfiles _ _ _ _ hbar _ _
    subst hs
    obtain ⟨-, rfl⟩ := hcommand
    obtain ⟨-, rfl⟩ := hfiles
    obtain ⟨-, rfl⟩ := hbar
    exact fun h => ⟨h.booted, .inl h.faulty⟩
  case vc3 =>
    rename_i hs _ _ _ hcommand _ _ _ hfiles _ _ _ _
    subst hs
    obtain ⟨-, rfl⟩ := hcommand
    obtain ⟨hfiles, rfl⟩ := hfiles
    rintro hbar rfl
    exact ⟨rfl, .inr fun h => h.bar (configFiles_ok (mapError_ok hfiles)).length_eq hbar⟩
  case vc4 =>
    rename_i hs _ _ _ hcommand _ _ _
    subst hs
    obtain ⟨-, rfl⟩ := hcommand
    rintro hfiles rfl
    refine ⟨rfl, .inr fun h => ?_⟩
    obtain ⟨committee, hnew⟩ := h.new
    obtain ⟨_, _, hok⟩ := configFiles_new _ hnew
    rw [hok] at hfiles
    cases hfiles
  case vc5 =>
    rename_i hs _ _ _
    subst hs
    rintro hfails - rfl
    exact ⟨rfl, .inl ⟨_, hfails⟩⟩

end Configured

end Bench

end Narwhal.Benchmark
