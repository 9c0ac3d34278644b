import StarknetSequencer.Effect.Except
import StarknetSequencer.Narwhal.Remote

namespace Narwhal.Benchmark

open Wire Effect

namespace PathMaker

theorem keyFile_inj {i k : Nat} (h : keyFile i = keyFile k) : i = k := by
  have hlist := congrArg String.toList h
  rw [keyFile_toList, keyFile_toList] at hlist
  exact natRepr_inj (String.toList_inj.mp (List.append_cancel_right (List.append_cancel_left hlist)))

theorem keyFile_removed (i : Nat) : CommandMaker.removed (keyFile i) = true := by
  have hsuffix : ".json".toList <:+ "node-".toList ++ (i.repr.toList ++ ".json".toList) :=
    (List.suffix_append _ _).trans (List.suffix_append _ _)
  have hlist : (keyFile i).toList = '.' :: ("node-".toList ++ (i.repr.toList ++ ".json".toList)) :=
    keyFile_toList i
  rw [CommandMaker.removed, hlist]
  exact List.isSuffixOf_iff_suffix.mpr hsuffix

end PathMaker

-- the files of a machine that had the files before and is given those of authority i
def placed (files : Files) (i : Nat) (before : Files) : Files :=
  let cleaned := CommandMaker.cleanup before
  let given := Function.update cleaned PathMaker.committeeFile (files PathMaker.committeeFile)
  let keyed := Function.update given (PathMaker.keyFile i) (files (PathMaker.keyFile i))
  Function.update keyed PathMaker.parametersFile (files PathMaker.parametersFile)

section Placed

variable (files before : Files) (i : Nat)

theorem placed_committee :
    placed files i before PathMaker.committeeFile = files PathMaker.committeeFile := by
  have hparameters : PathMaker.committeeFile ≠ PathMaker.parametersFile := by decide
  rw [placed, Function.update_of_ne hparameters,
    Function.update_of_ne (PathMaker.keyFile_apart i).1.symm, Function.update_self]

theorem placed_parameters :
    placed files i before PathMaker.parametersFile = files PathMaker.parametersFile := by
  rw [placed, Function.update_self]

theorem placed_key :
    placed files i before (PathMaker.keyFile i) = files (PathMaker.keyFile i) := by
  rw [placed, Function.update_of_ne (PathMaker.keyFile_apart i).2, Function.update_self]

-- no key of another authority is left
theorem placed_other {k : Nat} (hk : k ≠ i) : placed files i before (PathMaker.keyFile k) = none := by
  have hkey : PathMaker.keyFile k ≠ PathMaker.keyFile i := fun h => hk (PathMaker.keyFile_inj h)
  rw [placed, Function.update_of_ne (PathMaker.keyFile_apart k).2, Function.update_of_ne hkey,
    Function.update_of_ne (PathMaker.keyFile_apart k).1, CommandMaker.cleanup,
    if_pos (PathMaker.keyFile_removed k)]

end Placed

theorem assert_ok {condition : Bool} (h : assert condition = .ok ()) : condition = true := by
  cases condition with
  | true => rfl
  | false => cases h

namespace Committee

theorem ip_address {host : String} (hcolon : ':' ∉ host.toList) (port : Nat) :
    ip (address host port) = host := by
  have hall : ∀ c ∈ host.toList, decide (c ≠ ':') = true := fun c hc =>
    decide_eq_true fun h => hcolon (h ▸ hc)
  rw [ip, address_toList, List.takeWhile_append_of_pos hall, List.takeWhile_cons_of_neg (by simp),
    List.append_nil, String.ofList_toList]

theorem mem_workersAddr_ips {host : String} {hosts : List String}
    (hcolon : ∀ host ∈ hosts, ':' ∉ host.toList) (j port : Nat) :
    (host ∈ (workersAddr j port hosts).flatMap fun (_, worker) =>
      [worker.primaryToWorker, worker.workerToWorker, worker.transactions].map ip) ↔
      host ∈ hosts := by
  induction hosts generalizing j port with
  | nil => exact Iff.rfl
  | cons other hosts ih =>
    rw [List.forall_mem_cons] at hcolon
    rw [workersAddr, List.flatMap_cons, List.mem_append, ih hcolon.2]
    simp [ip_address hcolon.1]

theorem mem_authorityIps {host other : String} {hosts : List String}
    (hcolon : ∀ host ∈ other :: hosts, ':' ∉ host.toList) (port : Nat) :
    host ∈ authorityIps (authority port other hosts) ↔ host ∈ other :: hosts := by
  rw [List.forall_mem_cons] at hcolon
  rw [authorityIps, List.mem_append, authority, mem_workersAddr_ips hcolon.2, primaryAddr]
  simp [ip_address hcolon.1]

theorem mem_ips {committee : Committee} {name ip : String} :
    ip ∈ committee.ips (some name) ↔
      ∃ authority, (name, authority) ∈ committee.authorities.items ∧ ip ∈ authorityIps authority := by
  simp only [ips, List.mem_dedup, List.mem_flatMap, List.mem_filter, decide_eq_true_eq]
  constructor
  · rintro ⟨⟨_, authority⟩, ⟨hmem, rfl⟩, hip⟩
    exact ⟨authority, hmem, hip⟩
  · rintro ⟨authority, hmem, hip⟩
    exact ⟨(name, authority), ⟨hmem, rfl⟩, hip⟩

theorem mem_built {addresses : List (String × List String)} {port : Nat} {name : String}
    {authority : Authority} (h : (name, authority) ∈ built port addresses) :
    ∃ port host hosts, (name, host :: hosts) ∈ addresses ∧
      authority = Committee.authority port host hosts := by
  induction addresses generalizing port with
  | nil => cases h
  | cons entry addresses ih =>
    obtain ⟨other, hosts⟩ := entry
    cases hosts with
    | nil =>
      obtain ⟨port, host, hosts, hmem, rfl⟩ := ih h
      exact ⟨port, host, hosts, List.mem_cons_of_mem _ hmem, rfl⟩
    | cons host hosts =>
      rcases List.mem_cons.mp h with heq | hrest
      · cases heq
        exact ⟨port, host, hosts, List.mem_cons_self, rfl⟩
      · obtain ⟨port, host', hosts', hmem, rfl⟩ := ih hrest
        exact ⟨port, host', hosts', List.mem_cons_of_mem _ hmem, rfl⟩

theorem new_items {addresses : OrderedDict (List String)} {basePort : Nat} {committee : Committee}
    (h : Committee.new addresses basePort = .ok committee) :
    committee.authorities.items = built basePort addresses.items ∧
      committee.authorities.keys = addresses.keys := by
  obtain ⟨_, hlong, h⟩ := bind_ok_iff.mp h
  obtain ⟨_, -, h⟩ := bind_ok_iff.mp h
  obtain ⟨_, -, h⟩ := bind_ok_iff.mp h
  obtain ⟨authorities, hadded, h⟩ := bind_ok_iff.mp h
  cases h
  have hhosts : ∀ entry ∈ addresses.items, entry.2 ≠ [] := by
    intro entry hentry hempty
    have hlen := List.all_eq_true.mp (assert_ok hlong) entry.2 (List.mem_map_of_mem hentry)
    rw [hempty] at hlen
    cases hlen
  obtain ⟨added, hok, hitems⟩ :=
    @addAuthorities_items basePort .empty addresses.items addresses.nodup hhosts
  cases hok.symm.trans hadded
  refine ⟨hitems, ?_⟩
  rw [Dict.keys, hitems]
  exact built_names hhosts basePort

theorem ips_apart {addresses : OrderedDict (List String)} {basePort : Nat} {committee : Committee}
    (h : Committee.new addresses basePort = .ok committee)
    (hcolon : ∀ entry ∈ addresses.items, ∀ host ∈ entry.2, ':' ∉ host.toList)
    (hapart : addresses.items.Pairwise fun entry other => ∀ host ∈ entry.2, host ∉ other.2) :
    committee.authorities.keys.Pairwise fun name other => ∀ ip ∈ committee.ips (some name),
      ip ∉ committee.ips (some other) := by
  obtain ⟨hitems, -⟩ := new_items h
  have hhost : ∀ {name ip}, ip ∈ committee.ips (some name) →
      ∃ hosts, (name, hosts) ∈ addresses.items ∧ ip ∈ hosts := by
    intro name ip hip
    obtain ⟨authority, hmem, hip⟩ := mem_ips.mp hip
    rw [hitems] at hmem
    obtain ⟨port, host, hosts, hentry, rfl⟩ := mem_built hmem
    exact ⟨host :: hosts, hentry, (mem_authorityIps (hcolon _ hentry) port).mp hip⟩
  have hsymm : Std.Symm fun entry other : String × List String =>
      ∀ host ∈ entry.2, host ∉ other.2 := ⟨fun _ _ h host hother hentry => h host hentry hother⟩
  refine committee.authorities.nodup.imp fun hne ip hip hother => ?_
  obtain ⟨hosts, hmem, hin⟩ := hhost hip
  obtain ⟨others, hmem', hin'⟩ := hhost hother
  have hdistinct : (_, hosts) ≠ (_, others) := fun heq => hne (congrArg Prod.fst heq)
  exact hapart.forall hmem hmem' hdistinct ip hin hin'

end Committee

namespace SelectedHosts

-- the machines of each authority
def machines (workers : Int) : SelectedHosts → List (List String)
  | .hosts selected => selected.map fun y => List.replicate (workers + 1).toNat y
  | .groups selected => selected

theorem addresses_eq (selected : SelectedHosts) (names : List String) (workers : Int) :
    selected.addresses names workers = names.zip (selected.machines workers) := by
  cases selected <;> rfl

theorem length_machines (selected : SelectedHosts) (workers : Int) :
    (selected.machines workers).length = selected.length := by
  cases selected with
  | hosts selected => exact List.length_map ..
  | groups selected => rfl

theorem addresses_fst {selected : SelectedHosts} {names : List String}
    (h : names.length = selected.length) (workers : Int) :
    (selected.addresses names workers).map Prod.fst = names := by
  rw [addresses_eq]
  exact List.map_fst_zip (by rw [length_machines, h])

end SelectedHosts

namespace Bench

variable {parameters : BenchParameters} {hosts : OrderedDict (List String)}

theorem selectHosts_collocate (hc : parameters.collocate = true) : selectHosts parameters hosts =
    if (total hosts : Int) < parameters.maxNodes then .hosts []
    else .hosts (sliceTo parameters.maxNodes (zip hosts.values).flatten) := by
  rw [selectHosts, if_pos hc]
  rfl

theorem machines_apart (hdistinct : hosts.values.flatten.Nodup) (workers : Int) :
    ((selectHosts parameters hosts).machines workers).Pairwise fun machines others =>
      ∀ host ∈ machines, host ∉ others := by
  cases hc : parameters.collocate with
  | true =>
    rw [selectHosts_collocate hc]
    split
    · exact .nil
    · have hsub := (sliceTo_initial parameters.maxNodes (zip hosts.values).flatten).sublist
      obtain ⟨l, hperm, hl⟩ := hsub.subperm.trans (zip_subperm hosts.values)
      refine List.pairwise_map.mpr ((hperm.nodup_iff.mp (hdistinct.sublist hl)).imp ?_)
      intro host other hne found hfound hother
      rw [List.eq_of_mem_replicate hfound] at hother
      exact hne (List.eq_of_mem_replicate hother)
  | false =>
    rw [selectHosts_separate hc]
    split
    · exact .nil
    · have hitems := (sliceTo_initial parameters.maxNodes hosts.items).sublist
      have hvalues := (List.nodup_flatten.mp hdistinct).2
      rw [Dict.values, List.pairwise_map] at hvalues
      refine List.pairwise_map.mpr ((hvalues.sublist hitems).imp ?_)
      intro region other hdisjoint host hhost hother
      exact hdisjoint ((sliceTo_initial _ region.2).subset hhost)
        ((sliceTo_initial _ other.2).subset hother)

theorem machines_known (workers : Int) :
    ∀ machines ∈ (selectHosts parameters hosts).machines workers, ∀ host ∈ machines,
      host ∈ hosts.values.flatten := by
  cases hc : parameters.collocate with
  | true =>
    rw [selectHosts_collocate hc]
    split
    · rintro _ ⟨⟩
    · rintro machines hmachines host hhost
      obtain ⟨y, hy, rfl⟩ := List.mem_map.mp hmachines
      rw [List.eq_of_mem_replicate hhost]
      have hsub := (sliceTo_initial parameters.maxNodes (zip hosts.values).flatten).sublist
      exact (hsub.subperm.trans (zip_subperm hosts.values)).subset hy
  | false =>
    rw [selectHosts_separate hc]
    split
    · rintro _ ⟨⟩
    · rintro machines hmachines host hhost
      obtain ⟨region, hregion, rfl⟩ := List.mem_map.mp hmachines
      have hmem := (sliceTo_initial parameters.maxNodes hosts.items).subset hregion
      exact List.mem_flatten.mpr ⟨region.2, List.mem_map_of_mem hmem,
        (sliceTo_initial _ region.2).subset hhost⟩

end Bench

end Narwhal.Benchmark
