import StarknetSequencer.Narwhal.Endpoints
import StarknetSequencer.Narwhal.Wiring

namespace Narwhal.Benchmark

open Effect

-- `set_ip("0.0.0.0")` in `process`: only the port of the ABCI address is listened on
def RunPrimary.Serves (primary : RunPrimary) (host : String) : Prop :=
  ∃ ip port, primary.abciApi = Committee.address ip port ∧
    host = "http://" ++ Committee.address "127.0.0.1" port

namespace Client

-- the ABCI port on the various narwhal primaries
def hosts : List String :=
  ["http://127.0.0.1:3002", "http://127.0.0.1:3009", "http://127.0.0.1:3016"]

def requests : List String := (List.range 200).filterMap fun i => hosts[i % 3]?

def ports : List Nat := [3002, 3009, 3016]

theorem hosts_eq :
    hosts = ports.map fun port => "http://" ++ Committee.address "127.0.0.1" port := by decide

theorem ports_getElem {k : Nat} (h : k < ports.length) : ports[k] = 3002 + 7 * k := by
  have hlen : k < 3 := h
  interval_cases k <;> rfl

theorem requests_eq : requests = (List.range 200).map fun k =>
    "http://" ++ Committee.address "127.0.0.1" (3002 + 7 * (k % 3)) := by
  rw [requests, ← List.filterMap_eq_map]
  refine List.filterMap_congr fun k _ => ?_
  have hk : k % 3 < ports.length := Nat.mod_lt k (by decide)
  rw [hosts_eq, List.getElem?_map, List.getElem?_eq_getElem hk, ports_getElem hk]
  rfl

theorem request_at {k : Nat} {request : String} (h : requests[k]? = some request) :
    request = "http://" ++ Committee.address "127.0.0.1" (3002 + 7 * (k % 3)) := by
  rw [requests_eq, List.getElem?_map] at h
  obtain ⟨i, hi, rfl⟩ := Option.map_eq_some_iff.mp h
  obtain ⟨hlt, rfl⟩ := List.getElem?_eq_some_iff.mp hi
  rw [List.getElem_range]

theorem mem_requests {host : String} : host ∈ requests ↔ host ∈ hosts := by
  rw [requests, List.mem_filterMap]
  constructor
  · rintro ⟨i, -, hi⟩
    exact List.mem_of_getElem? hi
  · intro h
    obtain ⟨k, hk, rfl⟩ := List.mem_iff_getElem.mp h
    have hlen : k < 3 := hk
    refine ⟨k, List.mem_range.mpr (by omega), ?_⟩
    rw [Nat.mod_eq_of_lt hlen]
    exact List.getElem?_eq_getElem hk

end Client

namespace Committee

theorem built_local (names : List String) (w port : Nat) (i : Nat) :
    (built port (LocalCommittee.addresses names w))[i]? = names[i]?.map fun name =>
      (name, authority (port + i * (4 + 3 * w)) "127.0.0.1" (List.replicate w "127.0.0.1")) := by
  induction names generalizing port i with
  | nil => rfl
  | cons name names ih =>
    have hhosts : List.replicate (1 + w) "127.0.0.1" =
        "127.0.0.1" :: List.replicate w "127.0.0.1" := by
      rw [Nat.add_comm, List.replicate_succ]
    rw [LocalCommittee.addresses, List.map_cons, hhosts, built, List.length_replicate]
    cases i with
    | zero => simp
    | succ i =>
      have hport : port + 4 + 3 * w + i * (4 + 3 * w) = port + (i + 1) * (4 + 3 * w) := by ring
      have hrest := ih (port + 4 + 3 * w) i
      rw [LocalCommittee.addresses, hhosts] at hrest
      rw [List.getElem?_cons_succ, List.getElem?_cons_succ, ← hport]
      exact hrest

end Committee

namespace LocalBench

theorem run_committee {newKey : String → Key} {files : Files} {nodes workerCount faults : Nat}
    {debug : Bool} {testbed : Testbed}
    (h : run newKey files nodes workerCount faults debug = .ok testbed) :
    LocalCommittee.new ((List.range nodes).map fun i => (newKey (PathMaker.keyFile i)).name) basePort
      workerCount = .ok testbed.committee := by
  have hnames : (((List.range nodes).map PathMaker.keyFile).map newKey).map Key.name =
      (List.range nodes).map fun i => (newKey (PathMaker.keyFile i)).name := by
    simp [Function.comp_def]
  rw [run, generateKeys_ok] at h
  obtain ⟨_, hkeys, h⟩ := bind_ok_iff.mp h
  cases hkeys
  obtain ⟨committee, hnew, h⟩ := bind_ok_iff.mp h
  obtain ⟨_, -, h⟩ := bind_ok_iff.mp h
  obtain ⟨_, -, h⟩ := bind_ok_iff.mp h
  obtain ⟨_, -, h⟩ := bind_ok_iff.mp h
  obtain ⟨_, -, h⟩ := bind_ok_iff.mp h
  cases h
  rw [← hnames]
  exact hnew

theorem committee_items {names : List String} {w : Nat} (hnames : names.Nodup) (hne : names ≠ [])
    (hw : 1 ≤ w) {committee : Committee} (h : LocalCommittee.new names basePort w = .ok committee) :
    committee.authorities.items = Committee.built basePort (LocalCommittee.addresses names w) := by
  have hitems : (Dict.ofList (LocalCommittee.addresses names w)).items =
      LocalCommittee.addresses names w :=
    Dict.ofList_items (by rwa [LocalCommittee.addresses_fst])
  have hlocal : (Dict.ofList (LocalCommittee.addresses names w)).items ≠ [] := by
    rw [hitems, LocalCommittee.addresses]
    simpa using hne
  have hhosts : ∀ hosts ∈ (Dict.ofList (LocalCommittee.addresses names w)).values,
      hosts.length = w + 1 := by
    rw [Dict.values, hitems]
    intro hosts hmem
    obtain ⟨entry, hentry, rfl⟩ := List.mem_map.mp hmem
    rw [LocalCommittee.addresses_hosts hentry, Nat.add_comm]
  have hport : 1024 < basePort := by decide
  obtain ⟨built, hnew, hbuilt⟩ := Committee.new_built hlocal hw hhosts hport
  have hsame : LocalCommittee.new names basePort w = .ok built := by
    have hpos : 0 < w := hw
    rw [LocalCommittee.new, assert, decide_eq_true hpos, if_pos rfl]
    exact hnew
  cases hsame.symm.trans h
  rw [hbuilt, hitems]

-- the authority at place `i` of a local committee
def localAuthority (w i : Nat) : Authority :=
  Committee.authority (basePort + i * (4 + 3 * w)) "127.0.0.1" (List.replicate w "127.0.0.1")

theorem good_local {names : List String} {w faults : Nat} (hnames : names.Nodup) (hne : names ≠ [])
    (hw : 1 ≤ w) {committee : Committee} (h : LocalCommittee.new names basePort w = .ok committee) :
    good committee faults = (List.range (names.length - faults)).map (localAuthority w) := by
  have hitems := committee_items hnames hne hw h
  have hlength : (Committee.built basePort (LocalCommittee.addresses names w)).length =
      names.length := by
    have hhosts : ∀ entry ∈ LocalCommittee.addresses names w, entry.2 ≠ [] := fun entry hentry =>
      List.ne_nil_of_length_eq_add_one
        ((LocalCommittee.addresses_hosts hentry).trans (Nat.add_comm 1 w))
    have hfst := Committee.built_names hhosts basePort
    rw [LocalCommittee.addresses_fst] at hfst
    rw [← List.length_map, hfst]
  refine List.ext_getElem? fun i => ?_
  rw [good, Committee.size, hitems, hlength, List.getElem?_take, Dict.values, hitems,
    List.getElem?_map, Committee.built_local, List.getElem?_map]
  by_cases hi : i < names.length - faults
  · have hlt : i < names.length := by omega
    rw [if_pos hi, List.getElem?_range hi, List.getElem?_eq_getElem hlt]
    rfl
  · rw [if_neg hi, List.getElem?_eq_none (by simpa using Nat.not_lt.mp hi)]
    rfl

theorem url_inj {s t : String} (h : "http://" ++ s = "http://" ++ t) : s = t := by
  have hlist := congrArg String.toList h
  rw [String.toList_append, String.toList_append] at hlist
  exact String.toList_inj.mp (List.append_cancel_left hlist)

theorem serves_iff {debug : Bool} {w i port : Nat} {appApi : String} :
    (runPrimary debug i appApi (localAuthority w i).primary.apiRpc).Serves
        ("http://" ++ Committee.address "127.0.0.1" port) ↔
      port = basePort + i * (4 + 3 * w) + 2 := by
  constructor
  · rintro ⟨ip, other, hlistens, hhost⟩
    have hport := Committee.address_port_inj (url_inj hhost)
    have hother := Committee.address_port_inj hlistens
    omega
  · rintro rfl
    exact ⟨"127.0.0.1", _, rfl, rfl⟩

-- a primary of the testbed, by its place
theorem primary_local {debug : Bool} {w n i : Nat} {primary : RunPrimary} :
    (primaries debug ((List.range n).map (localAuthority w)))[i]? = some primary ↔
      i < n ∧ primary = runPrimary debug i (localAuthority w i).primary.apiAbci
        (localAuthority w i).primary.apiRpc := by
  rw [primaries, List.getElem?_map, List.getElem?_zipIdx, List.getElem?_map]
  by_cases hi : i < n
  · rw [List.getElem?_range hi]
    simp [hi, eq_comm]
  · rw [List.getElem?_eq_none (by simpa using Nat.not_lt.mp hi)]
    simp [hi]

theorem port_served_iff {debug : Bool} {w n port : Nat} :
    (∃ primary ∈ primaries debug ((List.range n).map (localAuthority w)),
        primary.Serves ("http://" ++ Committee.address "127.0.0.1" port)) ↔
      ∃ i < n, port = basePort + i * (4 + 3 * w) + 2 := by
  simp only [List.mem_iff_getElem?, primary_local]
  constructor
  · rintro ⟨_, ⟨i, hi, rfl⟩, hserves⟩
    exact ⟨i, hi, serves_iff.mp hserves⟩
  · rintro ⟨i, hi, hport⟩
    exact ⟨_, ⟨i, hi, rfl⟩, serves_iff.mpr hport⟩

theorem served_iff {debug : Bool} {w n : Nat} (hw : 1 ≤ w) :
    (∀ request ∈ Client.requests,
        ∃ primary ∈ primaries debug ((List.range n).map (localAuthority w)),
          primary.Serves request) ↔ w = 1 ∧ 3 ≤ n := by
  have hports : (∀ request ∈ Client.requests,
      ∃ primary ∈ primaries debug ((List.range n).map (localAuthority w)),
        primary.Serves request) ↔
      ∀ port ∈ Client.ports, ∃ i < n, port = basePort + i * (4 + 3 * w) + 2 := by
    simp only [Client.mem_requests, Client.hosts_eq, List.mem_map, forall_exists_index, and_imp,
      forall_apply_eq_imp_iff₂, port_served_iff]
  rw [hports]
  constructor
  · intro h
    obtain ⟨i, hi, hport⟩ := h 3009 (by decide)
    obtain ⟨j, hj, hport'⟩ := h 3016 (by decide)
    rw [basePort] at hport hport'
    -- two authorities are seven ports apart at least
    have hwide : 2 ≤ i → 2 * 7 ≤ i * (4 + 3 * w) := fun hi => Nat.mul_le_mul hi (by omega)
    have hone : i = 1 := by
      have hpos : i ≠ 0 := by
        rintro rfl
        omega
      omega
    subst hone
    have hw1 : w = 1 := by omega
    subst hw1
    exact ⟨rfl, by omega⟩
  · rintro ⟨rfl, hn⟩ port hport
    obtain ⟨k, hk, rfl⟩ := List.mem_iff_getElem.mp hport
    have hlen : k < 3 := hk
    exact ⟨k, by omega, by rw [Client.ports_getElem hk, basePort]; omega⟩

theorem client_reaches_testbed {newKey : String → Key} {files : Files}
    {nodes workerCount faults : Nat} {debug : Bool} (hf : faults < nodes) (hw : 1 ≤ workerCount)
    (hnames : ((List.range nodes).map fun i => (newKey (PathMaker.keyFile i)).name).Nodup) :
    ∃ testbed, run newKey files nodes workerCount faults debug = .ok testbed ∧
      ((∀ request ∈ Client.requests, ∃ primary ∈ testbed.primaries, primary.Serves request) ↔
        workerCount = 1 ∧ 3 ≤ nodes - faults) ∧
      (∀ (host : String) (i j : Nat) (primary other : RunPrimary),
        testbed.primaries[i]? = some primary → testbed.primaries[j]? = some other →
          primary.Serves host → other.Serves host → i = j) ∧
      (workerCount = 1 → ∀ (k : Nat) (request : String) (primary : RunPrimary),
        Client.requests[k]? = some request → testbed.primaries[k % 3]? = some primary →
          primary.Serves request) := by
  obtain ⟨committee, testbed, hrun, rfl, hkeys, hids, hfiles, hprimaries, hworkers⟩ :=
    @run_ok newKey files nodes workerCount faults debug hf hw hnames
  let names := (List.range nodes).map fun i => (newKey (PathMaker.keyFile i)).name
  have hlen : names.length = nodes := by simp [names]
  have hne : names ≠ [] := by
    intro hnil
    rw [hnil] at hlen
    simp at hlen
    omega
  have hgood := @good_local names workerCount faults hnames hne hw _ (run_committee hrun)
  rw [hlen] at hgood
  rw [hgood] at hprimaries
  refine ⟨testbed, hrun, ?_, ?_, ?_⟩
  · rw [hprimaries]
    exact served_iff hw
  · rw [hprimaries]
    rintro host i j primary other hi hj ⟨ip, port, hlistens, rfl⟩ hother
    obtain ⟨-, rfl⟩ := primary_local.mp hi
    obtain ⟨-, rfl⟩ := primary_local.mp hj
    have hport := serves_iff.mp ⟨ip, port, hlistens, rfl⟩
    have hport' := serves_iff.mp hother
    have hsame : i * (4 + 3 * workerCount) = j * (4 + 3 * workerCount) := by omega
    exact Nat.eq_of_mul_eq_mul_right (by omega) hsame
  · rintro rfl k request primary hk hprimary
    rw [hprimaries] at hprimary
    obtain ⟨-, rfl⟩ := primary_local.mp hprimary
    rw [Client.request_at hk]
    exact serves_iff.mpr (by rw [basePort]; omega)

theorem client_reaches_testbed_four : ∃ testbed,
    run (fun filename => ⟨filename, ""⟩) (fun _ => none) 4 1 1 false = .ok testbed ∧
      ((∀ request ∈ Client.requests, ∃ primary ∈ testbed.primaries, primary.Serves request) ↔
        1 = 1 ∧ 3 ≤ 4 - 1) ∧
      (∀ (host : String) (i j : Nat) (primary other : RunPrimary),
        testbed.primaries[i]? = some primary → testbed.primaries[j]? = some other →
          primary.Serves host → other.Serves host → i = j) ∧
      (1 = 1 → ∀ (k : Nat) (request : String) (primary : RunPrimary),
        Client.requests[k]? = some request → testbed.primaries[k % 3]? = some primary →
          primary.Serves request) :=
  client_reaches_testbed (by decide) (by decide) (by decide)

end LocalBench

end Narwhal.Benchmark
