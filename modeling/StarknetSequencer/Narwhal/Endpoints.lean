import StarknetSequencer.Narwhal.Wiring

namespace Narwhal.Benchmark

open Wire

def PrimaryAddress.endpoints (primary : PrimaryAddress) : List String :=
  [primary.primaryToPrimary, primary.workerToPrimary, primary.apiRpc, primary.apiAbci]

def WorkerAddress.endpoints (worker : WorkerAddress) : List String :=
  [worker.primaryToWorker, worker.transactions, worker.workerToWorker]

def Authority.endpoints (authority : Authority) : List String :=
  authority.primary.endpoints ++ authority.workers.flatMap fun worker => worker.2.endpoints

namespace Committee

def endpoints (committee : Committee) : List String :=
  committee.authorities.values.flatMap Authority.endpoints

def removeNodes (committee : Committee) (nodes : Nat) : Except Failure Committee := do
  assert (nodes < committee.size)
  return { authorities := committee.authorities.popitems nodes }

theorem address_toList (host : String) (port : Nat) :
    (address host port).toList = host.toList ++ ':' :: port.repr.toList := by
  rw [address, String.toList_append, String.toList_append, List.append_assoc]
  rfl

theorem colon_not_digit (port : Nat) : ':' ∉ port.repr.toList.reverse := fun h =>
  absurd (natRepr_digit (List.mem_reverse.mp h)) (by decide)

-- a host may hold a colon, a port does not, so the last colon is the cut
theorem address_port_inj {host host' : String} {port port' : Nat}
    (h : address host port = address host' port') : port = port' := by
  have hlist := congrArg (fun s => s.toList.reverse) h
  simp only [address_toList, List.reverse_append, List.reverse_cons, List.append_assoc,
    List.singleton_append] at hlist
  have hport := (cut_inj (colon_not_digit port) (colon_not_digit port') hlist).1
  exact natRepr_inj (String.toList_inj.mp (List.reverse_injective hport))

theorem zipWith_address_nodup (hosts : List String) (port n : Nat) :
    (List.zipWith address hosts (List.range' port n)).Nodup := by
  induction hosts generalizing port n with
  | nil => exact List.nodup_nil
  | cons host hosts ih =>
    cases n with
    | zero => exact List.nodup_nil
    | succ n =>
      rw [List.range'_succ, List.zipWith_cons_cons, List.nodup_cons]
      refine ⟨fun hmem => ?_, ih (port + 1) n⟩
      obtain ⟨i, hi, heq⟩ := List.mem_iff_getElem.mp hmem
      rw [List.getElem_zipWith, List.getElem_range'] at heq
      have hport := address_port_inj heq
      omega

-- the host of each endpoint: four of the primary, three of each worker
def endpointHosts : List String → List String
  | [] => []
  | host :: hosts => List.replicate 4 host ++ hosts.flatMap (List.replicate 3)

theorem length_endpointHosts {hosts : List String} (h : hosts ≠ []) :
    (endpointHosts hosts).length = 4 + 3 * (hosts.length - 1) := by
  cases hosts with
  | nil => exact absurd rfl h
  | cons host hosts =>
    simp [endpointHosts, List.length_flatMap]
    omega

theorem workersAddr_endpoints (j port : Nat) (hosts : List String) :
    (workersAddr j port hosts).flatMap (fun worker => worker.2.endpoints) =
      List.zipWith address (hosts.flatMap (List.replicate 3))
        (List.range' port (3 * hosts.length)) := by
  induction hosts generalizing j port with
  | nil => rfl
  | cons host hosts ih =>
    have hrange : List.range' port (3 * (host :: hosts).length) =
        [port, port + 1, port + 2] ++ List.range' (port + 3) (3 * hosts.length) := by
      have hlen : 3 * (host :: hosts).length = 3 + 3 * hosts.length := by
        rw [List.length_cons]
        omega
      rw [hlen, ← List.range'_append_1]
      rfl
    rw [workersAddr, List.flatMap_cons, ih, List.flatMap_cons, hrange,
      List.zipWith_append (by rfl)]
    rfl

def authority (port : Nat) (host : String) (hosts : List String) : Authority where
  stake := 1
  primary := primaryAddr host port
  workers := workersAddr 0 (port + 4) hosts

theorem authority_endpoints (port : Nat) (host : String) (hosts : List String) :
    (authority port host hosts).endpoints = List.zipWith address (endpointHosts (host :: hosts))
      (List.range' port (4 + 3 * hosts.length)) := by
  rw [Authority.endpoints, ← List.range'_append_1, endpointHosts,
    List.zipWith_append (by simp), authority, workersAddr_endpoints]
  rfl

def built (port : Nat) : List (String × List String) → List (String × Authority)
  | [] => []
  | (_, []) :: addresses => built port addresses
  | (name, host :: hosts) :: addresses =>
    (name, authority port host hosts) :: built (port + 4 + 3 * hosts.length) addresses

theorem addAuthorities_items (port : Nat) (authorities : OrderedDict Authority)
    {addresses : List (String × List String)}
    (hnames : (authorities.keys ++ addresses.map Prod.fst).Nodup)
    (hhosts : ∀ entry ∈ addresses, entry.2 ≠ []) :
    ∃ added, addAuthorities port authorities addresses = .ok added ∧
      added.items = authorities.items ++ built port addresses := by
  induction addresses generalizing port authorities with
  | nil => exact ⟨authorities, rfl, (List.append_nil _).symm⟩
  | cons entry addresses ih =>
    obtain ⟨name, hosts⟩ := entry
    rw [List.forall_mem_cons] at hhosts
    cases hosts with
    | nil => exact absurd rfl hhosts.1
    | cons host hosts =>
      rw [List.map_cons, List.nodup_append] at hnames
      have hnew : name ∉ authorities.keys := fun hmem =>
        hnames.2.2 _ hmem _ List.mem_cons_self rfl
      have hitems := Dict.set_new hnew (authority port host hosts)
      have hrest : ((authorities.set name (authority port host hosts)).keys ++
          addresses.map Prod.fst).Nodup := by
        rw [Dict.keys, hitems, List.map_append, List.append_assoc, List.nodup_append]
        exact hnames
      obtain ⟨added, hadded, hresult⟩ := ih (port + 4 + 3 * hosts.length) _ hrest hhosts.2
      refine ⟨added, hadded, ?_⟩
      rw [hresult, hitems, List.append_assoc]
      rfl

theorem built_names {addresses : List (String × List String)}
    (hhosts : ∀ entry ∈ addresses, entry.2 ≠ []) (port : Nat) :
    (built port addresses).map Prod.fst = addresses.map Prod.fst := by
  induction addresses generalizing port with
  | nil => rfl
  | cons entry addresses ih =>
    obtain ⟨name, hosts⟩ := entry
    rw [List.forall_mem_cons] at hhosts
    cases hosts with
    | nil => exact absurd rfl hhosts.1
    | cons host hosts => rw [built, List.map_cons, ih hhosts.2, List.map_cons]

theorem built_endpoints {w : Nat} {addresses : List (String × List String)}
    (hhosts : ∀ entry ∈ addresses, entry.2.length = w + 1) (port : Nat) :
    (built port addresses).flatMap (fun entry => entry.2.endpoints) =
      List.zipWith address (addresses.flatMap fun entry => endpointHosts entry.2)
        (List.range' port (addresses.length * (4 + 3 * w))) := by
  induction addresses generalizing port with
  | nil => rfl
  | cons entry addresses ih =>
    obtain ⟨name, hosts⟩ := entry
    rw [List.forall_mem_cons] at hhosts
    cases hosts with
    | nil => cases hhosts.1
    | cons host hosts =>
      have hlen : hosts.length = w := Nat.succ.inj hhosts.1
      have hstride : (addresses.length + 1) * (4 + 3 * w) =
          4 + 3 * hosts.length + addresses.length * (4 + 3 * w) := by
        rw [hlen, Nat.add_mul, Nat.one_mul, Nat.add_comm]
      have hwidth : (endpointHosts (host :: hosts)).length =
          (List.range' port (4 + 3 * hosts.length)).length := by
        rw [length_endpointHosts (List.cons_ne_nil host hosts), List.length_range']
        rfl
      have hrange : List.range' port ((addresses.length + 1) * (4 + 3 * w)) =
          List.range' port (4 + 3 * hosts.length) ++
            List.range' (port + 4 + 3 * hosts.length) (addresses.length * (4 + 3 * w)) := by
        rw [hstride, Nat.add_assoc port, List.range'_append_1]
      rw [built, List.flatMap_cons, ih hhosts.2, authority_endpoints, List.flatMap_cons,
        List.length_cons, hrange, List.zipWith_append hwidth]

theorem lengths_dedup {w : Nat} {values : List (List String)} (hne : values ≠ [])
    (hhosts : ∀ hosts ∈ values, hosts.length = w + 1) :
    (values.map List.length).dedup.length = 1 := by
  have hsame : values.map List.length = List.replicate values.length (w + 1) := by
    rw [List.eq_replicate_iff, List.length_map]
    refine ⟨rfl, fun n hn => ?_⟩
    obtain ⟨hosts, hmem, rfl⟩ := List.mem_map.mp hn
    exact hhosts hosts hmem
  have hpos : values.length ≠ 0 := by simpa using hne
  rw [hsame, List.replicate_dedup hpos]
  rfl

section Assigned

variable {addresses : OrderedDict (List String)} {w basePort : Nat}

theorem hosts_ne_nil (hhosts : ∀ hosts ∈ addresses.values, hosts.length = w + 1) :
    ∀ entry ∈ addresses.items, entry.2 ≠ [] := by
  intro entry hentry hempty
  have hlen := hhosts entry.2 (List.mem_map_of_mem hentry)
  rw [hempty] at hlen
  cases hlen

theorem length_flatMap_endpointHosts (hhosts : ∀ hosts ∈ addresses.values, hosts.length = w + 1) :
    (addresses.values.flatMap endpointHosts).length = addresses.items.length * (4 + 3 * w) := by
  have hwidth : ∀ entry ∈ addresses.items, (endpointHosts entry.2).length = 4 + 3 * w := by
    intro entry hentry
    rw [length_endpointHosts (hosts_ne_nil hhosts entry hentry),
      hhosts entry.2 (List.mem_map_of_mem hentry), Nat.add_sub_cancel]
  rw [Dict.values, List.flatMap_map, List.length_flatMap, List.map_congr_left hwidth]
  simp

theorem new_built (hne : addresses.items ≠ []) (hw : 1 ≤ w)
    (hhosts : ∀ hosts ∈ addresses.values, hosts.length = w + 1) (hport : 1024 < basePort) :
    ∃ committee, Committee.new addresses basePort = .ok committee ∧
      committee.authorities.items = built basePort addresses.items := by
  have hvalues : addresses.values ≠ [] := by
    rw [Dict.values, ne_eq, List.map_eq_nil_iff]
    exact hne
  have hlong : (addresses.values.all fun hosts => 1 < hosts.length) = true := by
    rw [List.all_eq_true]
    intro hosts hmem
    exact decide_eq_true (by rw [hhosts hosts hmem]; omega)
  obtain ⟨added, hadded, hitems⟩ :=
    @addAuthorities_items basePort .empty addresses.items addresses.nodup (hosts_ne_nil hhosts)
  refine ⟨⟨added⟩, ?_, hitems⟩
  rw [new, hlong, lengths_dedup hvalues hhosts, hadded]
  simp only [assert, decide_eq_true hport]
  rfl

theorem removeNodes_ok {committee : Committee} {k : Nat} (h : k < committee.size) :
    ∃ smaller, committee.removeNodes k = .ok smaller ∧ smaller.size = committee.size - k ∧
      smaller.authorities.values = committee.authorities.values.take (committee.size - k) := by
  have hitems := committee.authorities.popitems_items k
  refine ⟨⟨committee.authorities.popitems k⟩, ?_, ?_, ?_⟩
  · rw [removeNodes, assert, decide_eq_true h]
    rfl
  · rw [size, hitems, List.length_take]
    exact Nat.min_eq_left (Nat.sub_le ..)
  · rw [Dict.values, hitems, List.map_take]
    rfl

theorem goodNodes_removed {α : Type} {committee smaller : Committee} {k faults : Nat}
    (h : faults < committee.size - k) (hsize : smaller.size = committee.size - k)
    (hvalues : smaller.authorities.values =
      committee.authorities.values.take (committee.size - k)) (of : Authority → α) :
    smaller.goodNodes faults of =
      .ok ((committee.authorities.values.take (committee.size - k - faults)).map of) := by
  have hmin : min (committee.size - k - faults) (committee.size - k) =
      committee.size - k - faults := by omega
  rw [goodNodes_ok (hsize ▸ h), hvalues, hsize, List.take_take, hmin]

theorem endpoints_never_collide (hne : addresses.items ≠ []) (hw : 1 ≤ w)
    (hhosts : ∀ hosts ∈ addresses.values, hosts.length = w + 1) (hport : 1024 < basePort) :
    ∃ committee, Committee.new addresses basePort = .ok committee ∧
      committee.authorities.keys = addresses.keys ∧
      committee.endpoints.length = addresses.items.length * (4 + 3 * w) ∧
      committee.endpoints = List.zipWith address (addresses.values.flatMap endpointHosts)
        (List.range' basePort (addresses.items.length * (4 + 3 * w))) ∧
      committee.endpoints.Nodup ∧
      ∀ k faults, faults < addresses.items.length - k → ∃ smaller,
        committee.removeNodes k = .ok smaller ∧
        let first := committee.authorities.values.take (addresses.items.length - k - faults)
        smaller.primaryAddresses faults = .ok (first.map fun a => a.primary.primaryToPrimary) ∧
        smaller.rpcAddresses faults = .ok (first.map fun a => a.primary.apiRpc) ∧
        smaller.appAddresses faults = .ok (first.map fun a => a.primary.apiAbci) ∧
        smaller.workersAddresses faults = .ok (first.map fun a =>
          a.workers.map fun (id, worker) => (id, worker.transactions)) := by
  obtain ⟨committee, hnew, hitems⟩ := new_built hne hw hhosts hport
  have hentries : ∀ entry ∈ addresses.items, entry.2.length = w + 1 := fun entry hentry =>
    hhosts entry.2 (List.mem_map_of_mem hentry)
  have hkeys : committee.authorities.keys = addresses.keys := by
    rw [Dict.keys, hitems, built_names (hosts_ne_nil hhosts), Dict.keys]
  have hsize : committee.size = addresses.items.length := by
    have hlen := congrArg List.length hkeys
    rwa [Dict.keys, Dict.keys, List.length_map, List.length_map] at hlen
  have hendpoints : committee.endpoints =
      List.zipWith address (addresses.values.flatMap endpointHosts)
        (List.range' basePort (addresses.items.length * (4 + 3 * w))) := by
    rw [endpoints, Dict.values, hitems, List.flatMap_map, Dict.values,
      List.flatMap_map]
    exact built_endpoints hentries basePort
  refine ⟨committee, hnew, hkeys, ?_, hendpoints, ?_, ?_⟩
  · rw [hendpoints, List.length_zipWith, length_flatMap_endpointHosts hhosts,
      List.length_range', Nat.min_self]
  · rw [hendpoints]
    exact zipWith_address_nodup _ _ _
  · intro k faults hfaults
    rw [← hsize] at hfaults ⊢
    obtain ⟨smaller, hremove, hsmall, hvalues⟩ :=
      @removeNodes_ok committee k (by omega)
    exact ⟨smaller, hremove, goodNodes_removed hfaults hsmall hvalues _,
      goodNodes_removed hfaults hsmall hvalues _, goodNodes_removed hfaults hsmall hvalues _,
      goodNodes_removed hfaults hsmall hvalues _⟩

end Assigned

theorem endpoints_never_collide_local :
    ∃ committee, Committee.new (.ofList (LocalCommittee.addresses ["a", "b"] 1)) 3000 =
        .ok committee ∧
      committee.authorities.keys = ["a", "b"] ∧ committee.endpoints.length = 2 * (4 + 3 * 1) ∧
      committee.endpoints = List.zipWith address
        ((Dict.ofList (LocalCommittee.addresses ["a", "b"] 1)).values.flatMap endpointHosts)
        (List.range' 3000 (2 * (4 + 3 * 1))) ∧
      committee.endpoints.Nodup ∧
      ∀ k faults, faults < 2 - k → ∃ smaller, committee.removeNodes k = .ok smaller ∧
        let first := committee.authorities.values.take (2 - k - faults)
        smaller.primaryAddresses faults = .ok (first.map fun a => a.primary.primaryToPrimary) ∧
        smaller.rpcAddresses faults = .ok (first.map fun a => a.primary.apiRpc) ∧
        smaller.appAddresses faults = .ok (first.map fun a => a.primary.apiAbci) ∧
        smaller.workersAddresses faults = .ok (first.map fun a =>
          a.workers.map fun (id, worker) => (id, worker.transactions)) :=
  endpoints_never_collide (by decide) le_rfl (by decide) (by decide)

end Committee

end Narwhal.Benchmark
