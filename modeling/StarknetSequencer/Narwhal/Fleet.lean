import StarknetSequencer.Narwhal.Boots

namespace Narwhal.Benchmark

open Effect

namespace Committee

-- the authorities that a run with n nodes takes
def running (committee : Committee) (n faults : Int) : List (String × Authority) :=
  committee.authorities.items.take (min n committee.size - max faults 0).toNat

def clients (committee : Committee) (parameters : RemoteParameters) (share : Int) : List Boot :=
  clientBoots parameters share
    ((committee.running (Bench.firstSize parameters) parameters.faults).map fun entry =>
      entry.2.workers.map fun (id, worker) => (id, worker.transactions))

theorem running_at {committee : Committee} {n faults : Int} {i : Nat} {entry : String × Authority}
    (h : (committee.running n faults)[i]? = some entry) :
    (i : Int) < committee.size - faults ∧ committee.authorities.items[i]? = some entry := by
  rw [running, List.getElem?_take] at h
  split at h
  · exact ⟨by omega, h⟩
  · cases h

theorem transactions_mem_ips {authority : Authority} {id : Nat} {worker : WorkerAddress}
    (h : (id, worker) ∈ authority.workers) :
    ip worker.transactions ∈ authorityIps authority := by
  refine List.mem_append_right _ (List.mem_flatMap.mpr ⟨(id, worker), h, ?_⟩)
  simp

-- every client is told of all the workers that run
def clientNodes (committee : Committee) (parameters : RemoteParameters) : List String :=
  (committee.running (Bench.firstSize parameters) parameters.faults).flatMap fun entry =>
    entry.2.workers.map fun (_, worker) => worker.transactions

-- one client for each worker of each authority that runs
theorem mem_clients {committee : Committee} {parameters : RemoteParameters} {share : Int}
    {boot : Boot} : boot ∈ committee.clients parameters share ↔
      ∃ (i : Nat) (name : String) (authority : Authority) (id : Nat) (worker : WorkerAddress),
        (committee.running (Bench.firstSize parameters) parameters.faults)[i]? =
          some (name, authority) ∧ (id, worker) ∈ authority.workers ∧
        boot = clientBoot parameters share (committee.clientNodes parameters) i
          (id, worker.transactions) := by
  have hnodes : (((committee.running (Bench.firstSize parameters) parameters.faults).map
      fun entry => entry.2.workers.map fun (id, worker) => (id, worker.transactions)).flatten.map
        Prod.snd) = committee.clientNodes parameters := by
    rw [List.map_flatten, List.map_map, clientNodes, List.flatMap_def]
    congr 2
    funext entry
    rw [Function.comp_apply, List.map_map]
    rfl
  rw [clients, clientBoots, hnodes, List.mem_flatMap]
  constructor
  · rintro ⟨⟨own, i⟩, hmem, hboot⟩
    have hat := List.mem_zipIdx_iff_getElem?.mp hmem
    rw [List.getElem?_map] at hat
    obtain ⟨⟨name, authority⟩, hitem, rfl⟩ := Option.map_eq_some_iff.mp hat
    obtain ⟨_, haddress, rfl⟩ := List.mem_map.mp hboot
    obtain ⟨⟨id, worker⟩, hworker, rfl⟩ := List.mem_map.mp haddress
    exact ⟨i, name, authority, id, worker, hitem, hworker, rfl⟩
  · rintro ⟨i, name, authority, id, worker, hitem, hworker, rfl⟩
    have haddress : (id, worker.transactions) ∈
        authority.workers.map fun (id, worker) => (id, worker.transactions) :=
      List.mem_map.mpr ⟨(id, worker), hworker, rfl⟩
    refine ⟨(authority.workers.map fun (id, worker) => (id, worker.transactions), i),
      List.mem_zipIdx_iff_getElem?.mpr ?_, List.mem_map_of_mem haddress⟩
    rw [List.getElem?_map, hitem, Option.map_some]

end Committee

namespace Bench

variable {fails : Nat → Bool} {debug : Bool} {parameters : RemoteParameters} {s t : Cluster}
  {committee : Committee} {newKey : String → Key} {basePort : Nat}
  {hosts : OrderedDict (List String)}

theorem workersAddresses_removed {n : Int} (hn : 0 < n) {smaller : Committee}
    (hsmaller : committee.removeNodes (committee.size - n).toNat = .ok smaller) {faults : Int}
    {addresses : List (List (Nat × String))}
    (h : smaller.workersAddresses faults.toNat = .ok addresses) :
    addresses = (committee.running n faults).map fun entry =>
      entry.2.workers.map fun (id, worker) => (id, worker.transactions) := by
  obtain ⟨_, hassert, -⟩ := bind_ok_iff.mp hsmaller
  have hlt : (committee.size - n).toNat < committee.size :=
    of_decide_eq_true (assert_ok hassert)
  obtain ⟨_, hok, hsize, hvalues⟩ := Committee.removeNodes_ok hlt
  cases hok.symm.trans hsmaller
  obtain ⟨_, hassert, -⟩ := bind_ok_iff.mp h
  have hfaults : faults.toNat < smaller.size := of_decide_eq_true (assert_ok hassert)
  rw [hsize] at hfaults
  have hgood := Committee.goodNodes_removed hfaults hsize hvalues fun authority =>
    authority.workers.map fun (id, worker) => (id, worker.transactions)
  cases h.symm.trans hgood
  have hcount : committee.size - (committee.size - n).toNat - faults.toNat =
      (min n committee.size - max faults 0).toNat := by omega
  rw [hcount, Dict.values, ← List.map_take, List.map_map, Committee.running]
  rfl

theorem firstSize_pos : 0 < firstSize parameters :=
  parameters.nodes_pos _ (List.head_mem _)

-- the first run: the committee of the selected hosts, the part of it that this run takes and the
-- share of the first rate that each client sends
structure FirstRun (newKey : String → Key) (basePort : Nat) (selected : SelectedHosts)
    (parameters : RemoteParameters) (committee smaller : Committee) (share : Int) : Prop where
  configured : Committee.new (.ofList (selected.addresses (keyNames newKey selected.length)
    parameters.workers)) basePort = .ok committee
  reduced : firstCommittee parameters committee = .ok smaller
  share : rateShare (firstRate parameters) smaller.workers = .ok share

theorem firstPlanned_clients : firstPlanned parameters committee = [] ∨
    ∃ smaller share, firstCommittee parameters committee = .ok smaller ∧
      rateShare (firstRate parameters) smaller.workers = .ok share ∧
      firstPlanned parameters committee = committee.clients parameters share := by
  rw [firstPlanned]
  split
  · rename_i smaller hsmaller
    rw [planned]
    split
    · rename_i addresses share haddresses hshare
      rw [workersAddresses_removed firstSize_pos hsmaller haddresses]
      exact .inr ⟨smaller, share, hsmaller, hshare, rfl⟩
    · exact .inl rfl
  · exact .inl rfl

theorem Prepared.known {selected : SelectedHosts} {workers : Int} {names : List String}
    {files : Files} (h : Prepared newKey basePort selected workers committee names files)
    (hnames : names.Nodup)
    (hcolon : ∀ machines ∈ selected.machines workers, ∀ host ∈ machines, ':' ∉ host.toList)
    {name ip : String} {authority : Authority}
    (hmem : (name, authority) ∈ committee.authorities.items)
    (hip : ip ∈ Committee.authorityIps authority) :
    ∃ machines ∈ selected.machines workers, ip ∈ machines := by
  have hfst := SelectedHosts.addresses_fst h.length_eq workers
  rw [(Committee.new_items h.new).1, Dict.ofList_items (hfst.symm ▸ hnames)] at hmem
  obtain ⟨port, host, hosts, hentry, rfl⟩ := Committee.mem_built hmem
  rw [SelectedHosts.addresses_eq] at hentry
  have hmachines := (List.of_mem_zip hentry).2
  exact ⟨_, hmachines, (Committee.mem_authorityIps (hcolon _ hmachines) port).mp hip⟩

theorem Deployed.new {selected : SelectedHosts}
    (h : Deployed newKey basePort selected parameters committee s t) :
    Committee.new (.ofList (selected.addresses (keyNames newKey selected.length)
      parameters.workers)) basePort = .ok committee := by
  obtain ⟨names, u, hprepared, -⟩ := h.configured
  rw [← hprepared.names_eq]
  exact hprepared.new

theorem supplied_of_deployed (hdistinct : hosts.values.flatten.Nodup)
    (hcolon : ∀ host ∈ hosts.values.flatten, ':' ∉ host.toList)
    (hnames : (keyNames newKey
      (selectHosts parameters.toBenchParameters hosts).length).Nodup)
    (h : Deployed newKey basePort (selectHosts parameters.toBenchParameters hosts) parameters
      committee s t) {share : Int} {boot : Boot} (hboot : boot ∈ committee.clients parameters share) :
    boot.host ∈ hosts.values.flatten ∧ ∃ (i : Nat) (name : String) (authority : Authority),
      (committee.running (firstSize parameters) parameters.faults)[i]? = some (name, authority) ∧
      boot.host ∈ Committee.authorityIps authority ∧
      Supplied committee i name (t.machines boot.host) := by
  obtain ⟨names, u, hprepared, hconfigured⟩ := h.configured
  rw [← hprepared.names_eq] at hnames
  have hknown := @machines_known parameters.toBenchParameters hosts parameters.workers
  have hhosts : ∀ machines ∈ (selectHosts parameters.toBenchParameters hosts).machines
      parameters.workers, ∀ host ∈ machines, ':' ∉ host.toList := fun machines hmachines host hhost =>
    hcolon host (hknown machines hmachines host hhost)
  have hapart := hprepared.apart hnames (machines_apart hdistinct parameters.workers) hhosts
  have hsupplies := hprepared.supplies hnames hapart hconfigured
  obtain ⟨i, name, authority, id, worker, hitem, hworker, rfl⟩ := Committee.mem_clients.mp hboot
  have hip := Committee.transactions_mem_ips hworker
  obtain ⟨hi, hat⟩ := Committee.running_at hitem
  obtain ⟨machines, hmachines, hmem⟩ := hprepared.known hnames hhosts (List.mem_of_getElem? hat) hip
  exact ⟨hknown machines hmachines _ hmem, i, name, authority, hitem, hip,
    hsupplies i name authority hi hat _ hip⟩

theorem remote_starts_only_clients {report : Committee → Int → Int → BenchM Unit}
    (hdistinct : hosts.values.flatten.Nodup)
    (hcolon : ∀ host ∈ hosts.values.flatten, ':' ∉ host.toList)
    (hnames : (keyNames newKey (selectHosts parameters.toBenchParameters hosts).length).Nodup)
    (hs : s.booted = []) :
    ((final ((run fails debug parameters report newKey basePort hosts).run s)).booted = [] ∨
      ∃ committee smaller share, FirstRun newKey basePort
          (selectHosts parameters.toBenchParameters hosts) parameters committee smaller share ∧
        (final ((run fails debug parameters report newKey basePort hosts).run s)).booted <+:
          committee.clients parameters share ∧
        ∀ boot ∈ committee.clients parameters share, boot.host ∈ hosts.values.flatten ∧
          ∃ (i : Nat) (name : String) (authority : Authority),
          (committee.running (firstSize parameters) parameters.faults)[i]? =
            some (name, authority) ∧
          boot.host ∈ Committee.authorityIps authority ∧
          Supplied committee i name ((final ((run fails debug parameters report newKey basePort
            hosts).run s)).machines boot.host)) ∧
    (∀ t, (run fails debug parameters report newKey basePort hosts).run s = .ok () t →
      t.booted = [] ∧ ((selectHosts parameters.toBenchParameters hosts).length = 0 ∨
        parameters.runs ≤ 0)) ∧
    ∀ report', run fails debug parameters report' newKey basePort hosts =
      run fails debug parameters report newKey basePort hosts := by
  have hspec := @run_spec fails debug parameters s report newKey basePort hosts
  refine ⟨?_, fun t hrun => ?_, fun report' => run_report report⟩
  · cases hrun : (run fails debug parameters report newKey basePort hosts).run s with
    | ok _ t => exact .inl ((triple_ok hspec rfl hrun).1.trans hs)
    | error e t =>
      rw [final_error]
      rcases triple_error hspec rfl hrun with ⟨hnone, -⟩ | ⟨committee, v, hdeployed, hended⟩
      · exact .inl (hnone.trans hs)
      · obtain ⟨boots, hboots, hlaunched⟩ := hended.launched
        have hbooted : t.booted = boots := by
          rw [hlaunched.booted, hdeployed.booted, hs, List.nil_append]
        rcases @firstPlanned_clients parameters committee with
          hnone | ⟨smaller, share, hsmaller, hshare, hplanned⟩
        · rw [hnone, List.prefix_nil] at hboots
          exact .inl (hbooted.trans hboots)
        · rw [hplanned] at hboots
          refine .inr ⟨committee, smaller, share, ⟨hdeployed.new, hsmaller, hshare⟩,
            hbooted ▸ hboots, fun boot hboot => ?_⟩
          rw [hlaunched.machines]
          exact supplied_of_deployed hdistinct hcolon hnames hdeployed hboot
  · rw [← hs]
    exact triple_ok hspec rfl hrun

def benchmarking : RemoteParameters where
  toBenchParameters := requesting 0 1 true
  rate := [50]
  txSize := 512
  runs := 2
  rate_ne_nil := List.cons_ne_nil _ _

def idle : Cluster := ⟨fun _ => none, fun _ _ => none, [], 0⟩

def fresh (filename : String) : Key := ⟨filename, ""⟩

theorem remote_starts_only_clients_second :
    ((final ((run (fun k => decide (k = 8)) false benchmarking (fun _ _ _ => pure ()) fresh 5000
        uneven).run idle)).booted = [] ∨
      ∃ committee smaller share, FirstRun fresh 5000
          (selectHosts benchmarking.toBenchParameters uneven) benchmarking committee smaller share ∧
        (final ((run (fun k => decide (k = 8)) false benchmarking
          (fun _ _ _ => pure ()) fresh 5000 uneven).run idle)).booted <+:
            committee.clients benchmarking share ∧
        ∀ boot ∈ committee.clients benchmarking share, boot.host ∈ uneven.values.flatten ∧
          ∃ (i : Nat) (name : String) (authority : Authority),
          (committee.running (firstSize benchmarking) benchmarking.faults)[i]? =
            some (name, authority) ∧
          boot.host ∈ Committee.authorityIps authority ∧
          Supplied committee i name ((final ((run (fun k => decide (k = 8)) false benchmarking
            (fun _ _ _ => pure ()) fresh 5000 uneven).run idle)).machines boot.host)) ∧
    (∀ t, (run (fun k => decide (k = 8)) false benchmarking (fun _ _ _ => pure ()) fresh 5000
        uneven).run idle = .ok () t →
      t.booted = [] ∧ ((selectHosts benchmarking.toBenchParameters uneven).length = 0 ∨
        benchmarking.runs ≤ 0)) ∧
    ∀ report', run (fun k => decide (k = 8)) false benchmarking report' fresh 5000 uneven =
      run (fun k => decide (k = 8)) false benchmarking (fun _ _ _ => pure ()) fresh 5000 uneven :=
  remote_starts_only_clients (by decide) (by decide) (by decide) rfl

theorem machines_length {w : Nat} (hw : parameters.workers = w) :
    ∀ machines ∈ (selectHosts parameters.toBenchParameters hosts).machines parameters.workers,
      machines.length = w + 1 := by
  rw [hw]
  cases hc : parameters.collocate with
  | true =>
    rw [selectHosts_collocate hc]
    split
    · rintro _ ⟨⟩
    · intro machines hmachines
      obtain ⟨host, -, rfl⟩ := List.mem_map.mp hmachines
      rw [List.length_replicate]
      omega
  | false =>
    rw [selectHosts_separate hc]
    split
    · rintro _ ⟨⟩
    · rename_i hlarge
      intro machines hmachines
      obtain ⟨region, hregion, rfl⟩ := List.mem_map.mp hmachines
      have hmem := (sliceTo_initial parameters.maxNodes hosts.items).subset hregion
      have hlen := length_sliceTo (by omega : 0 ≤ parameters.workers + 1) region.2
      have hall := not_not.mp (not_or.mp hlarge).2 region.2 (List.mem_map_of_mem hmem)
      have hle : parameters.workers + 1 ≤ (region.2.length : Int) := of_decide_eq_true hall
      omega

theorem rateShare_ok {rate : Int} {workers : Nat} (hw : 0 < workers) (hrate : 0 ≤ rate)
    (hmax : rate ≤ 2 ^ 64) : ∃ share, rateShare rate workers = .ok share ∧ 0 ≤ share := by
  obtain ⟨n, rfl⟩ := Int.eq_ofNat_of_zero_le hrate
  have hn : n ≤ 2 ^ 64 := by exact_mod_cast hmax
  have habs : ((n : Int) * (Binary64.one : Int)).natAbs = n * Binary64.one := by
    rw [Int.natAbs_mul, Int.natAbs_natCast, Int.natAbs_natCast]
  have hrange : Binary64.InRange ((n : Int) * (Binary64.one : Int)).natAbs workers := by
    refine Binary64.inRange_of_le hw ?_
    rw [habs]
    calc n * Binary64.one ≤ 2 ^ 64 * Binary64.one := Nat.mul_le_mul_right _ hn
      _ ≤ workers * (2 ^ 64 * Binary64.one) := Nat.le_mul_of_pos_left _ hw
  have hunits : 0 ≤ Binary64.rounded ((n : Int) * (Binary64.one : Int)) workers := by
    have hsign : ¬ (n : Int) * (Binary64.one : Int) < 0 :=
      not_lt.mpr (Int.mul_nonneg (Int.natCast_nonneg _) (Int.natCast_nonneg _))
    rw [Binary64.rounded, decide_eq_false hsign, Binary64.signed]
    exact Int.natCast_nonneg _
  rw [rateShare, if_neg (Nat.ne_of_gt hw), Binary64.Double.ofUnits_of_inRange hw hrange]
  refine ⟨_, rfl, ?_⟩
  have hone : 0 < (Binary64.one : Int) := Int.natCast_pos.mpr Binary64.one_pos
  exact Int.neg_nonneg.mpr (Int.ediv_nonpos_of_nonpos_of_neg (Int.neg_nonpos_of_nonneg hunits) hone)

section Uniform

variable {selected : SelectedHosts} {w : Nat}

theorem uniform_new (hnames : (keyNames newKey selected.length).Nodup)
    (hmachines : ∀ machines ∈ selected.machines w, machines.length = w + 1) (hpos : 1 ≤ w)
    (hport : 1024 < basePort) (hselected : selected.length ≠ 0) :
    ∃ committee, Committee.new (.ofList (selected.addresses (keyNames newKey selected.length) w))
      basePort = .ok committee := by
  have hlen : (keyNames newKey selected.length).length = selected.length := by simp [keyNames]
  have hfst := SelectedHosts.addresses_fst hlen w
  have hitems := Dict.ofList_items (hfst.symm ▸ hnames)
  have hne : (Dict.ofList (selected.addresses (keyNames newKey selected.length) w)).items ≠
      [] := by
    rw [hitems]
    intro hnil
    rw [hnil] at hfst
    exact hselected (by rw [← hlen, ← hfst]; rfl)
  have hhosts : ∀ hosts ∈ (Dict.ofList
      (selected.addresses (keyNames newKey selected.length) w)).values, hosts.length = w + 1 := by
    rw [Dict.values, hitems, SelectedHosts.addresses_eq]
    intro hosts hhosts
    obtain ⟨entry, hentry, rfl⟩ := List.mem_map.mp hhosts
    exact hmachines entry.2 (List.of_mem_zip hentry).2
  obtain ⟨committee, hnew, -⟩ := Committee.new_built hne hpos hhosts hport
  exact ⟨committee, hnew⟩

variable {names : List String} {files : Files}

theorem Prepared.size (h : Prepared newKey basePort selected w committee names files)
    (hnames : names.Nodup) : committee.size = selected.length := by
  rw [← h.length_eq, ← h.keys_eq hnames, Dict.keys, List.length_map, Committee.size]

theorem Prepared.workers (h : Prepared newKey basePort selected w committee names files)
    (hnames : names.Nodup)
    (hmachines : ∀ machines ∈ selected.machines w, machines.length = w + 1) :
    ∀ entry ∈ committee.authorities.items, entry.2.workers.length = w := by
  rintro ⟨name, authority⟩ hmem
  have hfst := SelectedHosts.addresses_fst h.length_eq w
  rw [(Committee.new_items h.new).1, Dict.ofList_items (hfst.symm ▸ hnames)] at hmem
  obtain ⟨port, host, hosts, hentry, rfl⟩ := Committee.mem_built hmem
  rw [SelectedHosts.addresses_eq] at hentry
  have hlen := hmachines _ (List.of_mem_zip hentry).2
  have hids := congrArg List.length (Committee.workersAddr_ids 0 (port + 4) hosts)
  rw [List.length_map, List.length_range'] at hids
  exact hids.trans (Nat.succ.inj hlen)

theorem sum_lengths {α β : Type} {xs : List α} {of : α → List β} (h : ∀ x ∈ xs, (of x).length = w) :
    (xs.map fun x => (of x).length).sum = xs.length * w := by
  rw [List.map_congr_left h, List.map_const', List.sum_replicate, smul_eq_mul]

theorem length_clients {share : Int}
    (h : ∀ entry ∈ committee.authorities.items, entry.2.workers.length = w) :
    (committee.clients parameters share).length =
      (committee.running (firstSize parameters) parameters.faults).length * w := by
  rw [Committee.clients, clientBoots, List.length_flatMap, sum_lengths, List.length_zipIdx,
    List.length_map]
  rintro ⟨own, i⟩ hmem
  have hown := List.mem_of_getElem? (List.mem_zipIdx_iff_getElem?.mp hmem)
  obtain ⟨entry, hentry, rfl⟩ := List.mem_map.mp hown
  rw [List.length_map, List.length_map]
  exact h entry (List.mem_of_mem_take hentry)

theorem first_ready (hworkers : ∀ entry ∈ committee.authorities.items, entry.2.workers.length = w)
    (hpos : 1 ≤ w) (hfaults : parameters.faults < committee.size) (hsize : committee.size ≠ 0)
    (htx : 0 < parameters.txSize) (hrate : 0 ≤ firstRate parameters)
    (hmax : firstRate parameters ≤ 2 ^ 64) :
    FirstReady parameters committee ∧
      ∃ smaller share, firstCommittee parameters committee = .ok smaller ∧
        smaller.workers = (min (firstSize parameters) committee.size).toNat * w ∧
        rateShare (firstRate parameters) smaller.workers = .ok share ∧
        firstPlanned parameters committee = committee.clients parameters share := by
  have hfirst := @firstSize_pos parameters
  have hless : parameters.faults < firstSize parameters :=
    parameters.faults_lt _ (List.head_mem _)
  obtain ⟨smaller, hsmaller, hsmall, hvalues⟩ := @Committee.removeNodes_ok committee
    (committee.size - firstSize parameters).toNat (by omega)
  have hgood := Committee.goodNodes_removed (by omega : parameters.faults.toNat <
      committee.size - (committee.size - firstSize parameters).toNat) hsmall hvalues
    fun authority => authority.workers.map fun (id, worker) => (id, worker.transactions)
  have hsum : smaller.workers = smaller.authorities.values.length * w := by
    refine sum_lengths fun authority hmem => ?_
    rw [hvalues] at hmem
    obtain ⟨entry, hentry, rfl⟩ := List.mem_map.mp (List.mem_of_mem_take hmem)
    exact hworkers entry hentry
  have hcount : smaller.workers = (min (firstSize parameters) committee.size).toNat * w := by
    rw [hsum, Dict.values, List.length_map, ← Committee.size, hsmall]
    congr 1
    omega
  have hsome : 0 < smaller.workers := by
    rw [hcount]
    exact Nat.mul_pos (by omega) hpos
  obtain ⟨share, hshare, hnonneg⟩ := rateShare_ok hsome hrate hmax
  refine ⟨⟨smaller, hsmaller, _, share, hgood, hshare, htx, hnonneg⟩, smaller, share, hsmaller,
    hcount, hshare, ?_⟩
  rw [firstPlanned, firstCommittee, hsmaller]
  change planned parameters smaller (firstRate parameters) = _
  rw [planned_eq hgood hshare, workersAddresses_removed hfirst hsmaller hgood]
  rfl

end Uniform

theorem remote_run_ends {report : Committee → Int → Int → BenchM Unit} {w : Nat}
    (hsmooth : Smooth fails) (hw : parameters.workers = w) (hpos : 1 ≤ w) (hport : 1024 < basePort)
    (hnames : (keyNames newKey (selectHosts parameters.toBenchParameters hosts).length).Nodup)
    (hselected : (selectHosts parameters.toBenchParameters hosts).length ≠ 0)
    (hfaults : parameters.faults < (selectHosts parameters.toBenchParameters hosts).length)
    (hruns : 0 < parameters.runs) (htx : 0 < parameters.txSize)
    (hrate : 0 ≤ firstRate parameters) (hmax : firstRate parameters ≤ 2 ^ 64) :
    ∃ (committee smaller : Committee) (share : Int) (t : Cluster),
      FirstRun newKey basePort (selectHosts parameters.toBenchParameters hosts) parameters committee
        smaller share ∧
      smaller.workers = (min (firstSize parameters)
        (selectHosts parameters.toBenchParameters hosts).length).toNat * w ∧
      (run fails debug parameters report newKey basePort hosts).run s =
        .error (.missing ["app_api", "abci_api"]) t ∧
      t.booted = s.booted ++ committee.clients parameters share ∧
      ((committee.clients parameters share).length : Int) = (min (firstSize parameters)
        (selectHosts parameters.toBenchParameters hosts).length - max parameters.faults 0) * w := by
  have hspec := @run_spec fails debug parameters s report newKey basePort hosts
  have hmachines := @machines_length parameters hosts w hw
  rw [hw] at hmachines
  have hconfigurable : Configurable newKey basePort
      (selectHosts parameters.toBenchParameters hosts) parameters.toBenchParameters := by
    refine ⟨?_, hfaults, hselected⟩
    rw [hw]
    exact uniform_new hnames hmachines hpos hport hselected
  cases hrun : (run fails debug parameters report newKey basePort hosts).run s with
  | ok _ t =>
    rcases (triple_ok hspec rfl hrun).2 with hnone | hnone
    · exact absurd hnone hselected
    · omega
  | error e t =>
    rcases triple_error hspec rfl hrun with ⟨-, hnot⟩ | ⟨committee, v, hdeployed, hended⟩
    · exact absurd hconfigurable (hnot hsmooth)
    · have hnew := hdeployed.new
      obtain ⟨names, u, hprepared, -⟩ := hdeployed.configured
      rw [← hprepared.names_eq] at hnames
      rw [hw] at hprepared
      have hsize := hprepared.size hnames
      have hworkers := hprepared.workers hnames hmachines
      rw [← hsize] at hselected hfaults
      obtain ⟨hready, smaller, share, hsmaller, hcount, hshare, hplanned⟩ :=
        first_ready hworkers hpos hfaults hselected htx hrate hmax
      obtain ⟨rfl, hlaunched⟩ := hended.finished hsmooth hready
      rw [hplanned] at hlaunched
      refine ⟨committee, smaller, share, t, ⟨hnew, hsmaller, hshare⟩, hsize ▸ hcount, rfl,
        hlaunched.booted.trans (by rw [hdeployed.booted]), ?_⟩
      have hless : parameters.faults < firstSize parameters :=
        parameters.faults_lt _ (List.head_mem _)
      have hfirst := @firstSize_pos parameters
      have hitems : committee.authorities.items.length = committee.size := rfl
      rw [length_clients hworkers, Committee.running, List.length_take, hitems, ← hsize]
      push_cast
      congr 1
      omega

theorem remote_run_ends_two :
    ∃ (committee smaller : Committee) (share : Int) (t : Cluster),
      FirstRun fresh 5000 (selectHosts benchmarking.toBenchParameters uneven) benchmarking committee
        smaller share ∧
      smaller.workers = (min (firstSize benchmarking)
        (selectHosts benchmarking.toBenchParameters uneven).length).toNat * 1 ∧
      (run (fun _ => false) false benchmarking (fun _ _ _ => pure ()) fresh 5000 uneven).run idle =
        .error (.missing ["app_api", "abci_api"]) t ∧
      t.booted = idle.booted ++ committee.clients benchmarking share ∧
      ((committee.clients benchmarking share).length : Int) = (min (firstSize benchmarking)
        (selectHosts benchmarking.toBenchParameters uneven).length -
          max benchmarking.faults 0) * (1 : Nat) :=
  remote_run_ends (fun _ => rfl) rfl le_rfl (by decide) (by decide) (by decide) (by decide)
    (by decide) (by decide) (by decide) (by decide)

end Bench

end Narwhal.Benchmark
