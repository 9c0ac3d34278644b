import StarknetSequencer.Narwhal.Uploads

open Std.Do

set_option mvcgen.warning false

namespace Narwhal.Benchmark

open Effect

structure Launched (boots : List Boot) (s t : Cluster) : Prop where
  machines : t.machines = s.machines
  booted : t.booted = s.booted ++ boots

namespace Launched

variable {boots others : List Boot} {s t u : Cluster}

theorem refl (s : Cluster) : Launched [] s s := ⟨rfl, (List.append_nil _).symm⟩

theorem counted (s : Cluster) : Launched [] s s.counted := ⟨rfl, (List.append_nil _).symm⟩

theorem boot (host : String) (program : Program) (s : Cluster) :
    Launched [⟨host, program⟩] s (Cluster.boot host program s.counted) := ⟨rfl, rfl⟩

theorem trans (h : Launched boots s t) (h' : Launched others t u) :
    Launched (boots ++ others) s u :=
  ⟨h'.machines.trans h.machines, by rw [h'.booted, h.booted, List.append_assoc]⟩

theorem counted_after (h : Launched boots s t) : Launched boots s t.counted := by
  have hnext := h.trans (.counted t)
  rwa [List.append_nil] at hnext

end Launched

def Smooth (fails : Nat → Bool) : Prop := ∀ k, fails k = false

-- an end that `Bench.run` does not catch, before or after the whole plan
structure Stopped (plan : List Boot) (s : Cluster) (e : Exception) (t : Cluster) : Prop where
  uncaught : e.caught = false
  launched : ∃ boots, boots <+: plan ∧ Launched boots s t

structure Ended (fails : Nat → Bool) (ready : Prop) (plan : List Boot) (s : Cluster)
    (e : Exception) (t : Cluster) : Prop extends Stopped plan s e t where
  finished : Smooth fails → ready → e = .missing ["app_api", "abci_api"] ∧ Launched plan s t

theorem Launched.stopped {boots plan : List Boot} {s t : Cluster} {e : Exception}
    (h : Launched boots s t) (hplan : boots <+: plan) (he : e.caught = false) :
    Stopped plan s e t := ⟨he, boots, hplan, h⟩

def clientBoot (parameters : RemoteParameters) (share : Int) (nodes : List String) (i : Nat)
    (entry : Nat × String) : Boot where
  host := Committee.ip entry.2
  program := .client {
    address := entry.2, size := parameters.txSize, rate := share, nodes
    logFile := PathMaker.clientLogFile i entry.1 }

-- the clients of all authorities, each of which knows every worker
def clientBoots (parameters : RemoteParameters) (share : Int)
    (addresses : List (List (Nat × String))) : List Boot :=
  addresses.zipIdx.flatMap fun entry =>
    entry.1.map (clientBoot parameters share (addresses.flatten.map Prod.snd) entry.2)

structure Sized (parameters : RemoteParameters) (share : Int) : Prop where
  size : 0 < parameters.txSize
  rate : 0 ≤ share

theorem flatMap_initial {α β : Type} {f : α → List β} {done rest : List α} {a : α} {bs : List β}
    (h : bs <+: f a) : done.flatMap f ++ bs <+: (done ++ a :: rest).flatMap f := by
  rw [List.flatMap_append, List.flatMap_cons, ← List.append_assoc, List.append_assoc]
  exact (List.prefix_append_right_inj _).mpr (h.trans (List.prefix_append _ _))

namespace Bench

variable {fails : Nat → Bool} {debug : Bool} {parameters : RemoteParameters} {s : Cluster}

theorem runClient_ok {address logFile : String} {size rate : Int} {nodes : List String}
    {client : RunClient} (h : CommandMaker.runClient address size rate nodes logFile = .ok client) :
    client = ⟨address, size, rate, nodes, logFile⟩ := by
  rw [CommandMaker.runClient] at h
  split at h
  · cases h
  · split at h
    · cases h
    · cases h
      rfl

theorem runClient_error {address logFile : String} {share : Int} {nodes : List String}
    {e : Exception}
    (h : CommandMaker.runClient address parameters.txSize share nodes logFile = .error e) :
    e = .config .assertion ∧ ¬ Sized parameters share := by
  rw [CommandMaker.runClient] at h
  split at h
  · rename_i hsize
    cases h
    exact ⟨rfl, fun hsized => not_lt.mpr hsize hsized.size⟩
  · split at h
    · rename_i hrate
      cases h
      exact ⟨rfl, fun hsized => not_lt.mpr hsized.rate hrate⟩
    · cases h

@[spec]
theorem bootClientsOf_spec {share : Int} {nodes : List String} {i : Nat}
    {own : List (Nat × String)} :
    ⦃fun u => ⌜u = s⌝⦄ bootClientsOf fails parameters share nodes i own
    ⦃post⟨fun _ t => ⌜Launched (own.map (clientBoot parameters share nodes i)) s t⌝,
      fun e t => ⌜Stopped (own.map (clientBoot parameters share nodes i)) s e t ∧
        (Smooth fails → ¬ Sized parameters share)⌝⟩⦄ := by
  have hinitial : ∀ {done rest : List (Nat × String)}, own = done ++ rest →
      done.map (clientBoot parameters share nodes i) <+:
        own.map (clientBoot parameters share nodes i) := fun hsplit =>
    (List.IsPrefix.map (clientBoot parameters share nodes i) ⟨_, hsplit.symm⟩)
  mvcgen [bootClientsOf, backgroundRun] invariants
  · post⟨fun (⟨done, _, _⟩, _) t =>
        ⌜Launched (done.map (clientBoot parameters share nodes i)) s t⌝,
      fun e t => ⌜Stopped (own.map (clientBoot parameters share nodes i)) s e t ∧
        (Smooth fails → ¬ Sized parameters share)⌝⟩
  case vc1 =>
    rename_i hdone _ _ hclient _ _ hboot
    obtain ⟨hclient, rfl⟩ := hclient
    obtain ⟨-, rfl⟩ := hboot
    rw [runClient_ok hclient, List.map_append]
    exact hdone.trans (.boot _ _ _)
  case vc2 =>
    rename_i hsplit _ _ hdone _ _ hclient _
    obtain ⟨-, rfl⟩ := hclient
    rintro _ hfails rfl rfl
    exact ⟨hdone.counted_after.stopped (hinitial hsplit) rfl,
      fun hsmooth => absurd hfails (by simp [hsmooth _])⟩
  case vc3 =>
    rename_i hsplit _ _ hdone _
    rintro _ hclient rfl
    obtain ⟨rfl, hsized⟩ := runClient_error hclient
    exact ⟨hdone.stopped (hinitial hsplit) rfl, fun _ => hsized⟩
  case vc4 =>
    rename_i hs
    subst hs
    exact .refl _

@[spec]
theorem bootClients_spec {share : Int} {addresses : List (List (Nat × String))} :
    ⦃fun u => ⌜u = s⌝⦄ bootClients fails parameters share addresses
    ⦃post⟨fun _ t => ⌜Launched (clientBoots parameters share addresses) s t⌝,
      fun e t => ⌜Stopped (clientBoots parameters share addresses) s e t ∧
        (Smooth fails → ¬ Sized parameters share)⌝⟩⦄ := by
  mvcgen [bootClients] invariants
  · post⟨fun (⟨done, _, _⟩, _) t => ⌜Launched (done.flatMap fun entry => entry.1.map
        (clientBoot parameters share (addresses.flatten.map Prod.snd) entry.2)) s t⌝,
      fun e t => ⌜Stopped (clientBoots parameters share addresses) s e t ∧
        (Smooth fails → ¬ Sized parameters share)⌝⟩
  case vc1 =>
    rename_i hdone _ _ hnext
    rw [List.flatMap_append, List.flatMap_singleton]
    exact hdone.trans hnext
  case vc2 =>
    rename_i hsplit _ _ hdone _
    rintro t hstopped hsized
    obtain ⟨boots, hboots, hlaunched⟩ := hstopped.launched
    refine ⟨(hdone.trans hlaunched).stopped ?_ hstopped.uncaught, hsized⟩
    rw [clientBoots, hsplit]
    exact flatMap_initial hboots
  case vc3 =>
    rename_i hs
    subst hs
    exact .refl _

-- the call of `run_primary` ends the loop at the first authority
@[spec]
theorem bootPrimaries_spec {addresses : List String} :
    ⦃fun u => ⌜u = s⌝⦄ bootPrimaries fails debug addresses
    ⦃post⟨fun _ _ => ⌜addresses = []⌝,
      fun e t => ⌜e = .missing ["app_api", "abci_api"] ∧ t = s⌝⟩⦄ := by
  mvcgen [bootPrimaries] invariants
  · post⟨fun (⟨done, _, _⟩, _) t => ⌜t = s ∧ done = []⌝,
      fun e t => ⌜e = .missing ["app_api", "abci_api"] ∧ t = s⌝⟩
  case vc1 =>
    rename_i hprimary
    cases hprimary.1
  case vc2 =>
    rename_i hdone _
    rintro _ hprimary rfl
    cases hprimary
    exact ⟨rfl, hdone.1⟩
  case vc4 =>
    rename_i hdone
    exact List.zipIdx_eq_nil_iff.mp hdone.2

theorem rateShare_error {rate : Int} {workers : Nat} {e : Exception}
    (h : rateShare rate workers = .error e) : e.caught = false := by
  rw [rateShare] at h
  split at h
  · cases h
    rfl
  · split at h
    · cases h
    · cases h
      rfl

theorem goodNodes_ne_nil {α : Type} {committee : Committee} {faults : Nat} {of : Authority → α}
    {xs : List α} (h : committee.goodNodes faults of = .ok xs) : xs ≠ [] := by
  obtain ⟨_, hassert, h⟩ := bind_ok_iff.mp h
  cases h
  have hlt : faults < committee.size := of_decide_eq_true (assert_ok hassert)
  intro hnil
  have hlen := congrArg List.length hnil
  rw [List.length_map, List.length_take, Dict.values, List.length_map,
    ← Committee.size, List.length_nil] at hlen
  omega

variable {committee : Committee} {rate : Int}

def planned (parameters : RemoteParameters) (committee : Committee) (rate : Int) : List Boot :=
  match committee.workersAddresses parameters.faults.toNat, rateShare rate committee.workers with
  | .ok addresses, .ok share => clientBoots parameters share addresses
  | _, _ => []

def Ready (parameters : RemoteParameters) (committee : Committee) (rate : Int) : Prop :=
  ∃ addresses share, committee.workersAddresses parameters.faults.toNat = .ok addresses ∧
    rateShare rate committee.workers = .ok share ∧ Sized parameters share

theorem planned_eq {addresses : List (List (Nat × String))} {share : Int}
    (haddresses : committee.workersAddresses parameters.faults.toNat = .ok addresses)
    (hshare : rateShare rate committee.workers = .ok share) :
    planned parameters committee rate = clientBoots parameters share addresses := by
  rw [planned, haddresses, hshare]

theorem Ready.sized {share : Int} (h : Ready parameters committee rate)
    (hshare : rateShare rate committee.workers = .ok share) : Sized parameters share := by
  obtain ⟨_, _, -, hready, hsized⟩ := h
  cases hshare.symm.trans hready
  exact hsized

-- an end before the first client
theorem ended_early {ready : Prop} {plan : List Boot} {e : Exception} {t : Cluster}
    (h : Launched [] s t) (he : e.caught = false) (hnot : Smooth fails → ¬ ready) :
    Ended fails ready plan s e t :=
  ⟨h.stopped List.nil_prefix he, fun hsmooth hready => absurd hready (hnot hsmooth)⟩

@[spec]
theorem runSingle_spec :
    ⦃fun u => ⌜u = s⌝⦄ runSingle fails debug parameters committee rate
    ⦃post⟨fun _ _ => ⌜False⌝, fun e t => ⌜Ended fails (Ready parameters committee rate)
      (planned parameters committee rate) s e t⌝⟩⦄ := by
  mvcgen [runSingle, kill]
  case vc1 =>
    rename_i hprimaries _ _ hnil
    exact absurd hnil (goodNodes_ne_nil (mapError_ok hprimaries.1))
  case vc2 =>
    rename_i hs _ _ hkill _ _ haddresses _ _ hshare _ _ hclients _ _ hprimaries e _
    subst hs
    obtain ⟨-, rfl⟩ := hkill
    obtain ⟨haddresses, rfl⟩ := haddresses
    obtain ⟨hshare, rfl⟩ := hshare
    obtain ⟨-, rfl⟩ := hprimaries
    rintro rfl rfl
    have hlaunched := (Launched.counted _).trans hclients
    rw [List.nil_append, ← planned_eq (mapError_ok haddresses) hshare] at hlaunched
    exact ⟨hlaunched.stopped List.prefix_rfl rfl, fun _ _ => ⟨rfl, hlaunched⟩⟩
  case vc3 =>
    rename_i haddresses _ _ _ _ _ _ e _
    intro hprimaries
    obtain ⟨_, herror, -⟩ := mapError_error hprimaries
    obtain ⟨_, hassert, -⟩ := bind_ok_iff.mp (mapError_ok haddresses.1)
    have hlt : parameters.faults.toNat < committee.size :=
      of_decide_eq_true (assert_ok hassert)
    rw [Committee.primaryAddresses, Committee.goodNodes_ok hlt] at herror
    cases herror
  case vc4 =>
    rename_i hs _ _ hkill _ _ haddresses _ _ hshare e _
    subst hs
    obtain ⟨-, rfl⟩ := hkill
    obtain ⟨haddresses, rfl⟩ := haddresses
    obtain ⟨hshare, rfl⟩ := hshare
    rintro hstopped hsized
    obtain ⟨boots, hboots, hlaunched⟩ := hstopped.launched
    rw [← planned_eq (mapError_ok haddresses) hshare] at hboots
    exact ⟨((Launched.counted _).trans hlaunched).stopped hboots hstopped.uncaught,
      fun hsmooth hready => absurd (hready.sized hshare) (hsized hsmooth)⟩
  case vc5 =>
    rename_i hs _ _ hkill _ _ haddresses e _
    subst hs
    obtain ⟨-, rfl⟩ := hkill
    obtain ⟨-, rfl⟩ := haddresses
    rintro hshare rfl
    refine ended_early (.counted _) (rateShare_error hshare) fun _ hready => ?_
    obtain ⟨_, _, -, hok, -⟩ := hready
    cases hok.symm.trans hshare
  case vc6 =>
    rename_i hs _ _ hkill e _
    subst hs
    obtain ⟨-, rfl⟩ := hkill
    rintro haddresses rfl
    obtain ⟨_, herror, rfl⟩ := mapError_error haddresses
    refine ended_early (.counted _) rfl fun _ hready => ?_
    obtain ⟨_, _, hok, -⟩ := hready
    cases hok.symm.trans herror
  case vc7 =>
    rename_i hs e _
    subst hs
    rintro hfails rfl rfl
    exact ended_early (.counted _) rfl fun hsmooth => absurd hfails (by simp [hsmooth _])

variable {report : Committee → Int → Int → BenchM Unit} {n : Int}

@[spec]
theorem runOnce_spec :
    ⦃fun u => ⌜u = s⌝⦄ runOnce fails debug parameters committee report n rate
    ⦃post⟨fun _ _ => ⌜False⌝, fun e t => ⌜Ended fails (Ready parameters committee rate)
      (planned parameters committee rate) s e t⌝⟩⦄ := by
  mvcgen [runOnce]
  case vc1 => exact fun _ h => h.elim
  case vc2 =>
    rename_i hcaught
    intro hended
    rw [hended.uncaught] at hcaught
    cases hcaught
  case vc3 =>
    rename_i hs _ _ _ hended
    subst hs
    exact hended

@[spec]
theorem runRate_spec :
    ⦃fun u => ⌜u = s⌝⦄ runRate fails debug parameters committee report n rate
    ⦃post⟨fun _ t => ⌜t = s ∧ parameters.runs ≤ 0⌝,
      fun e t => ⌜Ended fails (Ready parameters committee rate)
        (planned parameters committee rate) s e t ∧ 0 < parameters.runs⌝⟩⦄ := by
  mvcgen [runRate] invariants
  · post⟨fun (⟨done, _, _⟩, _) t => ⌜t = s ∧ done = []⌝,
      fun e t => ⌜Ended fails (Ready parameters committee rate)
        (planned parameters committee rate) s e t ∧ 0 < parameters.runs⌝⟩
  case vc2 =>
    rename_i hsplit _ _ hdone _
    obtain ⟨rfl, -⟩ := hdone
    have hsome : parameters.runs.toNat ≠ 0 := by
      intro hnone
      rw [hnone] at hsplit
      simp at hsplit
    exact fun _ h => ⟨h, by omega⟩
  case vc4 =>
    rename_i hdone
    have hnone : parameters.runs.toNat = 0 := List.range_eq_nil.mp hdone.2
    exact ⟨hdone.1, by omega⟩

def firstRate (parameters : RemoteParameters) : Int := parameters.rate.head parameters.rate_ne_nil

@[spec]
theorem runRates_spec :
    ⦃fun u => ⌜u = s⌝⦄ runRates fails debug parameters committee report n
    ⦃post⟨fun _ t => ⌜t = s ∧ parameters.runs ≤ 0⌝,
      fun e t => ⌜Ended fails (Ready parameters committee (firstRate parameters))
        (planned parameters committee (firstRate parameters)) s e t ∧ 0 < parameters.runs⌝⟩⦄ := by
  mvcgen [runRates] invariants
  · post⟨fun (⟨done, _, _⟩, _) t => ⌜t = s ∧ (done = [] ∨ parameters.runs ≤ 0)⌝,
      fun e t => ⌜Ended fails (Ready parameters committee (firstRate parameters))
        (planned parameters committee (firstRate parameters)) s e t ∧ 0 < parameters.runs⌝⟩
  case vc1 =>
    rename_i hdone _ _ hrate
    exact ⟨hrate.1.trans hdone.1, .inr hrate.2⟩
  case vc2 =>
    rename_i rate _ hsplit _ _ hdone _
    obtain ⟨rfl, hdone⟩ := hdone
    rintro t hended hruns
    have hfirst : firstRate parameters = rate := by
      rw [hdone.resolve_right (by omega), List.nil_append] at hsplit
      simp [firstRate, hsplit]
    rw [hfirst]
    exact ⟨hended, hruns⟩
  case vc3 =>
    rename_i hs
    exact ⟨hs, .inl trivial⟩
  case vc4 =>
    rename_i hdone
    exact ⟨hdone.1, hdone.2.resolve_left parameters.rate_ne_nil⟩

def firstSize (parameters : RemoteParameters) : Int := parameters.nodes.head parameters.nodes_ne_nil

-- the committee without the nodes that the first size leaves out
def firstCommittee (parameters : RemoteParameters) (committee : Committee) :
    Except Failure Committee :=
  committee.removeNodes (committee.size - firstSize parameters).toNat

def FirstReady (parameters : RemoteParameters) (committee : Committee) : Prop :=
  ∃ smaller, firstCommittee parameters committee = .ok smaller ∧
    Ready parameters smaller (firstRate parameters)

def firstPlanned (parameters : RemoteParameters) (committee : Committee) : List Boot :=
  match firstCommittee parameters committee with
  | .ok smaller => planned parameters smaller (firstRate parameters)
  | .error _ => []

theorem ended_of_smaller {smaller : Committee} {e : Exception} {t : Cluster}
    (hsmaller : firstCommittee parameters committee = .ok smaller)
    (h : Ended fails (Ready parameters smaller (firstRate parameters))
      (planned parameters smaller (firstRate parameters)) s e t) :
    Ended fails (FirstReady parameters committee) (firstPlanned parameters committee) s e t := by
  have hplanned : firstPlanned parameters committee =
      planned parameters smaller (firstRate parameters) := by
    rw [firstPlanned, hsmaller]
  rw [hplanned]
  refine ⟨h.toStopped, fun hsmooth hready => h.finished hsmooth ?_⟩
  obtain ⟨_, hok, hready⟩ := hready
  cases hsmaller.symm.trans hok
  exact hready

@[spec]
theorem runSizes_spec :
    ⦃fun u => ⌜u = s⌝⦄ runSizes fails debug parameters committee report
    ⦃post⟨fun _ t => ⌜t = s ∧ parameters.runs ≤ 0⌝,
      fun e t => ⌜Ended fails (FirstReady parameters committee)
        (firstPlanned parameters committee) s e t⌝⟩⦄ := by
  mvcgen [runSizes] invariants
  · post⟨fun (⟨done, _, _⟩, _) t => ⌜t = s ∧ (done = [] ∨ parameters.runs ≤ 0)⌝,
      fun e t => ⌜Ended fails (FirstReady parameters committee)
        (firstPlanned parameters committee) s e t⌝⟩
  case vc1 =>
    rename_i hdone _ _ hsmaller _ _ hrates
    obtain ⟨-, rfl⟩ := hsmaller
    exact ⟨hrates.1.trans hdone.1, .inr hrates.2⟩
  case vc2 =>
    rename_i n _ hsplit _ _ hdone _ _ hsmaller _
    obtain ⟨rfl, hdone⟩ := hdone
    obtain ⟨hsmaller, rfl⟩ := hsmaller
    rintro t hended hruns
    have hfirst : firstSize parameters = n := by
      rw [hdone.resolve_right (by omega), List.nil_append] at hsplit
      simp [firstSize, hsplit]
    refine ended_of_smaller ?_ hended
    rw [firstCommittee, hfirst]
    exact mapError_ok hsmaller
  case vc3 =>
    rename_i n _ hsplit _ _ hdone _
    obtain ⟨rfl, -⟩ := hdone
    rintro _ hsmaller rfl
    obtain ⟨_, herror, rfl⟩ := mapError_error hsmaller
    refine ended_early (.refl _) rfl fun _ hready => ?_
    obtain ⟨_, hfirst, -⟩ := hready
    obtain ⟨_, hassert, -⟩ := bind_ok_iff.mp hfirst
    have hlt : (committee.size - firstSize parameters).toNat < committee.size :=
      of_decide_eq_true (assert_ok hassert)
    have hn : 0 < n := parameters.nodes_pos n (by
      rw [hsplit]
      exact List.mem_append_right _ List.mem_cons_self)
    obtain ⟨_, hok, -⟩ := @Committee.removeNodes_ok committee (committee.size - n).toNat (by omega)
    cases hok.symm.trans herror
  case vc4 =>
    rename_i hs
    exact ⟨hs, .inl trivial⟩
  case vc5 =>
    rename_i hdone
    exact ⟨hdone.1, hdone.2.resolve_left parameters.nodes_ne_nil⟩

variable {newKey : String → Key} {basePort : Nat} {hosts : OrderedDict (List String)}

-- the machines have their configuration before the first client is started
structure Deployed (newKey : String → Key) (basePort : Nat) (selected : SelectedHosts)
    (parameters : RemoteParameters) (committee : Committee) (s v : Cluster) : Prop where
  booted : v.booted = s.booted
  configured : ∃ names u,
    Prepared newKey basePort selected parameters.workers committee names u.files ∧
    Configured committee (sliceTo (names.length - parameters.faults) names).zipIdx u v

theorem run_spec :
    ⦃fun u => ⌜u = s⌝⦄ run fails debug parameters report newKey basePort hosts
    ⦃post⟨fun _ t => ⌜t.booted = s.booted ∧
        ((selectHosts parameters.toBenchParameters hosts).length = 0 ∨ parameters.runs ≤ 0)⌝,
      fun e t => ⌜t.booted = s.booted ∧ (Smooth fails → ¬ Configurable newKey basePort
          (selectHosts parameters.toBenchParameters hosts) parameters.toBenchParameters) ∨
        ∃ committee v, Deployed newKey basePort (selectHosts parameters.toBenchParameters hosts)
          parameters committee s v ∧
          Ended fails (FirstReady parameters committee) (firstPlanned parameters committee) v e t⌝⟩⦄ := by
  mvcgen [run, update]
  case vc1 =>
    rename_i hnone _ hs
    subst hs
    exact ⟨rfl, .inl hnone⟩
  case vc2 =>
    rename_i hs _ _ hupdate _ _ hconfig _ _
    subst hs
    obtain ⟨-, rfl⟩ := hupdate
    rintro rfl hruns
    exact ⟨hconfig.1, .inr hruns⟩
  case vc3 =>
    rename_i hs _ _ hupdate _ _ hconfig _ _
    subst hs
    obtain ⟨-, rfl⟩ := hupdate
    exact fun h => .inr ⟨_, _, ⟨hconfig.1, hconfig.2⟩, h⟩
  case vc4 =>
    rename_i hs _ _ hupdate _ _
    subst hs
    obtain ⟨-, rfl⟩ := hupdate
    rintro hbooted hcause
    refine .inl ⟨hbooted, fun hsmooth hready => ?_⟩
    rcases hcause with ⟨k, hfails⟩ | hnot
    · exact absurd hfails (by simp [hsmooth k])
    · exact hnot hready
  case vc5 =>
    rename_i hs _ _
    subst hs
    rintro hfails - rfl
    exact .inl ⟨rfl, fun hsmooth => absurd hfails (by simp [hsmooth _])⟩

theorem runOnce_report (report' : Committee → Int → Int → BenchM Unit) :
    runOnce fails debug parameters committee report n rate =
      runOnce fails debug parameters committee report' n rate := by
  have hnever : (runSingle fails debug parameters committee rate >>= fun _ => report committee n rate) =
      (runSingle fails debug parameters committee rate >>= fun _ => report' committee n rate) := by
    refine never_bind (fun s a t hrun => ?_) _ _
    exact triple_ok (@runSingle_spec fails debug parameters s committee rate) rfl hrun
  rw [runOnce, runOnce, hnever]

theorem run_report (report' : Committee → Int → Int → BenchM Unit) :
    run fails debug parameters report newKey basePort hosts =
      run fails debug parameters report' newKey basePort hosts := by
  simp only [run, runSizes, runRates, runRate, runOnce_report report']

end Bench

end Narwhal.Benchmark
