import StarknetSequencer.Effect.Except
import StarknetSequencer.Narwhal.Engine
import StarknetSequencer.Narwhal.Testbed
import StarknetSequencer.Wire.Decimal

namespace Narwhal.Benchmark

open Wire Effect

structure Wired (nodes workers faults : Nat) (testbed : Testbed) : Prop where
  primaries : testbed.primaries.length = nodes - faults
  workers : testbed.workers.map List.length = List.replicate (nodes - faults) workers
  primary : ∀ (i : Nat) (primary : RunPrimary), testbed.primaries[i]? = some primary →
    ∃ name, ∃ authority : Authority, ∃ key : Key,
    testbed.committee.authorities.items[i]? = some (name, authority) ∧
    testbed.files primary.keys = some (.key key) ∧ key.name = name ∧
    primary.appApi = authority.primary.apiAbci ∧ primary.abciApi = authority.primary.apiRpc
  worker : ∀ (i j : Nat) (primary : RunPrimary) (booted : List RunWorker) (worker : RunWorker),
    testbed.primaries[i]? = some primary →
    testbed.workers[i]? = some booted → booted[j]? = some worker →
    worker.keys = primary.keys ∧ worker.id = j ∧
    ∀ (engine : Engine) (id : UInt32), engine.storePath = primary.store → id.toNat = j →
      engine.workerDb id = worker.store
  stores : (testbed.primaries.map RunPrimary.store ++
    testbed.workers.flatten.map RunWorker.store).Nodup

namespace PathMaker

theorem keyFile_toList (i : Nat) :
    (keyFile i).toList = ".node-".toList ++ (i.repr.toList ++ ".json".toList) := by
  simp only [keyFile, String.toList_append, List.append_assoc]
  rfl

theorem keyFile_apart (i : Nat) : keyFile i ≠ committeeFile ∧ keyFile i ≠ parametersFile := by
  constructor <;>
  · intro h
    have hlist := congrArg String.toList h
    rw [keyFile_toList] at hlist
    exact absurd (List.cons.inj (List.cons.inj hlist).2).1 (by decide)

theorem dbPath_none_toList (i : Nat) :
    (dbPath i none).toList = ".db-".toList ++ i.repr.toList := by
  simp only [dbPath, String.toList_append, List.append_assoc]
  exact congrArg (".db-".toList ++ ·) (List.append_nil _)

theorem dbPath_some_toList (i j : Nat) :
    (dbPath i (some j)).toList = ".db-".toList ++ (i.repr.toList ++ '-' :: j.repr.toList) := by
  simp only [dbPath, String.toList_append, List.append_assoc]
  rfl

theorem dash_not_digit (n : Nat) : '-' ∉ n.repr.toList := fun h =>
  absurd (natRepr_digit h) (by decide)

theorem dbPath_inj {i i' : Nat} {j j' : Option Nat} (h : dbPath i j = dbPath i' j') :
    i = i' ∧ j = j' := by
  have hlist := congrArg String.toList h
  have happart (i i' j : Nat) : i.repr.toList ≠ i'.repr.toList ++ '-' :: j.repr.toList := by
    intro heq
    apply dash_not_digit i
    rw [heq]
    simp
  cases j with
  | none =>
    cases j' with
    | none =>
      rw [dbPath_none_toList, dbPath_none_toList] at hlist
      have hi := natRepr_inj (String.toList_inj.mp (List.append_cancel_left hlist))
      exact ⟨hi, rfl⟩
    | some j' =>
      rw [dbPath_none_toList, dbPath_some_toList] at hlist
      exact absurd (List.append_cancel_left hlist) (happart i i' j')
  | some j =>
    cases j' with
    | none =>
      rw [dbPath_none_toList, dbPath_some_toList] at hlist
      exact absurd (List.append_cancel_left hlist).symm (happart i' i j)
    | some j' =>
      rw [dbPath_some_toList, dbPath_some_toList] at hlist
      obtain ⟨hi, hj⟩ := cut_inj (dash_not_digit i) (dash_not_digit i')
        (List.append_cancel_left hlist)
      rw [natRepr_inj (String.toList_inj.mp hi), natRepr_inj (String.toList_inj.mp hj)]
      exact ⟨rfl, rfl⟩

-- `Engine::worker_db` and `PathMaker.db_path` write the same path
theorem workerDb_eq_dbPath {engine : Engine} {i : Nat} (h : engine.storePath = dbPath i none)
    (id : UInt32) : engine.workerDb id = dbPath i (some id.toNat) := by
  apply String.toList_inj.mp
  rw [dbPath_some_toList, Engine.workerDb, h, String.toList_append, String.toList_append,
    dbPath_none_toList, List.append_assoc, List.append_assoc]
  rfl

end PathMaker

namespace Committee

theorem workersAddr_ids (j port : Nat) (hosts : List String) :
    (workersAddr j port hosts).map Prod.fst = List.range' j hosts.length := by
  induction hosts generalizing j port with
  | nil => rfl
  | cons host hosts ih => rw [workersAddr, List.map_cons, ih, List.length_cons, List.range'_succ]

theorem addAuthorities_ok {workers : Nat} (port : Nat) (authorities : OrderedDict Authority)
    {addresses : List (String × List String)}
    (hnames : (authorities.keys ++ addresses.map Prod.fst).Nodup)
    (hhosts : ∀ entry ∈ addresses, entry.2.length = 1 + workers) :
    ∃ added, addAuthorities port authorities addresses = .ok added ∧
      added.keys = authorities.keys ++ addresses.map Prod.fst ∧
      ∀ authority ∈ added.values, authority ∈ authorities.values ∨
        authority.workers.map Prod.fst = List.range workers := by
  induction addresses generalizing port authorities with
  | nil => exact ⟨authorities, rfl, (List.append_nil _).symm, fun _ h => .inl h⟩
  | cons entry addresses ih =>
    obtain ⟨name, hosts⟩ := entry
    rw [List.forall_mem_cons] at hhosts
    cases hosts with
    | nil =>
      have hlen : 0 = 1 + workers := hhosts.1
      omega
    | cons host hosts =>
      have hlen : hosts.length = workers := by
        have hsucc : hosts.length + 1 = 1 + workers := hhosts.1
        omega
      rw [List.map_cons, List.nodup_append] at hnames
      have hnew : name ∉ authorities.keys := fun hmem =>
        hnames.2.2 _ hmem _ List.mem_cons_self rfl
      let authority : Authority := ⟨1, primaryAddr host port, workersAddr 0 (port + 4) hosts⟩
      have hitems := Dict.set_new hnew authority
      have hkeys : (authorities.set name authority).keys = authorities.keys ++ [name] := by
        rw [Dict.keys, hitems, List.map_append]
        rfl
      have hrest : ((authorities.set name authority).keys ++
          addresses.map Prod.fst).Nodup := by
        rw [hkeys, List.append_assoc, List.nodup_append]
        exact hnames
      obtain ⟨added, hadded, hnames', hworkers⟩ :=
        ih (port + 4 + 3 * hosts.length) (authorities.set name authority) hrest hhosts.2
      refine ⟨added, hadded, ?_, ?_⟩
      · rw [hnames', hkeys, List.append_assoc]
        rfl
      · intro other hother
        rcases hworkers other hother with hold | hids
        · rw [Dict.values, hitems, List.map_append, List.mem_append] at hold
          rcases hold with hold | hold
          · exact .inl hold
          · cases List.mem_singleton.mp hold
            refine .inr ?_
            rw [workersAddr_ids, hlen, List.range_eq_range']
        · exact .inr hids

theorem goodNodes_ok {α : Type} {committee : Committee} {faults : Nat}
    (h : faults < committee.size) (of : Authority → α) :
    committee.goodNodes faults of =
      .ok ((committee.authorities.values.take (committee.size - faults)).map of) := by
  rw [goodNodes, assert, decide_eq_true h, if_pos rfl]
  rfl

end Committee

namespace LocalCommittee

theorem addresses_fst (names : List String) (workers : Nat) :
    (addresses names workers).map Prod.fst = names := by
  rw [addresses, List.map_map]
  exact List.map_id names

theorem addresses_hosts {names : List String} {workers : Nat} {entry : String × List String}
    (h : entry ∈ addresses names workers) : entry.2.length = 1 + workers := by
  obtain ⟨x, -, rfl⟩ := List.mem_map.mp h
  exact List.length_replicate

theorem new_ok {names : List String} {workers : Nat} (hnames : names.Nodup) (hne : names ≠ [])
    (hw : 0 < workers) :
    ∃ committee, new names LocalBench.basePort workers = .ok committee ∧
      committee.authorities.keys = names ∧
      ∀ authority ∈ committee.authorities.values,
        authority.workers.map Prod.fst = List.range workers := by
  have hfst := addresses_fst names workers
  have hitems := Dict.ofList_items (hfst ▸ hnames)
  have hempty : ((Dict.empty : OrderedDict Authority).keys ++
      (addresses names workers).map Prod.fst).Nodup := by
    rw [hfst]
    exact hnames
  obtain ⟨added, hadded, hkeys, hworkers⟩ := Committee.addAuthorities_ok LocalBench.basePort
    .empty hempty fun entry hentry => addresses_hosts hentry
  refine ⟨⟨added⟩, ?_, hkeys.trans hfst, fun authority ha => ?_⟩
  · have hlengths : ((Dict.ofList (addresses names workers)).values.map List.length) =
        List.replicate names.length (1 + workers) := by
      rw [Dict.values, hitems, addresses, List.map_map, List.map_map]
      simp [Function.comp_def]
    have hlong : ((Dict.ofList (addresses names workers)).values.all
        fun hosts => 1 < hosts.length) = true := by
      rw [Dict.values, hitems, List.all_eq_true]
      intro hosts hhosts
      obtain ⟨entry, hentry, rfl⟩ := List.mem_map.mp hhosts
      have hlen := addresses_hosts hentry
      exact decide_eq_true (by omega)
    have hpos : names.length ≠ 0 := by simpa using hne
    rw [new, Committee.new, hlong, hlengths, List.replicate_dedup hpos, hitems, hadded]
    simp only [assert, decide_eq_true hw]
    rfl
  · rcases hworkers authority ha with hnone | hids
    · cases hnone
    · exact hids

end LocalCommittee

namespace LocalBench

theorem generateKeys_ok (newKey : String → Key) (files : Files) (filenames : List String) :
    generateKeys newKey files filenames = .ok
      (fun f => if f ∈ filenames then some (.key (newKey f)) else files f,
        filenames.map newKey) := by
  induction filenames generalizing files with
  | nil => simp [generateKeys]
  | cons filename filenames ih =>
    have hread : Key.fromFile (Function.update files filename (some (.key (newKey filename))))
        filename = .ok (newKey filename) := by
      rw [Key.fromFile, Function.update_self]
    simp only [generateKeys, hread, ih, bind, Except.bind, pure, Except.pure, List.map_cons,
      Except.ok.injEq, Prod.mk.injEq, and_true]
    funext f
    by_cases hf : f = filename
    · simp [hf]
    · simp [hf]

-- the authorities `run` boots: those before the faulty ones
def good (committee : Committee) (faults : Nat) : List Authority :=
  committee.authorities.values.take (committee.size - faults)

def primaries (debug : Bool) (authorities : List Authority) : List RunPrimary :=
  authorities.zipIdx.map fun (authority, i) =>
    runPrimary debug i authority.primary.apiAbci authority.primary.apiRpc

def workers (debug : Bool) (authorities : List Authority) : List (List RunWorker) :=
  authorities.zipIdx.map fun (authority, i) =>
    authority.workers.map fun (id, _) => runWorker debug i id

theorem primaries_ok (debug : Bool) (authorities : List Authority) (of : Authority → String) :
    (authorities.map of).zipIdx.mapM (fun (_, i) => do
        let appApi ← get (authorities.map fun a : Authority => a.primary.apiAbci) i
        let abciApi ← get (authorities.map fun a : Authority => a.primary.apiRpc) i
        return runPrimary debug i appApi abciApi) =
      .ok (primaries debug authorities) := by
  rw [List.zipIdx_map, List.mapM_map, primaries]
  apply mapM_ok
  rintro ⟨authority, i⟩ hmem
  have hat : authorities[i]? = some authority := List.mem_zipIdx_iff_getElem?.mp hmem
  simp only [Function.comp, Prod.map, id, get, List.getElem?_map, hat, Option.map_some]
  rfl

theorem workers_eq (debug : Bool) (authorities : List Authority) :
    ((authorities.map fun authority =>
        authority.workers.map fun (id, worker) => (id, worker.transactions)).zipIdx.map
      fun (addresses, i) => addresses.map fun (id, _) => runWorker debug i id) =
      workers debug authorities := by
  rw [List.zipIdx_map, List.map_map, workers]
  refine List.map_congr_left fun entry _ => ?_
  simp [Function.comp_def, Prod.map]

theorem run_ok {newKey : String → Key} {files : Files} {nodes workerCount faults : Nat}
    {debug : Bool} (hf : faults < nodes) (hw : 0 < workerCount)
    (hnames : ((List.range nodes).map fun i => (newKey (PathMaker.keyFile i)).name).Nodup) :
    ∃ committee testbed, run newKey files nodes workerCount faults debug = .ok testbed ∧
      testbed.committee = committee ∧
      committee.authorities.keys =
        (List.range nodes).map (fun i => (newKey (PathMaker.keyFile i)).name) ∧
      (∀ authority ∈ committee.authorities.values,
        authority.workers.map Prod.fst = List.range workerCount) ∧
      (∀ i < nodes, testbed.files (PathMaker.keyFile i) =
        some (.key (newKey (PathMaker.keyFile i)))) ∧
      testbed.primaries = primaries debug (good committee faults) ∧
      testbed.workers = workers debug (good committee faults) := by
  have hnames' : ((((List.range nodes).map PathMaker.keyFile).map newKey).map Key.name) =
      (List.range nodes).map fun i => (newKey (PathMaker.keyFile i)).name := by
    simp [Function.comp_def]
  have hne : ((List.range nodes).map fun i => (newKey (PathMaker.keyFile i)).name) ≠ [] := by
    simp
    omega
  obtain ⟨committee, hnew, hkeys, hids⟩ := LocalCommittee.new_ok hnames hne hw
  have hsize : committee.size = nodes := by
    have hlen := congrArg List.length hkeys
    rw [Dict.keys, List.length_map, List.length_map, List.length_range] at hlen
    exact hlen
  have hfaults : faults < committee.size := by omega
  have hgood {α : Type} (of : Authority → α) :
      committee.goodNodes faults of = .ok ((good committee faults).map of) :=
    Committee.goodNodes_ok hfaults of
  let generated : Files := fun f => if f ∈ (List.range nodes).map PathMaker.keyFile then
    some (.key (newKey f)) else files f
  let written : Files := Function.update (Function.update generated PathMaker.committeeFile
    (some (.committee committee))) PathMaker.parametersFile (some .parameters)
  let apps : List RunApp := ((good committee faults).map fun authority : Authority =>
    authority.primary.apiAbci).zipIdx.map fun (address, i) => ⟨address, PathMaker.appLogFile i⟩
  refine ⟨committee, ⟨written, committee, apps, primaries debug (good committee faults),
    workers debug (good committee faults)⟩, ?_, rfl, hkeys, hids, ?_, rfl, rfl⟩
  · have hprimaries := primaries_ok debug (good committee faults) fun authority =>
      authority.primary.primaryToPrimary
    simp only [bind, Except.bind] at hprimaries
    simp only [run, generateKeys_ok, bind, Except.bind, hnames', hnew, Committee.workersAddresses,
      Committee.appAddresses, Committee.primaryAddresses, Committee.rpcAddresses, hgood,
      hprimaries, workers_eq]
    rfl
  · intro i hi
    have hmem : PathMaker.keyFile i ∈ (List.range nodes).map PathMaker.keyFile :=
      List.mem_map.mpr ⟨i, List.mem_range.mpr hi, rfl⟩
    obtain ⟨hcommittee, hparameters⟩ := PathMaker.keyFile_apart i
    change written (PathMaker.keyFile i) = _
    simp only [written, generated, Function.update_of_ne hparameters,
      Function.update_of_ne hcommittee, if_pos hmem]

section Booted

variable {debug : Bool} {authorities : List Authority}

theorem booted_at {α : Type} {boot : Authority × Nat → α} {i : Nat} {booted : α}
    (h : (authorities.zipIdx.map boot)[i]? = some booted) :
    ∃ authority, authorities[i]? = some authority ∧ booted = boot (authority, i) := by
  rw [List.getElem?_map, List.getElem?_zipIdx, Nat.zero_add, Option.map_map] at h
  obtain ⟨authority, hat, hbooted⟩ := Option.map_eq_some_iff.mp h
  exact ⟨authority, hat, hbooted.symm⟩

theorem primaries_at {i : Nat} {primary : RunPrimary}
    (h : (primaries debug authorities)[i]? = some primary) :
    ∃ authority, authorities[i]? = some authority ∧
      primary = runPrimary debug i authority.primary.apiAbci authority.primary.apiRpc :=
  booted_at h

theorem workers_at {i : Nat} {booted : List RunWorker}
    (h : (workers debug authorities)[i]? = some booted) :
    ∃ authority, authorities[i]? = some authority ∧
      booted = (authority.workers.map Prod.fst).map (runWorker debug i) := by
  obtain ⟨authority, hat, rfl⟩ := booted_at h
  exact ⟨authority, hat, by simp [Function.comp_def]⟩

theorem item_of_good {committee : Committee} {faults i : Nat} {authority : Authority}
    (h : (good committee faults)[i]? = some authority) :
    ∃ name, committee.authorities.items[i]? = some (name, authority) := by
  have hvalue : committee.authorities.values[i]? = some authority := by
    rw [good, List.getElem?_take] at h
    split at h
    · exact h
    · cases h
  rw [Dict.values, List.getElem?_map] at hvalue
  obtain ⟨⟨name, authority⟩, hitem, rfl⟩ := Option.map_eq_some_iff.mp hvalue
  exact ⟨name, hitem⟩

theorem worker_at {i j workerCount : Nat} {worker : RunWorker}
    (h : ((List.range workerCount).map (runWorker debug i))[j]? = some worker) :
    worker = runWorker debug i j := by
  rw [List.getElem?_map] at h
  obtain ⟨id, hid, rfl⟩ := Option.map_eq_some_iff.mp h
  obtain ⟨hlt, heq⟩ := List.getElem?_eq_some_iff.mp hid
  rw [List.getElem_range] at heq
  rw [heq]

theorem primaries_stores : (primaries debug authorities).map RunPrimary.store =
    (List.range authorities.length).map fun i => PathMaker.dbPath i none := by
  rw [primaries, List.map_map, List.range_eq_range', ← List.zipIdx_map_snd, List.map_map]
  rfl

theorem workers_stores {workerCount : Nat} (h : ∀ authority ∈ authorities,
    authority.workers.map Prod.fst = List.range workerCount) :
    (workers debug authorities).flatten.map RunWorker.store =
      (List.range authorities.length).flatMap fun i =>
        (List.range workerCount).map fun j => PathMaker.dbPath i (some j) := by
  have heach : (workers debug authorities).map (List.map RunWorker.store) =
      authorities.zipIdx.map fun entry =>
        (List.range workerCount).map fun j => PathMaker.dbPath entry.2 (some j) := by
    rw [workers, List.map_map]
    refine List.map_congr_left fun entry hentry => ?_
    have hmem : entry.1 ∈ authorities :=
      List.mem_of_getElem? (List.mem_zipIdx_iff_getElem?.mp hentry)
    rw [← h entry.1 hmem, List.map_map, Function.comp_apply, List.map_map]
    rfl
  rw [List.map_flatten, heach, List.range_eq_range' (n := authorities.length),
    ← List.zipIdx_map_snd, List.flatMap_map]
  rfl

theorem stores_nodup (nodes workerCount : Nat) :
    ((List.range nodes).map (fun i => PathMaker.dbPath i none) ++
      (List.range nodes).flatMap fun i =>
        (List.range workerCount).map fun j => PathMaker.dbPath i (some j)).Nodup := by
  rw [List.nodup_append, List.nodup_flatMap]
  refine ⟨?_, ⟨?_, ?_⟩, ?_⟩
  · exact List.nodup_range.map fun i i' h => (PathMaker.dbPath_inj h).1
  · intro i _
    exact List.nodup_range.map fun j j' h => Option.some.inj (PathMaker.dbPath_inj h).2
  · refine List.nodup_range.imp fun hne path hi hi' => ?_
    obtain ⟨j, -, rfl⟩ := List.mem_map.mp hi
    obtain ⟨j', -, h⟩ := List.mem_map.mp hi'
    exact hne (PathMaker.dbPath_inj h).1.symm
  · intro path hprimary path' hworker h
    obtain ⟨i, -, rfl⟩ := List.mem_map.mp hprimary
    obtain ⟨i', -, hi'⟩ := List.mem_flatMap.mp hworker
    obtain ⟨j, -, rfl⟩ := List.mem_map.mp hi'
    cases (PathMaker.dbPath_inj h).2

end Booted

theorem testbed_wired {newKey : String → Key} {files : Files} {nodes workerCount faults : Nat}
    {debug : Bool} (hf : faults < nodes) (hw : 1 ≤ workerCount)
    (hnames : ((List.range nodes).map fun i => (newKey (PathMaker.keyFile i)).name).Nodup) :
    ∃ testbed, run newKey files nodes workerCount faults debug = .ok testbed ∧
      Wired nodes workerCount faults testbed := by
  obtain ⟨committee, testbed, hrun, rfl, hkeys, hids, hfiles, hprimaries, hworkers⟩ :=
    @run_ok newKey files nodes workerCount faults debug hf hw hnames
  have hlen : testbed.committee.authorities.items.length = nodes := by
    have hcount := congrArg List.length hkeys
    rw [Dict.keys, List.length_map, List.length_map, List.length_range] at hcount
    exact hcount
  have hgood : (good testbed.committee faults).length = nodes - faults := by
    rw [good, Committee.size, List.length_take, Dict.values, List.length_map, hlen]
    omega
  have hids' : ∀ authority ∈ good testbed.committee faults,
      authority.workers.map Prod.fst = List.range workerCount := fun authority hmem =>
    hids authority (List.mem_of_mem_take hmem)
  refine ⟨testbed, hrun, ?_, ?_, ?_, ?_, ?_⟩
  · rw [hprimaries, primaries, List.length_map, List.length_zipIdx, hgood]
  · rw [hworkers, List.eq_replicate_iff]
    refine ⟨by rw [workers, List.length_map, List.length_map, List.length_zipIdx, hgood], ?_⟩
    intro n hn
    obtain ⟨booted, hbooted, rfl⟩ := List.mem_map.mp hn
    obtain ⟨i, hi⟩ := List.mem_iff_getElem?.mp hbooted
    obtain ⟨authority, hauthority, rfl⟩ := workers_at hi
    rw [hids' authority (List.mem_of_getElem? hauthority), List.length_map, List.length_range]
  · intro i primary hprimary
    rw [hprimaries] at hprimary
    obtain ⟨authority, hauthority, rfl⟩ := primaries_at hprimary
    obtain ⟨name, hitem⟩ := item_of_good hauthority
    have hi : i < nodes := hlen ▸ (List.getElem?_eq_some_iff.mp hitem).1
    have hname : (newKey (PathMaker.keyFile i)).name = name := by
      have hkey : testbed.committee.authorities.keys[i]? = some name := by
        rw [Dict.keys, List.getElem?_map, hitem]
        rfl
      rw [hkeys, List.getElem?_map, List.getElem?_range hi] at hkey
      exact Option.some.inj hkey
    exact ⟨name, authority, newKey (PathMaker.keyFile i), hitem, hfiles i hi, hname, rfl, rfl⟩
  · intro i j primary booted worker hprimary hbooted hworker
    rw [hprimaries] at hprimary
    rw [hworkers] at hbooted
    obtain ⟨authority, hauthority, rfl⟩ := primaries_at hprimary
    obtain ⟨authority', hauthority', rfl⟩ := workers_at hbooted
    rw [hids' authority' (List.mem_of_getElem? hauthority')] at hworker
    cases worker_at hworker
    refine ⟨rfl, rfl, fun engine id hstore hsame => ?_⟩
    rw [PathMaker.workerDb_eq_dbPath hstore, hsame]
    rfl
  · rw [hprimaries, hworkers, primaries_stores, workers_stores hids', hgood]
    exact stores_nodup (nodes - faults) workerCount

theorem testbed_wired_four : ∃ testbed,
    run (fun filename => ⟨filename, ""⟩) (fun _ => none) 4 1 1 false = .ok testbed ∧
      Wired 4 1 1 testbed :=
  testbed_wired (by decide) (by decide) (by decide)

end LocalBench

end Narwhal.Benchmark
