import StarknetSequencer.Dict
import Mathlib.Data.List.Dedup
import Mathlib.Logic.Function.Basic

namespace Narwhal.Benchmark

-- the exceptions that `LocalBench.run` turns into a `BenchError`
inductive Failure where
  | assertion
  | index
  | json (filename : String)
deriving DecidableEq

def assert (condition : Bool) : Except Failure Unit :=
  if condition then .ok () else .error .assertion

def get {α : Type} (xs : List α) (i : Nat) : Except Failure α :=
  match xs[i]? with
  | some x => .ok x
  | none => .error .index

abbrev OrderedDict (α : Type) : Type := Dict String α

namespace PathMaker

def committeeFile : String := ".committee.json"

def parametersFile : String := ".parameters.json"

def keyFile (i : Nat) : String := ".node-" ++ toString i ++ ".json"

def dbPath (i : Nat) (j : Option Nat) : String :=
  let workerId := match j with
    | some j => "-" ++ toString j
    | none => ""
  ".db-" ++ toString i ++ workerId

def primaryLogFile (i : Nat) : String := "logs/primary-" ++ toString i ++ ".log"

def appLogFile (i : Nat) : String := "logs/app-" ++ toString i ++ ".log"

def workerLogFile (i j : Nat) : String := "logs/worker-" ++ toString i ++ "-" ++ toString j ++ ".log"

end PathMaker

structure Key where
  name : String
  secret : String

structure PrimaryAddress where
  primaryToPrimary : String
  workerToPrimary : String
  apiRpc : String
  apiAbci : String

structure WorkerAddress where
  primaryToWorker : String
  transactions : String
  workerToWorker : String

structure Authority where
  stake : Nat
  primary : PrimaryAddress
  workers : List (Nat × WorkerAddress)

structure Committee where
  authorities : OrderedDict Authority

namespace Committee

def address (host : String) (port : Nat) : String := host ++ ":" ++ toString port

def primaryAddr (host : String) (port : Nat) : PrimaryAddress where
  primaryToPrimary := address host port
  workerToPrimary := address host (port + 1)
  apiRpc := address host (port + 2)
  apiAbci := address host (port + 3)

def workersAddr (j port : Nat) : List String → List (Nat × WorkerAddress)
  | [] => []
  | host :: hosts =>
    (j, {
      primaryToWorker := address host port
      transactions := address host (port + 1)
      workerToWorker := address host (port + 2) }) :: workersAddr (j + 1) (port + 3) hosts

def addAuthorities (port : Nat) (authorities : OrderedDict Authority) :
    List (String × List String) → Except Failure (OrderedDict Authority)
  | [] => .ok authorities
  | (_, []) :: _ => .error .index
  | (name, host :: hosts) :: addresses =>
    let authority : Authority := {
      stake := 1
      primary := primaryAddr host port
      workers := workersAddr 0 (port + 4) hosts }
    addAuthorities (port + 4 + 3 * hosts.length) (authorities.set name authority) addresses

-- the source pops the first host off the caller's own list, so this is its result only where no
-- two authorities are given one list object
def new (addresses : OrderedDict (List String)) (basePort : Nat) : Except Failure Committee := do
  assert (addresses.values.all fun hosts => 1 < hosts.length)
  assert ((addresses.values.map List.length).dedup.length = 1)
  assert (1024 < basePort)
  let authorities ← addAuthorities basePort .empty addresses.items
  return { authorities }

def size (committee : Committee) : Nat := committee.authorities.items.length

-- what `primary_addresses`, `rpc_addresses`, `app_addresses` and `workers_addresses` share
def goodNodes {α : Type} (committee : Committee) (faults : Nat) (of : Authority → α) :
    Except Failure (List α) := do
  assert (faults < committee.size)
  return (committee.authorities.values.take (committee.size - faults)).map of

def primaryAddresses (committee : Committee) (faults : Nat) : Except Failure (List String) :=
  committee.goodNodes faults fun authority => authority.primary.primaryToPrimary

def rpcAddresses (committee : Committee) (faults : Nat) : Except Failure (List String) :=
  committee.goodNodes faults fun authority => authority.primary.apiRpc

def appAddresses (committee : Committee) (faults : Nat) : Except Failure (List String) :=
  committee.goodNodes faults fun authority => authority.primary.apiAbci

def workersAddresses (committee : Committee) (faults : Nat) :
    Except Failure (List (List (Nat × String))) :=
  committee.goodNodes faults fun authority =>
    authority.workers.map fun (id, worker) => (id, worker.transactions)

end Committee

namespace LocalCommittee

def addresses (names : List String) (workers : Nat) : List (String × List String) :=
  names.map fun x => (x, List.replicate (1 + workers) "127.0.0.1")

def new (names : List String) (port workers : Nat) : Except Failure Committee := do
  assert (0 < workers)
  Committee.new (.ofList (addresses names workers)) port

end LocalCommittee

inductive File where
  | key (key : Key)
  | committee (committee : Committee)
  | parameters

abbrev Files := String → Option File

def Key.fromFile (files : Files) (filename : String) : Except Failure Key :=
  match files filename with
  | some (.key key) => .ok key
  | _ => .error (.json filename)

structure RunApp where
  listenOn : String
  logFile : String

structure RunPrimary where
  verbosity : String
  keys : String
  committee : String
  store : String
  parameters : String
  appApi : String
  abciApi : String
  logFile : String

structure RunWorker where
  verbosity : String
  keys : String
  committee : String
  store : String
  parameters : String
  id : Nat
  logFile : String

structure Testbed where
  files : Files
  committee : Committee
  apps : List RunApp
  primaries : List RunPrimary
  workers : List (List RunWorker)

namespace LocalBench

def basePort : Nat := 3000

def verbosity (debug : Bool) : String := if debug then "-vvv" else "-vv"

-- `newKey` is what `generate_keys --filename` puts in a file
def generateKeys (newKey : String → Key) (files : Files) :
    List String → Except Failure (Files × List Key)
  | [] => .ok (files, [])
  | filename :: filenames => do
    let files := Function.update files filename (some (.key (newKey filename)))
    let key ← Key.fromFile files filename
    let (files, keys) ← generateKeys newKey files filenames
    return (files, key :: keys)

def runPrimary (debug : Bool) (i : Nat) (appApi abciApi : String) : RunPrimary where
  verbosity := verbosity debug
  keys := PathMaker.keyFile i
  committee := PathMaker.committeeFile
  store := PathMaker.dbPath i none
  parameters := PathMaker.parametersFile
  appApi
  abciApi
  logFile := PathMaker.primaryLogFile i

def runWorker (debug : Bool) (i id : Nat) : RunWorker where
  verbosity := verbosity debug
  keys := PathMaker.keyFile i
  committee := PathMaker.committeeFile
  store := PathMaker.dbPath i (some id)
  parameters := PathMaker.parametersFile
  id
  logFile := PathMaker.workerLogFile i id

def run (newKey : String → Key) (files : Files) (nodes workers faults : Nat) (debug : Bool) :
    Except Failure Testbed := do
  let keyFiles := (List.range nodes).map PathMaker.keyFile
  let (files, keys) ← generateKeys newKey files keyFiles
  let names := keys.map Key.name
  let committee ← LocalCommittee.new names basePort workers
  let files := Function.update files PathMaker.committeeFile (some (.committee committee))
  let files := Function.update files PathMaker.parametersFile (some .parameters)
  let workersAddresses ← committee.workersAddresses faults
  let apps := (← committee.appAddresses faults).zipIdx.map fun (address, i) =>
    { listenOn := address, logFile := PathMaker.appLogFile i }
  let primaries ← (← committee.primaryAddresses faults).zipIdx.mapM fun (_, i) => do
    let appApi ← get (← committee.appAddresses faults) i
    let abciApi ← get (← committee.rpcAddresses faults) i
    return runPrimary debug i appApi abciApi
  let workers := workersAddresses.zipIdx.map fun (addresses, i) =>
    addresses.map fun (id, _) => runWorker debug i id
  return { files, committee, apps, primaries, workers }

end LocalBench

end Narwhal.Benchmark
