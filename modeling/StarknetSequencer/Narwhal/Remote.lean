import StarknetSequencer.Binary64
import StarknetSequencer.Effect.State
import StarknetSequencer.Narwhal.Endpoints
import StarknetSequencer.Narwhal.Hosts

namespace Narwhal.Benchmark

open Effect

structure RemoteParameters extends BenchParameters where
  rate : List Int
  txSize : Int
  runs : Int
  rate_ne_nil : rate ≠ []

-- the exceptions that `Bench.run` can meet
inductive Exception where
  | config (failure : Failure)
  | arithmetic (error : Binary64.ArithmeticError)
  | missing (arguments : List String)
  | bench (message : String)
  | connection
  | execution
  | subprocess
  | group
  | parse
deriving DecidableEq

-- `except (subprocess.SubprocessError, GroupException, ParseError)`
def Exception.caught : Exception → Bool
  | .subprocess | .group | .parse => true
  | _ => false

structure RunClient where
  address : String
  size : Int
  rate : Int
  nodes : List String
  logFile : String

inductive Program where
  | client (client : RunClient)
  | primary (primary : RunPrimary)
  | worker (worker : RunWorker)

structure Boot where
  host : String
  program : Program

-- the files of the machine that benchmarks and of the others by their addresses
structure Cluster where
  files : Files
  machines : String → Files
  booted : List Boot
  commands : Nat

abbrev BenchM := EStateM Exception Cluster

def PathMaker.clientLogFile (i j : Nat) : String :=
  "logs/client-" ++ toString i ++ "-" ++ toString j ++ ".log"

namespace Committee

-- `address.split(':')[0]`
def ip (address : String) : String := String.ofList (address.toList.takeWhile fun c => c ≠ ':')

def authorityIps (authority : Authority) : List String :=
  [authority.primary.primaryToPrimary, authority.primary.workerToPrimary].map ip ++
    authority.workers.flatMap fun (_, worker) =>
      [worker.primaryToWorker, worker.workerToWorker, worker.transactions].map ip

-- a set in the source; the name is one of the committee's
def ips (committee : Committee) : Option String → List String
  | none => (committee.authorities.values.flatMap authorityIps).dedup
  | some name => ((committee.authorities.items.filter fun entry => entry.1 = name).flatMap
      fun entry => authorityIps entry.2).dedup

def workers (committee : Committee) : Nat :=
  (committee.authorities.values.map fun authority => authority.workers.length).sum

end Committee

namespace CommandMaker

-- `rm .*.json`
def removed (name : String) : Bool :=
  match name.toList with
  | '.' :: rest => ".json".toList.isSuffixOf rest
  | _ => false

def cleanup (files : Files) : Files := fun name => if removed name then none else files name

def runClient (address : String) (size rate : Int) (nodes : List String) (logFile : String) :
    Except Exception RunClient := do
  if size ≤ 0 then throw (.config .assertion)
  if rate < 0 then throw (.config .assertion)
  return { address, size, rate, nodes, logFile }

-- an argument that the call leaves out is `none`
def runPrimary (debug : Bool) (i : Nat) : Option String → Option String →
    Except Exception RunPrimary
  | some appApi, some abciApi => .ok (LocalBench.runPrimary debug i appApi abciApi)
  | none, some _ => .error (.missing ["app_api"])
  | some _, none => .error (.missing ["abci_api"])
  | none, none => .error (.missing ["app_api", "abci_api"])

end CommandMaker

namespace SelectedHosts

def length : SelectedHosts → Nat
  | .hosts selected => selected.length
  | .groups selected => selected.length

def addresses (names : List String) (workers : Int) : SelectedHosts → List (String × List String)
  | .hosts selected => names.zip (selected.map fun y => List.replicate (workers + 1).toNat y)
  | .groups selected => names.zip selected

end SelectedHosts

-- the bar divides by the length before the first item
def progressBar {α : Type} : List α → Except Exception (List α)
  | [] => .error (.arithmetic .zeroDivision)
  | x :: xs => .ok (x :: xs)

namespace Cluster

def cleanup (ip : String) (cluster : Cluster) : Cluster :=
  let files := CommandMaker.cleanup (cluster.machines ip)
  { cluster with machines := Function.update cluster.machines ip files }

def put (ip name : String) (cluster : Cluster) : Cluster :=
  let files := Function.update (cluster.machines ip) name (cluster.files name)
  { cluster with machines := Function.update cluster.machines ip files }

def boot (host : String) (program : Program) (cluster : Cluster) : Cluster :=
  { cluster with booted := cluster.booted ++ [⟨host, program⟩] }

end Cluster

namespace Bench

-- whether the k-th command fails
variable (fails : Nat → Bool)

def command (error : Exception) (effect : Cluster → Cluster) : BenchM Unit := do
  modify fun cluster => { cluster with commands := cluster.commands + 1 }
  if fails (← getThe Cluster).commands then throw error
  modify effect

def kill : BenchM Unit := command fails (.bench "Failed to kill nodes") id

def update : BenchM Unit := command fails (.bench "Failed to update nodes") id

def backgroundRun (host : String) (program : Program) : BenchM Unit :=
  command fails .execution (Cluster.boot host program)

def upload (i : Nat) (ip : String) : BenchM Unit := do
  command fails .connection (Cluster.cleanup ip)
  command fails .connection (Cluster.put ip PathMaker.committeeFile)
  command fails .connection (Cluster.put ip (PathMaker.keyFile i))
  command fails .connection (Cluster.put ip PathMaker.parametersFile)

def uploadTo (i : Nat) (ips : List String) : BenchM Unit := do
  for ip in ips do
    upload fails i ip

def uploadConfig (committee : Committee) (names : List String) : BenchM Unit := do
  for (name, i) in names.zipIdx do
    uploadTo fails i (committee.ips (some name))

def configFiles (newKey : String → Key) (basePort : Nat) (hosts : SelectedHosts) (workers : Int)
    (files : Files) : Except Failure (Committee × List String × Files) := do
  let keyFiles := (List.range hosts.length).map PathMaker.keyFile
  let (files, keys) ← LocalBench.generateKeys newKey files keyFiles
  let names := keys.map Key.name
  let committee ← Committee.new (.ofList (hosts.addresses names workers)) basePort
  let files := Function.update files PathMaker.committeeFile (some (.committee committee))
  let files := Function.update files PathMaker.parametersFile (some .parameters)
  return (committee, names, files)

def config (newKey : String → Key) (basePort : Nat) (hosts : SelectedHosts)
    (parameters : BenchParameters) : BenchM Committee := do
  modify fun cluster => { cluster with files := CommandMaker.cleanup cluster.files }
  command fails (.bench "Failed to configure nodes") id
  let files := (← getThe Cluster).files
  let (committee, names, files) ←
    lift ((configFiles newKey basePort hosts parameters.workers files).mapError .config)
  modify fun cluster => { cluster with files }
  let names := sliceTo (names.length - parameters.faults) names
  uploadConfig fails committee (← lift (progressBar names))
  return committee

-- `ceil(rate / committee.workers())`
def rateShare (rate : Int) (workers : Nat) : Except Exception Int :=
  if workers = 0 then .error (.arithmetic .zeroDivision)
  else
    match Binary64.Double.ofUnits (rate * Binary64.one) workers with
    | .finite units => .ok (-(-units / (Binary64.one : Int)))
    | .infinity _ => .error (.arithmetic .overflow)

variable (debug : Bool) (parameters : RemoteParameters) (committee : Committee)

def bootClientsOf (rateShare : Int) (nodes : List String) (i : Nat)
    (addresses : List (Nat × String)) : BenchM Unit := do
  for (id, address) in addresses do
    let client ← lift (CommandMaker.runClient address parameters.txSize rateShare nodes
      (PathMaker.clientLogFile i id))
    backgroundRun fails (Committee.ip address) (.client client)

def bootClients (rateShare : Int) (workersAddresses : List (List (Nat × String))) :
    BenchM Unit := do
  for (addresses, i) in workersAddresses.zipIdx do
    bootClientsOf fails parameters rateShare (workersAddresses.flatten.map Prod.snd) i addresses

-- the call leaves out the two addresses that `run_primary` asks for
def bootPrimaries (primaryAddresses : List String) : BenchM Unit := do
  for (address, i) in primaryAddresses.zipIdx do
    let primary ← lift (CommandMaker.runPrimary debug i none none)
    backgroundRun fails (Committee.ip address) (.primary primary)

def bootWorkers (workersAddresses : List (List (Nat × String))) : BenchM Unit := do
  for (addresses, i) in workersAddresses.zipIdx do
    for (id, address) in addresses do
      backgroundRun fails (Committee.ip address) (.worker (LocalBench.runWorker debug i id))

-- with a negative number of faults every authority is taken, as with none
def runSingle (rate : Int) : BenchM Unit := do
  let faults := parameters.faults.toNat
  kill fails
  let workersAddresses ← lift ((committee.workersAddresses faults).mapError .config)
  let rateShare ← lift (rateShare rate committee.workers)
  bootClients fails parameters rateShare workersAddresses
  let primaryAddresses ← lift ((committee.primaryAddresses faults).mapError .config)
  bootPrimaries fails debug primaryAddresses
  bootWorkers fails debug workersAddresses
  kill fails

-- `report` downloads the logs, parses them and prints their summary
variable (report : Committee → Int → Int → BenchM Unit)

def runOnce (n rate : Int) : BenchM Unit := do
  try
    runSingle fails debug parameters committee rate
    report committee n rate
  catch e =>
    if e.caught then kill fails else throw e

def runRate (n rate : Int) : BenchM Unit := do
  for _ in List.range parameters.runs.toNat do
    runOnce fails debug parameters committee report n rate

def runRates (n : Int) : BenchM Unit := do
  for rate in parameters.rate do
    runRate fails debug parameters committee report n rate

def runSizes : BenchM Unit := do
  for n in parameters.nodes do
    let smaller ← lift ((committee.removeNodes (committee.size - n).toNat).mapError .config)
    runRates fails debug parameters smaller report n

def run (newKey : String → Key) (basePort : Nat) (hosts : OrderedDict (List String)) :
    BenchM Unit := do
  let selected := selectHosts parameters.toBenchParameters hosts
  if selected.length = 0 then return
  update fails
  let committee ← config fails newKey basePort selected parameters.toBenchParameters
  runSizes fails debug parameters committee report

end Bench

end Narwhal.Benchmark
