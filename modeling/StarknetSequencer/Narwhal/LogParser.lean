import StarknetSequencer.Narwhal.Logs

namespace Narwhal.Benchmark

open Wire Binary64

-- one or more logs, or what was read from them
structure Several (α : Type) where
  first : α
  rest : List α

namespace Several

variable {α β : Type}

def toList (xs : Several α) : List α := xs.first :: xs.rest

def ofList : List α → Option (Several α)
  | [] => none
  | a :: as => some ⟨a, as⟩

def map (f : α → β) (xs : Several α) : Several β := ⟨f xs.first, xs.rest.map f⟩

def traverse {ε : Type} (f : α → Except ε β) (xs : Several α) : Except ε (Several β) := do
  let b ← f xs.first
  let bs ← xs.rest.mapM f
  return ⟨b, bs⟩

end Several

structure LogParser where
  faults : Field
  committeeSize : Field
  workers : Field
  size : Several Nat
  rate : Several Nat
  start : Several Timestamp
  misses : Nat
  sentSamples : Several (Dict Nat Timestamp)
  proposals : Dict Digest Timestamp
  commits : Dict Digest Timestamp
  configs : Several LogParser.Configs
  sizes : Dict Digest Nat
  receivedSamples : Several (Dict Nat Digest)
  collocate : Bool

namespace LogParser

-- what the constructor raises; `cause` is the error whose words end the message
inductive Rejected where
  | assertion
  | parseError (message : String) (cause : Option Raised)
deriving DecidableEq

def parsing {α : Type} (message : String) : Except Raised α → Except Rejected α
  | .ok a => .ok a
  | .error (.parseError text) => .error (.parseError text none)
  | .error e => .error (.parseError message (some e))

def someLogs (logs : List (List Char)) : Except Rejected (Several (List Char)) :=
  match Several.ofList logs with
  | some logs => .ok logs
  | none => .error .assertion

-- `isinstance(faults, int)`
def sizesOf (faults : Field) (primaries workers : Nat) : Field × Field :=
  match faults with
  | .number n => (.number (primaries + n), .number (workers / primaries : Nat))
  | _ => (.unknown, .unknown)

def new (zone : Zone) (clients primaries workers : List (List Char)) (faults : Field) :
    Except Rejected LogParser := do
  let clients ← someLogs clients
  let primaries ← someLogs primaries
  let workers ← someLogs workers
  let (committeeSize, perNode) :=
    sizesOf faults primaries.toList.length workers.toList.length
  let clientLogs ← parsing "Failed to parse clients' logs: "
    (clients.traverse (parseClients zone))
  let primaryLogs ← parsing "Failed to parse nodes' logs: "
    (primaries.traverse (parsePrimaries zone))
  let proposals := mergeResults (primaryLogs.toList.map fun log => log.proposals.items)
  let commits := mergeResults (primaryLogs.toList.map fun log => log.commits.items)
  let workerLogs ← parsing "Failed to parse workers' logs: " (workers.traverse parseWorkers)
  let sizes := workerLogs.toList.flatMap fun log => log.sizes.items
  let primaryIps := primaryLogs.toList.map PrimaryLog.ip
  let workerIps := workerLogs.toList.map WorkerLog.ip
  return {
    faults := faults
    committeeSize := committeeSize
    workers := perNode
    size := clientLogs.map ClientLog.size
    rate := clientLogs.map ClientLog.rate
    start := clientLogs.map ClientLog.start
    misses := (clientLogs.toList.map ClientLog.misses).sum
    sentSamples := clientLogs.map ClientLog.samples
    proposals := proposals
    commits := commits
    configs := primaryLogs.map PrimaryLog.configs
    sizes := .ofList (sizes.filter fun item => item.1 ∈ commits.keys)
    receivedSamples := workerLogs.map WorkerLog.samples
    collocate := (∀ ip ∈ primaryIps, ip ∈ workerIps) ∧ ∀ ip ∈ workerIps, ip ∈ primaryIps }

-- what `result` raises
inductive Failure where
  | keyError
  | valueError
  | assertion
  | arithmetic (e : ArithmeticError)
deriving DecidableEq

def calculating {α : Type} : Except ArithmeticError α → Except Failure α
  | .ok a => .ok a
  | .error e => .error (.arithmetic e)

abbrev Duration := {units : Int // units.natAbs ≤ 2 ^ 44 * one}

abbrev Latency := {units : Int // units.natAbs ≤ 2 ^ 46 * one}

section Range

-- the times are so far from the end of the doubles that no latency overflows

theorem difference_finite (finish start : Timestamp) :
    (Double.ofUnits (finish.val - start.val) 1).IsFinite := by
  refine (Double.ofUnits_finite_iff Nat.one_pos).mpr (inRange_of_le Nat.one_pos ?_)
  have hfinish := finish.property
  have hstart := start.property
  omega

theorem natAbs_difference_le (finish start : Timestamp) :
    ((Double.ofUnits (finish.val - start.val) 1).get (difference_finite finish start)).natAbs ≤
      2 ^ 44 * one := by
  have hround := natAbs_rounded_le (finish.val - start.val) 1
  have hfinish := finish.property
  have hstart := start.property
  have hone := Binary64.one_pos
  rw [Double.get_ofUnits]
  omega

theorem natAbs_sum_le (latency : List Duration) :
    (latency.map Subtype.val).sum.natAbs ≤ latency.length * (2 ^ 44 * one) := by
  induction latency with
  | nil => simp
  | cons x latency ih =>
    have hx := x.property
    rw [List.map_cons, List.sum_cons, List.length_cons, Nat.succ_mul]
    omega

theorem mean_finite {latency : List Duration} (hne : latency ≠ []) :
    (Double.ofUnits (latency.map Subtype.val).sum latency.length).IsFinite := by
  have hlen : 0 < latency.length := List.length_pos_iff.mpr hne
  refine (Double.ofUnits_finite_iff hlen).mpr (inRange_of_le hlen ?_)
  refine (natAbs_sum_le latency).trans (Nat.mul_le_mul_left _ ?_)
  exact Nat.mul_le_mul_right _ (by decide)

theorem natAbs_mean_le {latency : List Duration} (hne : latency ≠ []) :
    ((Double.ofUnits (latency.map Subtype.val).sum latency.length).get (mean_finite hne)).natAbs ≤
      2 ^ 46 * one := by
  have hround := natAbs_rounded_le (latency.map Subtype.val).sum latency.length
  have hquot : (latency.map Subtype.val).sum.natAbs / latency.length ≤ 2 ^ 44 * one :=
    Nat.div_le_of_le_mul (natAbs_sum_le latency)
  have hone := Binary64.one_pos
  rw [Double.get_ofUnits]
  omega

theorem thousandfold_finite (x : Latency) : (Double.ofUnits (x.val * 1000) 1).IsFinite := by
  refine (Double.ofUnits_finite_iff Nat.one_pos).mpr (inRange_of_le Nat.one_pos ?_)
  have hx := x.property
  omega

end Range

-- `finish - start`
def since (finish start : Timestamp) : Duration :=
  ⟨(Double.ofUnits (finish.val - start.val) 1).get (difference_finite finish start),
    natAbs_difference_le finish start⟩

-- `mean(latency) if latency else 0`
def mean (latency : List Duration) : Latency :=
  if h : latency = [] then ⟨0, Nat.zero_le _⟩
  else ⟨(Double.ofUnits (latency.map Subtype.val).sum latency.length).get (mean_finite h),
    natAbs_mean_le h⟩

-- `x * 1_000`
def thousandfold (x : Latency) : Int :=
  (Double.ofUnits (x.val * 1000) 1).get (thousandfold_finite x)

variable (p : LogParser)

-- the figures over all committed bytes since the earliest of the start times
def throughput (starts : List Timestamp) : Except Failure (Double × Double × Int) := do
  if p.commits.items = [] then return (.finite 0, .finite 0, 0)
  let some start := starts.min? | throw .valueError
  let some finish := p.commits.values.max? | throw .valueError
  let duration := (since finish start).val
  let bytes ← calculating (ofNat p.sizes.values.sum)
  let bps ← calculating (Double.div (.finite bytes) duration)
  let size ← calculating (ofNat p.size.first)
  let tps ← calculating (bps.div size)
  return (tps, bps, duration)

def consensusThroughput : Except Failure (Double × Double × Int) :=
  p.throughput p.proposals.values

def endToEndThroughput : Except Failure (Double × Double × Int) := p.throughput p.start.toList

def commitLatency (commit : Digest × Timestamp) : Except Failure Duration :=
  match p.proposals.get? commit.1 with
  | some proposed => .ok (since commit.2 proposed)
  | none => .error .keyError

def consensusLatency : Except Failure Latency := do
  let latency ← p.commits.items.mapM p.commitLatency
  return mean latency

def sampleLatency (sample : Dict Nat Timestamp × (Nat × Digest)) :
    Except Failure (Option Duration) :=
  match p.commits.get? sample.2.2 with
  | none => .ok none
  | some finish =>
    match sample.1.get? sample.2.1 with
    | some start => .ok (some (since finish start))
    | none => .error .assertion

-- the received samples, each with those that its client sent
def samples : List (Dict Nat Timestamp × (Nat × Digest)) :=
  (p.sentSamples.toList.zip p.receivedSamples.toList).flatMap fun (sent, received) =>
    received.items.map fun item => (sent, item)

def endToEndLatency : Except Failure Latency := do
  let latency ← p.samples.mapM p.sampleLatency
  return mean (latency.filterMap id)

def summary : Except Failure Summary := do
  let configs := p.configs.first
  let consensusLatency := thousandfold (← p.consensusLatency)
  let (consensusTps, consensusBps, _) ← p.consensusThroughput
  let (endToEndTps, endToEndBps, duration) ← p.endToEndThroughput
  let endToEndLatency := thousandfold (← p.endToEndLatency)
  let duration ← calculating (Double.round (.finite duration))
  let consensusTps ← calculating consensusTps.round
  let consensusBps ← calculating consensusBps.round
  let consensusLatency ← calculating (Double.round (.finite consensusLatency))
  let endToEndTps ← calculating endToEndTps.round
  let endToEndBps ← calculating endToEndBps.round
  let endToEndLatency ← calculating (Double.round (.finite endToEndLatency))
  return {
    faults := p.faults
    committeeSize := p.committeeSize
    workers := p.workers
    collocate := p.collocate
    rate := p.rate.toList.sum
    size := p.size.first
    duration := duration
    headerSize := configs.headerSize
    maxHeaderDelay := configs.maxHeaderDelay
    gcDepth := configs.gcDepth
    syncRetryDelay := configs.syncRetryDelay
    syncRetryNodes := configs.syncRetryNodes
    batchSize := configs.batchSize
    maxBatchDelay := configs.maxBatchDelay
    consensusTps := consensusTps
    consensusBps := consensusBps
    consensusLatency := consensusLatency
    endToEndTps := endToEndTps
    endToEndBps := endToEndBps
    endToEndLatency := endToEndLatency }

def result : Except Failure (List Char) := p.summary.map Summary.str

end LogParser

end Narwhal.Benchmark
