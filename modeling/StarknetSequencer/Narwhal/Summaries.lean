import Mathlib.Data.List.Basic
import StarknetSequencer.Narwhal.Aggregate
import StarknetSequencer.Wire.Digits
import StarknetSequencer.Wire.Pattern

namespace Narwhal.Benchmark

open Wire

-- the figures that `LogParser.result` prints
structure Summary where
  faults : Field
  committeeSize : Field
  workers : Field
  collocate : Bool
  rate : Nat
  size : Nat
  duration : Int
  headerSize : Nat
  maxHeaderDelay : Nat
  gcDepth : Nat
  syncRetryDelay : Nat
  syncRetryNodes : Nat
  batchSize : Nat
  maxBatchDelay : Nat
  consensusTps : Int
  consensusBps : Int
  consensusLatency : Int
  endToEndTps : Int
  endToEndBps : Int
  endToEndLatency : Int

structure Line where
  lead : List Char
  value : List Char
  trail : List Char

def Line.str (line : Line) : List Char := line.lead ++ (line.value ++ line.trail)

namespace Summary

def rule : List Char := "-----------------------------------------\n".toList

-- `comma` writes the figures that are printed with `:,`
def lines (comma : Int → List Char) (summary : Summary) : List Line :=
  [⟨" Faults: ".toList, summary.faults.str, " node(s)\n".toList⟩,
    ⟨" Committee size: ".toList, summary.committeeSize.str, " node(s)\n".toList⟩,
    ⟨" Worker(s) per node: ".toList, summary.workers.str, " worker(s)\n".toList⟩,
    ⟨" Collocate primary and workers: ".toList, boolStr summary.collocate, "\n".toList⟩,
    ⟨" Input rate: ".toList, comma summary.rate, " tx/s\n".toList⟩,
    ⟨" Transaction size: ".toList, comma summary.size, " B\n".toList⟩,
    ⟨" Execution time: ".toList, comma summary.duration, " s\n".toList⟩,
    ⟨"\n Header size: ".toList, comma summary.headerSize, " B\n".toList⟩,
    ⟨" Max header delay: ".toList, comma summary.maxHeaderDelay, " ms\n".toList⟩,
    ⟨" GC depth: ".toList, comma summary.gcDepth, " round(s)\n".toList⟩,
    ⟨" Sync retry delay: ".toList, comma summary.syncRetryDelay, " ms\n".toList⟩,
    ⟨" Sync retry nodes: ".toList, comma summary.syncRetryNodes, " node(s)\n".toList⟩,
    ⟨" batch size: ".toList, comma summary.batchSize, " B\n".toList⟩,
    ⟨" Max batch delay: ".toList, comma summary.maxBatchDelay, " ms\n".toList⟩,
    ⟨"\n + RESULTS:\n Consensus TPS: ".toList, comma summary.consensusTps, " tx/s\n".toList⟩,
    ⟨" Consensus BPS: ".toList, comma summary.consensusBps, " B/s\n".toList⟩,
    ⟨" Consensus latency: ".toList, comma summary.consensusLatency, " ms\n".toList⟩,
    ⟨"\n End-to-end TPS: ".toList, comma summary.endToEndTps, " tx/s\n".toList⟩,
    ⟨" End-to-end BPS: ".toList, comma summary.endToEndBps, " B/s\n".toList⟩,
    ⟨" End-to-end latency: ".toList, comma summary.endToEndLatency, " ms\n".toList⟩]

def opening : List Char := '\n' :: rule ++ [' ']

def title : List Char := "SUMMARY".toList

def body (comma : Int → List Char) (summary : Summary) : List Char :=
  ":\n".toList ++ (rule ++ (" + CONFIG:\n".toList ++
    ((summary.lines comma).flatMap Line.str ++ rule)))

def str (summary : Summary) : List Char := opening ++ (title ++ summary.body groupedInt)

end Summary

def labelled (label : String) (value : Pattern) : Pattern :=
  (Pattern.word label.toList).cat value.group

def digits : Pattern := .plus isDecimal

-- `search(pattern, raw).group(1)`
def searchGroup (pattern : Pattern) (raw : List Char) : Option (List Char) :=
  (pattern.search raw).bind fun m => m.groups.head?

def searchInt (label : String) (raw : List Char) : Option Nat :=
  (searchGroup (labelled label digits) raw).map readInt

def Setup.fromStr (raw : List Char) : Option Setup := do
  let faults ← searchInt "Faults: " raw
  let nodes ← searchInt "Committee size: " raw
  let workers ← searchInt "Worker(s) per node: " raw
  let collocate ← searchGroup (labelled "Collocate primary and workers: "
    (.alt (.word "True".toList) (.word "False".toList))) raw
  let rate ← searchInt "Input rate: " raw
  let txSize ← searchInt "Transaction size: " raw
  some ⟨.number nodes, .number workers, collocate = "True".toList, .number rate, .number txSize,
    .number faults, .any⟩

def Result.fromStr (raw : List Char) : Option Result := do
  let tps ← searchInt "End-to-end TPS: " raw
  let latency ← searchInt "End-to-end latency: " raw
  some ⟨tps, latency, 0, 0⟩

namespace LogAggregator

-- the chunks of `data.replace(',', '').split('SUMMARY')[1:]` that are not empty
def chunks (files : List (List Char)) : List (List Char) :=
  ((split Summary.title (files.flatten.filter (· ≠ ','))).drop 1).filter (· ≠ [])

def readChunk (chunk : List Char) : Option (Setup × Result) := do
  let setup ← Setup.fromStr chunk
  let result ← Result.fromStr chunk
  some (setup, result)

def readRecords (files : List (List Char)) : Option (Dict Setup (List Result)) :=
  (chunks files).foldlM (fun records chunk => do
    let (setup, result) ← readChunk chunk
    some (records.update [] setup (· ++ [result]))) .empty

end LogAggregator

end Narwhal.Benchmark
