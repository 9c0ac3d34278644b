import StarknetSequencer.Datetime
import StarknetSequencer.Narwhal.Merge
import StarknetSequencer.Narwhal.Summaries

namespace Narwhal.Benchmark

open Wire

-- a POSIX time: a double that no date of the years 1 to 9999 takes further
abbrev Timestamp := {units : Int // units.natAbs ≤ 2 ^ 41 * Binary64.one}

abbrev Digest := List Char

-- the machine's time zone, for times that name no offset
structure Zone where
  mktime : Int → Option Int
  near : ∀ {t u}, mktime t = some u → (u - t).natAbs ≤ 86400000000

def Zone.utc : Zone := ⟨some, by simp⟩

theorem natAbs_timestamp_le {micros : Int} (h : micros.natAbs ≤ 2 ^ 39 * 1000000) :
    (Binary64.rounded (micros * Binary64.one) 1000000).natAbs ≤ 2 ^ 41 * Binary64.one := by
  have hround := @Binary64.nearest_le 52 (micros * (Binary64.one : Int)).natAbs 1000000
  have hquot : micros.natAbs * Binary64.one / 1000000 ≤ 2 ^ 39 * Binary64.one := by
    refine Nat.div_le_of_le_mul ((Nat.mul_le_mul_right Binary64.one h).trans_eq ?_)
    rw [mul_comm (2 ^ 39), Nat.mul_assoc]
  have hone := Binary64.one_pos
  rw [Binary64.natAbs_rounded]
  rw [Int.natAbs_mul, Int.natAbs_natCast] at hround ⊢
  omega

namespace LogParser

-- what a `_parse_*` function raises
inductive Raised where
  | parseError (message : String)
  | attributeError
  | valueError
deriving DecidableEq

-- `\[(.*Z) .* `, and then the rest of a pattern
def stamped (rest : Pattern) : Pattern :=
  let dots := Pattern.many (· ≠ '\n')
  (Pattern.word ['[']).cat ((Pattern.cat dots (.word ['Z'])).group.cat
    ((Pattern.word [' ']).cat (dots.cat ((Pattern.word [' ']).cat rest))))

def label (text : String) (rest : Pattern) : Pattern := (Pattern.word text.toList).cat rest

def nonBlank : Pattern := .plus (· ≠ ' ')

-- `B\d+\([^ ]+\) -> ([^ ]+=)` after a word
def header (text : String) : Pattern :=
  label (text ++ " B") (digits.cat (label "(" (nonBlank.cat (label ") -> "
    (nonBlank.cat (.word ['='])).group))))

-- `text .* (\d+)`
def setting (text : String) : Pattern :=
  label (text ++ " ") ((Pattern.many (· ≠ '\n')).cat (label " " digits.group))

def address : Pattern :=
  let dot := Pattern.one (· ≠ '\n')
  label "booted on " (digits.cat (dot.cat (digits.cat (dot.cat (digits.cat (dot.cat digits)))))).group

def group1 (pattern : Pattern) (log : List Char) : Except Raised (List Char) :=
  match searchGroup pattern log with
  | some text => .ok text
  | none => .error .attributeError

def groupInt (pattern : Pattern) (log : List Char) : Except Raised Nat :=
  (group1 pattern log).map readInt

-- `findall` of a pattern with two groups
def findPairs (pattern : Pattern) (log : List Char) : List (List Char × List Char) :=
  (pattern.findall log).filterMap fun m =>
    match m.groups with
    | [first, second] => some (first, second)
    | _ => none

section Parse

variable (zone : Zone)

theorem natAbs_micros_le (civil : Datetime.Civil) {micros : Int}
    (h : (micros - civil.sinceEpoch).natAbs ≤ 86400000000) :
    micros.natAbs ≤ 2 ^ 39 * 1000000 := by
  have hcivil := civil.natAbs_sinceEpoch_le
  omega

-- `datetime.timestamp`
def timestamp (civil : Datetime.Civil) : Option Datetime.Offset → Option Timestamp
  | some offset => some ⟨_, natAbs_timestamp_le (@natAbs_micros_le civil
      (civil.sinceEpoch - offset) (by have hday := offset.property; omega))⟩
  | none =>
    match h : zone.mktime civil.sinceEpoch with
    | some _ => some ⟨_, natAbs_timestamp_le (natAbs_micros_le civil (zone.near h))⟩
    | none => none

def toPosix (text : List Char) : Except Raised Timestamp :=
  match Datetime.fromisoformat
    (text.flatMap fun c => if c = 'Z' then "+00:00".toList else [c]) with
  | none => .error .valueError
  | some (civil, offset) =>
    match timestamp zone civil offset with
    | some t => .ok t
    | none => .error .valueError

structure ClientLog where
  size : Nat
  rate : Nat
  start : Timestamp
  misses : Nat
  samples : Dict Nat Timestamp

def parseClients (log : List Char) : Except Raised ClientLog := do
  if ((Pattern.word "Error".toList).search log).isSome then
    throw (.parseError "Client(s) panicked")
  let size ← groupInt (label "Transactions size: " digits.group) log
  let rate ← groupInt (label "Transactions rate: " digits.group) log
  let start ← toPosix zone (← group1 (stamped (.word "Start ".toList)) log)
  let misses := ((Pattern.word "rate too high".toList).findall log).length
  let samples ← (findPairs (stamped (label "sample transaction " digits.group)) log).mapM
    fun (t, s) => do return (readInt s, ← toPosix zone t)
  return ⟨size, rate, start, misses, .ofList samples⟩

structure Configs where
  headerSize : Nat
  maxHeaderDelay : Nat
  gcDepth : Nat
  syncRetryDelay : Nat
  syncRetryNodes : Nat
  batchSize : Nat
  maxBatchDelay : Nat

structure PrimaryLog where
  proposals : Dict Digest Timestamp
  commits : Dict Digest Timestamp
  configs : Configs
  ip : List Char

-- the times at which a primary created, or committed, each digest
def headerTimes (text : String) (log : List Char) : Except Raised (Dict Digest Timestamp) := do
  let entries ← (findPairs (stamped (header text)) log).mapM
    fun (t, d) => do return (d, ← toPosix zone t)
  return mergeResults [entries]

def parsePrimaries (log : List Char) : Except Raised PrimaryLog := do
  if ((Pattern.alt (.word "panicked".toList) (.word "Error".toList)).search log).isSome then
    throw (.parseError "Primary(s) panicked")
  let proposals ← headerTimes zone "Created" log
  let commits ← headerTimes zone "Committed" log
  let headerSize ← groupInt (setting "Header size") log
  let maxHeaderDelay ← groupInt (setting "Max header delay") log
  let gcDepth ← groupInt (setting "Garbage collection depth") log
  let syncRetryDelay ← groupInt (setting "Sync retry delay") log
  let syncRetryNodes ← groupInt (setting "Sync retry nodes") log
  let batchSize ← groupInt (setting "Batch size") log
  let maxBatchDelay ← groupInt (setting "Max batch delay") log
  let ip ← group1 address log
  return ⟨proposals, commits, ⟨headerSize, maxHeaderDelay, gcDepth, syncRetryDelay,
    syncRetryNodes, batchSize, maxBatchDelay⟩, ip⟩

structure WorkerLog where
  sizes : Dict Digest Nat
  samples : Dict Nat Digest
  ip : List Char

def batchLine (rest : Pattern) : Pattern := label "Batch " (nonBlank.group.cat rest)

def parseWorkers (log : List Char) : Except Raised WorkerLog := do
  if ((Pattern.alt (.word "panic".toList) (.word "Error".toList)).search log).isSome then
    throw (.parseError "Worker(s) panicked")
  let sizes := (findPairs (batchLine (label " contains "
    (digits.group.cat (.word " B".toList)))) log).map fun (d, s) => (d, readInt s)
  let samples := (findPairs (batchLine (label " contains sample tx " digits.group)) log).map
    fun (d, s) => (readInt s, d)
  let ip ← group1 address log
  return ⟨.ofList sizes, .ofList samples, ip⟩

end Parse

end LogParser

end Narwhal.Benchmark
