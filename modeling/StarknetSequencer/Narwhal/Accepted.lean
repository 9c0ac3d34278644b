import StarknetSequencer.Narwhal.Reports

namespace Narwhal.Benchmark

open Wire Binary64 Effect

namespace LogParser

section Logs

variable (clientLogs : List ClientLog) (primaryLogs : List PrimaryLog)
  (workerLogs : List WorkerLog)

def Committed (digest : Digest) : Prop := ∃ log ∈ primaryLogs, digest ∈ log.commits.keys

def Created (digest : Digest) : Prop := ∃ log ∈ primaryLogs, digest ∈ log.proposals.keys

-- a digest that several primaries commit counts from the first of them on
def CommitTime (digest : Digest) (t : Timestamp) : Prop :=
  IsLeast {s | ∃ log ∈ primaryLogs, log.commits.get? digest = some s} t

def LastCommit (t : Timestamp) : Prop := IsGreatest {s | ∃ digest, CommitTime primaryLogs digest s} t

def FirstProposal (t : Timestamp) : Prop :=
  IsLeast {s | ∃ log ∈ primaryLogs, ∃ digest, log.proposals.get? digest = some s} t

def FirstStart (t : Timestamp) : Prop := IsLeast {s | ∃ log ∈ clientLogs, log.start = s} t

-- of the workers that name a batch the last one tells its size
def batchSize (digest : Digest) : Nat :=
  (workerLogs.reverse.findSome? fun log => log.sizes.get? digest).getD 0

def committedDigests : Finset Digest := (primaryLogs.flatMap fun log => log.commits.keys).toFinset

def committedBytes : Nat := (committedDigests primaryLogs).sum (batchSize workerLogs)

-- the last commit comes at another time than a start, and not so soon after it that the committed
-- bytes a second exceed the largest double
def Lasting (first : Timestamp → Prop) : Prop :=
  ∃ start finish, first start ∧ LastCommit primaryLogs finish ∧ start ≠ finish ∧
    InRange ((rounded (committedBytes primaryLogs workerLogs * one) 1).natAbs * one)
      (since finish start).val.natAbs

-- what the logs hold when every figure can be computed from them
structure Summarizable : Prop where
  created : ∀ digest, Committed primaryLogs digest → Created primaryLogs digest
  size : ∀ log ∈ clientLogs.head?, log.size ≠ 0 ∧ InRange (log.size * one) 1
  bytes : InRange (committedBytes primaryLogs workerLogs * one) 1
  sinceProposals : Lasting primaryLogs workerLogs (FirstProposal primaryLogs)
  sinceStart : Lasting primaryLogs workerLogs (FirstStart clientLogs)
  sent : ∀ pair ∈ clientLogs.zip workerLogs, ∀ tx digest, pair.2.samples.get? tx = some digest →
    Committed primaryLogs digest → tx ∈ pair.1.samples.keys

end Logs

structure Built (p : LogParser) (clientLogs : Several ClientLog) (primaryLogs : Several PrimaryLog)
    (workerLogs : Several WorkerLog) : Prop where
  size : p.size = clientLogs.map ClientLog.size
  start : p.start = clientLogs.map ClientLog.start
  sentSamples : p.sentSamples = clientLogs.map ClientLog.samples
  proposals : p.proposals = mergeResults (primaryLogs.toList.map fun log => log.proposals.items)
  commits : p.commits = mergeResults (primaryLogs.toList.map fun log => log.commits.items)
  sizes : p.sizes = .ofList ((workerLogs.toList.flatMap fun log => log.sizes.items).filter
    fun item => item.1 ∈ p.commits.keys)
  receivedSamples : p.receivedSamples = workerLogs.map WorkerLog.samples

theorem someLogs_ok {logs : List (List Char)} {several : Several (List Char)}
    (h : someLogs logs = .ok several) : several.toList = logs := by
  cases logs with
  | nil => cases h
  | cons log logs =>
    cases h
    rfl

theorem parsing_ok {α : Type} {message : String} {x : Except Raised α} {a : α}
    (h : parsing message x = .ok a) : x = .ok a := by
  cases x with
  | ok b =>
    cases h
    rfl
  | error e => cases e <;> cases h

theorem traverse_ok {α β ε : Type} {f : α → Except ε β} {xs : Several α} {ys : Several β}
    (h : xs.traverse f = .ok ys) : xs.toList.mapM f = .ok ys.toList := by
  rw [Several.traverse] at h
  simp only [bind_ok_iff] at h
  obtain ⟨b, hb, bs, hbs, hys⟩ := h
  cases hys
  rw [Several.toList, List.mapM_cons, hb, Several.toList]
  simp only [bind, Except.bind, hbs]
  rfl

theorem built_of_new {zone : Zone} {clients primaries workers : List (List Char)} {faults : Field}
    {p : LogParser} (h : new zone clients primaries workers faults = .ok p) :
    ∃ clientLogs primaryLogs workerLogs,
      clients.mapM (parseClients zone) = .ok clientLogs.toList ∧
      primaries.mapM (parsePrimaries zone) = .ok primaryLogs.toList ∧
      workers.mapM parseWorkers = .ok workerLogs.toList ∧
      Built p clientLogs primaryLogs workerLogs := by
  simp only [new, bind_ok_iff] at h
  obtain ⟨clients', hc, primaries', hp, workers', hw, clientLogs, hclients, primaryLogs, hprimaries,
    workerLogs, hworkers, hbuilt⟩ := h
  cases hbuilt
  refine ⟨clientLogs, primaryLogs, workerLogs, ?_, ?_, ?_, ⟨rfl, rfl, rfl, rfl, rfl, rfl, rfl⟩⟩
  · rw [← someLogs_ok hc]
    exact traverse_ok (parsing_ok hclients)
  · rw [← someLogs_ok hp]
    exact traverse_ok (parsing_ok hprimaries)
  · rw [← someLogs_ok hw]
    exact traverse_ok (parsing_ok hworkers)

theorem toList_map {α β : Type} (f : α → β) (xs : Several α) :
    (xs.map f).toList = xs.toList.map f := rfl

theorem occurs_logs {logs : List PrimaryLog} {times : PrimaryLog → Dict Digest Timestamp}
    {digest : Digest} {t : Timestamp} :
    Occurs (logs.map fun log => (times log).items) digest t ↔
      ∃ log ∈ logs, (times log).get? digest = some t := by
  simp only [Occurs, List.mem_map, exists_exists_and_eq_and, Dict.get?_eq_some]

theorem mem_keys_merged {logs : List PrimaryLog} {times : PrimaryLog → Dict Digest Timestamp}
    {digest : Digest} :
    digest ∈ (mergeResults (logs.map fun log => (times log).items)).keys ↔
      ∃ log ∈ logs, digest ∈ (times log).keys := by
  rw [mem_keys_mergeResults]
  simp only [occurs_logs, Dict.mem_keys]
  constructor
  · rintro ⟨t, log, hlog, h⟩
    exact ⟨log, hlog, t, h⟩
  · rintro ⟨log, hlog, t, h⟩
    exact ⟨t, log, hlog, h⟩

theorem min?_eq_some_iff_isLeast {xs : List Timestamp} {t : Timestamp} :
    xs.min? = some t ↔ IsLeast {s | s ∈ xs} t := List.min?_eq_some_iff

theorem max?_eq_some_iff_isGreatest {xs : List Timestamp} {t : Timestamp} :
    xs.max? = some t ↔ IsGreatest {s | s ∈ xs} t := List.max?_eq_some_iff

-- the earliest of the times that are kept for the keys is the earliest of all
theorem min?_values_mergeResults {input : List (List (Digest × Timestamp))} {t : Timestamp} :
    (mergeResults input).values.min? = some t ↔ IsLeast {s | ∃ k, Occurs input k s} t := by
  have hvalue {s : Timestamp} : s ∈ (mergeResults input).values ↔
      ∃ k, IsLeast {r | Occurs input k r} s := by
    rw [Dict.mem_values]
    simp only [get?_mergeResults]
  have hfirst {k : Digest} {r : Timestamp} (h : Occurs input k r) :
      ∃ s ∈ (mergeResults input).values, s ≤ r := by
    obtain ⟨s, hs⟩ := (Dict.mem_keys _).mp ((mem_keys_mergeResults input k).mpr ⟨r, h⟩)
    have hleast := (get?_mergeResults input k s).mp hs
    exact ⟨s, hvalue.mpr ⟨k, hleast⟩, hleast.2 h⟩
  rw [min?_eq_some_iff_isLeast]
  constructor
  · rintro ⟨hmem, hlower⟩
    obtain ⟨k, hleast⟩ := hvalue.mp hmem
    refine ⟨⟨k, hleast.1⟩, ?_⟩
    rintro r ⟨j, hr⟩
    obtain ⟨s, hs, hsr⟩ := hfirst hr
    exact (hlower hs).trans hsr
  · rintro ⟨⟨k, hk⟩, hlower⟩
    refine ⟨hvalue.mpr ⟨k, hk, fun r hr => hlower ⟨k, hr⟩⟩, ?_⟩
    rintro s hs
    obtain ⟨j, hleast⟩ := hvalue.mp hs
    exact hlower ⟨j, hleast.1⟩

section Built

variable {p : LogParser} {clientLogs : Several ClientLog} {primaryLogs : Several PrimaryLog}
  {workerLogs : Several WorkerLog} (h : Built p clientLogs primaryLogs workerLogs)

include h

theorem Built.mem_commits {digest : Digest} :
    digest ∈ p.commits.keys ↔ Committed primaryLogs.toList digest := by
  rw [h.commits]
  exact mem_keys_merged

theorem Built.mem_proposals {digest : Digest} :
    digest ∈ p.proposals.keys ↔ Created primaryLogs.toList digest := by
  rw [h.proposals]
  exact mem_keys_merged

theorem Built.lastCommit {t : Timestamp} :
    p.commits.values.max? = some t ↔ LastCommit primaryLogs.toList t := by
  have hset : {s | s ∈ p.commits.values} =
      {s | ∃ digest, CommitTime primaryLogs.toList digest s} := by
    ext s
    rw [h.commits]
    simp only [Set.mem_ofPred_eq, Dict.mem_values, get?_mergeResults, CommitTime, occurs_logs]
  rw [max?_eq_some_iff_isGreatest, hset, LastCommit]

theorem Built.firstProposal {t : Timestamp} :
    p.proposals.values.min? = some t ↔ FirstProposal primaryLogs.toList t := by
  have hset : {s | ∃ digest, Occurs (primaryLogs.toList.map fun log => log.proposals.items) digest s} =
      {s | ∃ log ∈ primaryLogs.toList, ∃ digest, log.proposals.get? digest = some s} := by
    ext s
    simp only [Set.mem_ofPred_eq, occurs_logs]
    constructor
    · rintro ⟨digest, log, hlog, hs⟩
      exact ⟨log, hlog, digest, hs⟩
    · rintro ⟨log, hlog, digest, hs⟩
      exact ⟨digest, log, hlog, hs⟩
  rw [h.proposals, min?_values_mergeResults, hset, FirstProposal]

theorem Built.firstStart {t : Timestamp} :
    p.start.toList.min? = some t ↔ FirstStart clientLogs.toList t := by
  rw [h.start, toList_map, min?_eq_some_iff_isLeast]
  simp only [List.mem_map]
  exact Iff.rfl

theorem Built.bytes : p.sizes.values.sum = committedBytes primaryLogs.toList workerLogs.toList := by
  have hcommitted {digest : Digest} :
      digest ∈ committedDigests primaryLogs.toList ↔ digest ∈ p.commits.keys := by
    rw [h.mem_commits, committedDigests, List.mem_toFinset, List.mem_flatMap]
    exact Iff.rfl
  have hkeys : ∀ digest ∈ p.sizes.keys, digest ∈ committedDigests primaryLogs.toList := by
    intro digest hdigest
    rw [h.sizes, Dict.mem_keys_ofList, List.mem_map] at hdigest
    obtain ⟨item, hitem, rfl⟩ := hdigest
    exact hcommitted.mpr (of_decide_eq_true (List.mem_filter.mp hitem).2)
  rw [Dict.sum_values _ hkeys, committedBytes]
  refine Finset.sum_congr rfl fun digest hdigest => ?_
  have hget := Dict.get?_ofList_flatMap (workerLogs.toList.map WorkerLog.sizes) digest
  rw [List.flatMap_map, ← List.map_reverse, List.findSome?_map] at hget
  rw [h.sizes, Dict.get?_ofList_filter (hcommitted.mp hdigest), hget]
  rfl

theorem Built.samples_iff :
    (∀ sample ∈ p.samples, sample.2.2 ∈ p.commits.keys → sample.2.1 ∈ sample.1.keys) ↔
      ∀ pair ∈ clientLogs.toList.zip workerLogs.toList, ∀ tx digest,
        pair.2.samples.get? tx = some digest → Committed primaryLogs.toList digest →
          tx ∈ pair.1.samples.keys := by
  have hzip : p.sentSamples.toList.zip p.receivedSamples.toList =
      (clientLogs.toList.zip workerLogs.toList).map
        fun pair => (pair.1.samples, pair.2.samples) := by
    rw [h.sentSamples, h.receivedSamples, toList_map, toList_map, List.zip_map]
    rfl
  constructor
  · intro hsent pair hpair tx digest hget hcommitted
    have hitem := (Dict.get?_eq_some _).mp hget
    refine hsent (pair.1.samples, (tx, digest)) ?_ (h.mem_commits.mpr hcommitted)
    rw [samples, hzip, List.mem_flatMap]
    exact ⟨_, List.mem_map_of_mem hpair, List.mem_map_of_mem hitem⟩
  · intro hsent sample hsample hcommitted
    rw [samples, hzip, List.mem_flatMap] at hsample
    obtain ⟨_, hzipped, hsample⟩ := hsample
    obtain ⟨pair, hpair, rfl⟩ := List.mem_map.mp hzipped
    obtain ⟨item, hitem, rfl⟩ := List.mem_map.mp hsample
    exact hsent pair hpair item.1 item.2 ((Dict.get?_eq_some _).mpr hitem)
      (h.mem_commits.mp hcommitted)

theorem Built.timed_iff {starts : List Timestamp} {first : Timestamp → Prop}
    (hstarts : ∀ t, starts.min? = some t ↔ first t) :
    p.Timed starts ↔ Lasting primaryLogs.toList workerLogs.toList first := by
  simp only [Timed, Option.mem_def, hstarts, h.lastCommit, h.bytes]
  constructor
  · rintro ⟨start, hstart, finish, hfinish, hne, hrange⟩
    exact ⟨start, finish, hstart, hfinish, hne, hrange⟩
  · rintro ⟨start, finish, hstart, hfinish, hne, hrange⟩
    exact ⟨start, hstart, finish, hfinish, hne, hrange⟩

theorem Built.sufficient_iff : p.Sufficient ↔
    Summarizable clientLogs.toList primaryLogs.toList workerLogs.toList := by
  have hsize : p.size.first = clientLogs.first.size := by
    rw [h.size]
    rfl
  have hproposals := h.timed_iff fun t => h.firstProposal
  have hstart := h.timed_iff fun t => h.firstStart
  constructor
  · intro hs
    refine ⟨?_, ?_, ?_, hproposals.mp hs.sinceProposals, hstart.mp hs.sinceStart,
      h.samples_iff.mp hs.sent⟩
    · intro digest hdigest
      exact h.mem_proposals.mp (hs.proposed digest (h.mem_commits.mpr hdigest))
    · rintro log ⟨⟩
      rw [← hsize]
      exact ⟨hs.weighed.size_ne, hs.weighed.size_range⟩
    · rw [← h.bytes]
      exact hs.weighed.bytes_range
  · intro hs
    obtain ⟨hne, hrange⟩ := hs.size clientLogs.first rfl
    rw [← hsize] at hne hrange
    refine ⟨?_, ⟨hne, hrange, ?_⟩, hproposals.mpr hs.sinceProposals, hstart.mpr hs.sinceStart,
      h.samples_iff.mpr hs.sent⟩
    · intro digest hdigest
      exact h.mem_proposals.mpr (hs.created digest (h.mem_commits.mp hdigest))
    · rw [h.bytes]
      exact hs.bytes

theorem Built.nothing_committed_iff :
    p.commits.keys = [] ↔ ∀ digest, ¬ Committed primaryLogs.toList digest := by
  simp only [List.eq_nil_iff_forall_not_mem, h.mem_commits]

end Built

theorem accepted_summarized_iff {zone : Zone} {clients primaries workers : List (List Char)}
    {faults : Field} {p : LogParser} (h : new zone clients primaries workers faults = .ok p) :
    ∃ clientLogs primaryLogs workerLogs,
      clients.mapM (parseClients zone) = .ok clientLogs ∧
      primaries.mapM (parsePrimaries zone) = .ok primaryLogs ∧
      workers.mapM parseWorkers = .ok workerLogs ∧
      ((∃ text, p.result = .ok text) ↔ (∀ digest, ¬ Committed primaryLogs digest) ∨
        Summarizable clientLogs primaryLogs workerLogs) := by
  obtain ⟨clientLogs, primaryLogs, workerLogs, hclients, hprimaries, hworkers, hbuilt⟩ :=
    built_of_new h
  refine ⟨_, _, _, hclients, hprimaries, hworkers, ?_⟩
  rw [result_ok_iff, hbuilt.nothing_committed_iff, hbuilt.sufficient_iff]

def line (second text : String) : List Char :=
  "[2023-01-05T12:34:".toList ++ (second.toList ++ ("Z I] ".toList ++ (text.toList ++ ['\n'])))

def clientLog : List Char :=
  line "50" "Transactions size: 512 B" ++ (line "50" "Transactions rate: 250 tx/s" ++
    (line "51" "Start sending" ++ line "51" "Sending sample transaction 0"))

def settings : List Char :=
  line "50" "Header size is 1000 B" ++ (line "50" "Max header delay is 100 ms" ++
    (line "50" "Garbage collection depth is 50" ++
      (line "50" "Sync retry delay is 10000 ms" ++
        (line "50" "Sync retry nodes is 3 nodes" ++
          (line "50" "Batch size is 500000 B" ++
            (line "50" "Max batch delay is 100 ms" ++
              line "50" "A booted on 127.0.0.1"))))))

def created : List Char := line "51" "Created B1(A) -> d1="

def committed : List Char := line "52" "Committed B1(A) -> d1="

def workerLog : List Char :=
  line "50" "Worker 0 booted on 127.0.0.1" ++ (line "51" "Batch d1= contains 5120 B" ++
    line "51" "Batch d1= contains sample tx 0")

-- whether the constructor took the logs and `result` then ends as told
def ends (parsed : Except Rejected LogParser) (told : Except Failure (List Char) → Bool) : Bool :=
  match parsed with
  | .ok p => told p.result
  | .error _ => false

theorem exists_of_ends {parsed : Except Rejected LogParser}
    {told : Except Failure (List Char) → Bool} (h : ends parsed told) :
    ∃ p, parsed = .ok p ∧ told p.result := by
  cases parsed with
  | ok p => exact ⟨p, rfl, h⟩
  | error e => exact absurd h Bool.false_ne_true

def parsed (primaryLog : List Char) : Except Rejected LogParser :=
  new .utc [clientLog] [primaryLog] [workerLog] (.number 0)

theorem accepted_summarized_created :
    ∃ p, new .utc [clientLog] [settings ++ (created ++ committed)] [workerLog] (.number 0) =
        .ok p ∧
      ∃ clientLogs primaryLogs workerLogs,
        [clientLog].mapM (parseClients .utc) = .ok clientLogs ∧
        [settings ++ (created ++ committed)].mapM (parsePrimaries .utc) = .ok primaryLogs ∧
        [workerLog].mapM parseWorkers = .ok workerLogs ∧
        ((∀ digest, ¬ Committed primaryLogs digest) ∨
          Summarizable clientLogs primaryLogs workerLogs) := by
  have hends : ends (parsed (settings ++ (created ++ committed))) fun
      | .error _ => false
      | .ok _ => true := by
    decide +kernel
  obtain ⟨p, hp, hresult⟩ := exists_of_ends hends
  have hreturns : ∃ text, p.result = .ok text := by
    cases hr : p.result with
    | error e =>
      rw [hr] at hresult
      exact absurd hresult Bool.false_ne_true
    | ok text => exact ⟨text, rfl⟩
  obtain ⟨clientLogs, primaryLogs, workerLogs, hc, hpr, hw, hiff⟩ := accepted_summarized_iff hp
  exact ⟨p, hp, clientLogs, primaryLogs, workerLogs, hc, hpr, hw, hiff.mp hreturns⟩

theorem unproposed_commit :
    ∃ p, new .utc [clientLog] [settings ++ committed] [workerLog] (.number 0) = .ok p ∧
      p.result = .error .keyError := by
  have hends : ends (parsed (settings ++ committed)) fun
      | .error e => e = .keyError
      | .ok _ => false := by
    decide +kernel
  obtain ⟨p, hp, hresult⟩ := exists_of_ends hends
  refine ⟨p, hp, ?_⟩
  cases hr : p.result with
  | error e =>
    rw [hr] at hresult
    rw [of_decide_eq_true hresult]
  | ok text =>
    rw [hr] at hresult
    exact absurd hresult Bool.false_ne_true

end LogParser

end Narwhal.Benchmark
