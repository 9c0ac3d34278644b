import StarknetSequencer.Dict
import StarknetSequencer.Wire.Decimal

namespace Narwhal.Benchmark

open Wire

-- what a figure of a setup holds: a number, or one of the words that stand for a number
inductive Field where
  | number (n : Int)
  | any
  | x
  | unknown
deriving DecidableEq

def Field.str : Field → List Char
  | .number n => n.repr.toList
  | .any => "any".toList
  | .x => "x".toList
  | .unknown => "?".toList

theorem Field.newline_not_mem (field : Field) : '\n' ∉ field.str := by
  cases field with
  | number n =>
    intro h
    rcases intRepr_char h with h | h
    · exact absurd h (by decide)
    · exact absurd h (by decide)
  | any => decide
  | x => decide
  | unknown => decide

theorem Field.number_ne {n : Int} {word : List Char} {c : Char} (hc : c ∈ word)
    (hdigit : ¬ c.isDigit) (hdash : c ≠ '-') : (Field.number n).str ≠ word := by
  rintro rfl
  rcases intRepr_char hc with h | h
  · exact hdigit h
  · exact hdash h

theorem Field.str_inj {field field' : Field} (h : field.str = field'.str) : field = field' := by
  have hany (n : Int) : (number n).str ≠ any.str :=
    number_ne (c := 'a') (by decide) (by decide) (by decide)
  have hx (n : Int) : (number n).str ≠ x.str :=
    number_ne (c := 'x') (by decide) (by decide) (by decide)
  have hunknown (n : Int) : (number n).str ≠ unknown.str :=
    number_ne (c := '?') (by decide) (by decide) (by decide)
  cases field with
  | number n =>
    cases field' with
    | number n' => rw [intRepr_inj (String.toList_inj.mp h)]
    | any => exact absurd h (hany n)
    | x => exact absurd h (hx n)
    | unknown => exact absurd h (hunknown n)
  | any =>
    cases field' with
    | number n => exact absurd h.symm (hany n)
    | any => rfl
    | x => exact absurd h (by decide)
    | unknown => exact absurd h (by decide)
  | x =>
    cases field' with
    | number n => exact absurd h.symm (hx n)
    | any => exact absurd h (by decide)
    | x => rfl
    | unknown => exact absurd h (by decide)
  | unknown =>
    cases field' with
    | number n => exact absurd h.symm (hunknown n)
    | any => exact absurd h (by decide)
    | x => exact absurd h (by decide)
    | unknown => rfl

def boolStr (b : Bool) : List Char := if b then "True".toList else "False".toList

structure Setup where
  nodes : Field
  workers : Field
  collocate : Bool
  rate : Field
  txSize : Field
  faults : Field
  maxLatency : Field

namespace Setup

def lines (setup : Setup) : List (List Char) :=
  [" Faults: ".toList ++ setup.faults.str,
    " Committee size: ".toList ++ setup.nodes.str,
    " Workers per node: ".toList ++ setup.workers.str,
    " Collocate primary and workers: ".toList ++ boolStr setup.collocate,
    " Input rate: ".toList ++ (setup.rate.str ++ " tx/s".toList),
    " Transaction size: ".toList ++ (setup.txSize.str ++ " B".toList),
    " Max latency: ".toList ++ (setup.maxLatency.str ++ " ms".toList)]

def str (setup : Setup) : List Char := setup.lines.flatMap (· ++ ['\n'])

theorem newline_not_mem {setup : Setup} {line : List Char} (h : line ∈ setup.lines) :
    '\n' ∉ line := by
  have hbool : '\n' ∉ boolStr setup.collocate := by
    cases setup.collocate <;> decide
  simp only [lines, List.mem_cons, List.not_mem_nil, or_false] at h
  rcases h with rfl | rfl | rfl | rfl | rfl | rfl | rfl <;>
    simp only [List.mem_append, not_or, Field.newline_not_mem, hbool, not_false_iff, and_true,
      true_and] <;>
    decide

theorem str_inj {setup setup' : Setup} (h : setup.str = setup'.str) : setup = setup' := by
  have hlines := flatMap_line_inj (fun _ => newline_not_mem) (fun _ => newline_not_mem) h
  obtain ⟨nodes, workers, collocate, rate, txSize, faults, maxLatency⟩ := setup
  obtain ⟨nodes', workers', collocate', rate', txSize', faults', maxLatency'⟩ := setup'
  simp only [lines, List.cons.injEq, and_true] at hlines
  obtain ⟨hfaults, hnodes, hworkers, hcollocate, hrate, htxSize, hmax⟩ := hlines
  have hvalue {label word : List Char} {field field' : Field}
      (h : label ++ (field.str ++ word) = label ++ (field'.str ++ word)) : field = field' :=
    Field.str_inj (List.append_cancel_right (List.append_cancel_left h))
  have hbool : collocate = collocate' := by
    have hsame := List.append_cancel_left hcollocate
    revert hsame
    cases collocate <;> cases collocate' <;> decide
  rw [Field.str_inj (List.append_cancel_left hfaults),
    Field.str_inj (List.append_cancel_left hnodes),
    Field.str_inj (List.append_cancel_left hworkers), hbool, hvalue hrate, hvalue htxSize,
    hvalue hmax]

-- `__eq__` and `__hash__` go through the printed form
instance : DecidableEq Setup := fun setup setup' =>
  decidable_of_iff (setup.str = setup'.str) ⟨str_inj, congrArg str⟩

end Setup

-- the figures that `Setup.from_str` reads
structure SetupFigures where
  faults : Int
  nodes : Int
  workers : Int
  collocate : Bool
  rate : Int
  txSize : Int
deriving DecidableEq

def SetupFigures.setup (figures : SetupFigures) : Setup where
  nodes := .number figures.nodes
  workers := .number figures.workers
  collocate := figures.collocate
  rate := .number figures.rate
  txSize := .number figures.txSize
  faults := .number figures.faults
  maxLatency := .any

structure Result where
  meanTps : Int
  meanLatency : Int
  stdTps : Int
  stdLatency : Int
deriving DecidableEq

namespace LogAggregator

-- `for v, r in organized[setup]`: the index moves on over the list that `remove` shortens
def removeLower (value : Int) (result : Result) (i : Nat) (points : List (Int × Result))
    (highestTps : Bool) : List (Int × Result) × Bool :=
  if h : i < points.length then
    if result.meanTps > points[i].2.meanTps ∧ value = points[i].1 then
      removeLower value result (i + 1) (points.erase points[i]) true
    else removeLower value result (i + 1) points highestTps
  else (points, highestTps)
termination_by points.length - i
decreasing_by
  · have hle : (points.erase points[i]).length ≤ points.length := List.length_erase_le
    omega
  · omega

def addPoint (value : Int) (result : Result) (points : List (Int × Result)) :
    List (Int × Result) :=
  let newPoint := points.all fun x => value ≠ x.1
  let (points, highestTps) := removeLower value result 0 points false
  if newPoint || highestTps then points ++ [(value, result)] else points

def seriesSetup (scalability : Bool) (maxLatency : Int) (figures : SetupFigures) : Setup :=
  let setup := { figures.setup with rate := .any, maxLatency := .number maxLatency }
  if scalability then { setup with workers := .x } else { setup with nodes := .x }

def seriesValue (scalability : Bool) (figures : SetupFigures) : Int :=
  if scalability then figures.workers else figures.nodes

def printTps (records : Dict SetupFigures Result) (maxLatencies : List Int)
    (scalability : Bool) : String × Dict Setup (List (Int × Result)) :=
  let organized : Dict Setup (List (Int × Result)) :=
    maxLatencies.foldl (fun organized maxLatency =>
      records.items.foldl (fun organized record =>
        if record.2.meanLatency ≤ maxLatency then
          organized.update [] (seriesSetup scalability maxLatency record.1)
            (addPoint (seriesValue scalability record.1) record.2)
        else organized) organized) .empty
  ("tps", organized.mapValues fun points => points.mergeSort fun x y => x.1 ≤ y.1)

end LogAggregator

end Narwhal.Benchmark
