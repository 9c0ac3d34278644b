import Mathlib.Data.Char
import Mathlib.Data.List.Lex
import Mathlib.Data.Prod.Lex
import StarknetSequencer.Binary64
import StarknetSequencer.Narwhal.LogParser
import StarknetSequencer.Narwhal.Records

namespace Narwhal.Benchmark

open Wire Binary64

structure PlotParameters where
  faults : Several Int
  nodes : Several Int
  workers : Several Int
  collocate : Bool
  txSize : Int
  maxLatency : Several Int
  single : nodes.rest = [] ∨ workers.rest = []

namespace PlotParameters

variable (params : PlotParameters)

-- `len(self.workers) > 1`
def scalability : Bool := params.workers.rest ≠ []

-- the arguments of `PathMaker.agg_file`
def latencySetup (f x : Int) : Setup where
  nodes := .number (if params.scalability then params.nodes.first else x)
  workers := .number (if params.scalability then x else params.workers.first)
  collocate := params.collocate
  rate := .any
  txSize := .number params.txSize
  faults := .number f
  maxLatency := .any

end PlotParameters

namespace Ploter

inductive Failure where
  | plotError (message : String)
  | valueError
  | attributeError
  | aggregator (failure : LogAggregator.Failure)
deriving DecidableEq

-- `split('(\d+)', text)`: the text before the first number, and each number with the text after it
def pieces : List Char → List Char × List (List Char × List Char)
  | [] => ([], [])
  | c :: cs =>
    if isDecimal c then
      match pieces cs with
      | ([], (number, text) :: rest) => ([], (c :: number, text) :: rest)
      | (text, rest) => ([], ([c], text) :: rest)
    else (c :: (pieces cs).1, (pieces cs).2)

-- lists of which the same places are numbers
abbrev Keys := List Char ×ₗ List (Nat ×ₗ List Char)

def naturalKeys (text : List Char) : Keys :=
  toLex ((pieces text).1, (pieces text).2.map fun piece => toLex (readInt piece.1, piece.2))

def sorted (reverse : Bool) (results : List (List Char)) : List (List Char) :=
  if reverse then results.mergeSort fun x y => naturalKeys y ≤ naturalKeys x
  else results.mergeSort fun x y => naturalKeys x ≤ naturalKeys y

def groups (pattern : Pattern) (data : List Char) : List (List (List Char)) :=
  (pattern.findall data).map Match.groups

-- `label(\d+) \+/- (\d+)`
def spread (label : String) : Pattern :=
  (Pattern.word label.toList).cat
    (digits.group.cat ((Pattern.word " +/- ".toList).cat digits.group))

def pair : List (List Char) → Option (Nat × Nat)
  | [x, y] => some (readInt x, readInt y)
  | _ => none

def variableOf (data : List Char) : List Nat :=
  (groups (labelled "Variable value: X=" digits) data).filterMap fun groups =>
    groups.head?.map readInt

def tps (data : List Char) : List (Nat × Nat) := (groups (spread " TPS: ") data).filterMap pair

-- `float` of a numeral
def float (n : Nat) : Double := .ofUnits (n * one) 1

-- every caller leaves `scale` at 1
def latency (data : List Char) : List (Double × Double) :=
  ((groups (spread " Latency: ") data).filterMap pair).map fun value =>
    (float value.1, float value.2)

def search (label : String) (data : List Char) : Except Failure (List Char) :=
  match searchGroup (labelled label digits) data with
  | some figure => .ok figure
  | none => .error .attributeError

def faulty (data : List Char) : Except Failure (List Char) := do
  let f ← search "Faults: " data
  return if f ≠ ['0'] then '(' :: f ++ " faulty)".toList else []

def nodes (data : List Char) : Except Failure (List Char) := do
  let x ← search "Committee size: " data
  let faults ← faulty data
  return x ++ " nodes ".toList ++ faults

def workers (data : List Char) : Except Failure (List Char) := do
  let x ← search "Workers per node: " data
  let faults ← faulty data
  return x ++ " workers ".toList ++ faults

-- `:,.1f` of a number that is not negative
def oneDecimal : Double → List Char
  | .finite units =>
    let tenths := halfEven (10 * units.natAbs) one
    grouped (tenths / 10) ++ '.' :: (tenths % 10).repr.toList
  | .infinity _ => "inf".toList

def maxLatency (data : List Char) : Except Failure (List Char) := do
  let x ← search "Max latency: " data
  let faults ← faulty data
  return "Max latency: ".toList ++ oneDecimal ((float (readInt x)).quotient (1000 * one)) ++
    " s ".toList ++ faults

def read (files : Dict (List Char) (List Char)) (filename : List Char) :
    Except Failure (List Char) :=
  match files.get? filename with
  | some text => .ok (text.filter (· ≠ ','))
  | none => .error (.plotError "Failed to load log files: ")

-- the constructor
def load (files : Dict (List Char) (List Char)) (filenames : List (List Char)) :
    Except Failure (List (List Char)) := do
  if filenames = [] then throw (.plotError "No data to plot")
  filenames.mapM (read files)

section ReadBack

open LogAggregator Summary

theorem absent_blank {c : Char} {word v : List Char} (hblank : ' ' ∉ v)
    (hclash : clash (c :: word) v) : absent (' ' :: c :: word) (' ' :: v) := by
  have hhead : clash (' ' :: c :: word) (' ' :: v) := by
    rw [clash, Bool.or_eq_true]
    exact .inr hclash
  rw [absent, Bool.and_eq_true]
  exact ⟨hhead, absent_of_head hblank⟩

theorem clash_number {c : Char} (word : List Char) (hdigit : ¬ c.isDigit) (hdash : c ≠ '-')
    (n : Int) : clash (c :: word) n.repr.toList := by
  cases hrepr : n.repr.toList with
  | nil => exact absurd hrepr (intRepr_ne_nil n)
  | cons d ds =>
    have hd : c ≠ d := by
      rintro rfl
      have hmem : c ∈ n.repr.toList := hrepr ▸ List.mem_cons_self
      exact (intRepr_char hmem).elim hdigit hdash
    rw [clash, Bool.or_eq_true, decide_eq_true_iff]
    exact .inl hd

theorem blank_number {c : Char} (word : List Char) (hdigit : ¬ c.isDigit) (hdash : c ≠ '-')
    (n : Int) : absent (' ' :: c :: word) (' ' :: n.repr.toList) :=
  absent_blank (intRepr_not_mem (by decide) (by decide)) (clash_number word hdigit hdash n)

theorem blank_field {c : Char} {word : List Char} (hdigit : ¬ c.isDigit)
    (hword : c ∉ ['-', 'a', 'x', '?']) (field : Field) :
    absent (' ' :: c :: word) (' ' :: field.str) := by
  simp only [List.mem_cons, List.not_mem_nil, or_false, not_or] at hword
  obtain ⟨hdash, ha, hx, hunknown⟩ := hword
  have hfirst {d : Char} {ds : List Char} (h : c ≠ d) : clash (c :: word) (d :: ds) := by
    rw [clash, Bool.or_eq_true, decide_eq_true_iff]
    exact .inl h
  cases field with
  | number n => exact blank_number word hdigit hdash n
  | any => exact absent_blank (by decide) (hfirst ha)
  | x => exact absent_blank (by decide) (hfirst hx)
  | unknown => exact absent_blank (by decide) (hfirst hunknown)

def header (setup : Setup) : List Line :=
  [⟨" Faults:".toList, ' ' :: setup.faults.str, ['\n']⟩,
    ⟨" Committee size:".toList, ' ' :: setup.nodes.str, ['\n']⟩,
    ⟨" Workers per node:".toList, ' ' :: setup.workers.str, ['\n']⟩,
    ⟨" Collocate primary and workers:".toList, ' ' :: boolStr setup.collocate, ['\n']⟩,
    ⟨" Input rate:".toList, ' ' :: setup.rate.str, " tx/s\n".toList⟩,
    ⟨" Transaction size:".toList, ' ' :: setup.txSize.str, " B\n".toList⟩,
    ⟨" Max latency:".toList, ' ' :: setup.maxLatency.str, " ms\n".toList⟩]

theorem header_str (setup : Setup) : (header setup).flatMap Line.str = setup.str := by
  simp [header, Line.str, Setup.str, Setup.lines]

def opening (setup : Setup) : List Char :=
  '\n' :: rule ++ (" RESULTS:\n".toList ++ (rule ++ (setup.str ++ ['\n'])))

theorem text_eq (setup : Setup) (values : List (Int × Result)) : text setup values =
    opening setup ++ (['\n'].intercalate (values.map point) ++ (rule ++ [])) := by
  simp [text, opening]

theorem absent_opening {word : List Char} (hrule : absent word ('\n' :: rule))
    (htitle : absent word (" RESULTS:\n".toList ++ rule)) (hend : absent word ['\n'])
    (hlabels : ∀ setup, (header setup).all fun line => absent word line.lead &&
      absent word line.trail)
    (hfield : ∀ field : Field, absent word (' ' :: field.str))
    (hbool : ∀ b, absent word (' ' :: boolStr b)) (setup : Setup) :
    absent word (opening setup) := by
  have hvalues : ∀ line ∈ header setup, absent word line.value := by
    simp only [header, List.forall_mem_cons, hfield, hbool, List.not_mem_nil, IsEmpty.forall_iff,
      implies_true, and_self]
  have hstr : absent word setup.str := by
    rw [← header_str]
    exact absent_lines (hlabels setup) hvalues
  rw [opening, ← List.append_assoc " RESULTS:\n".toList]
  exact absent_append hrule (absent_append htitle (absent_append hstr hend))

theorem first_number (n : Nat) {trail : List Char} (htrail : trail.head?.any fun c => !isDecimal c)
    (more : List Char) : digits.group.first (n.repr.toList ++ (trail ++ more)) =
      some ⟨n.repr.toList, [n.repr.toList], trail ++ more⟩ := by
  rw [Pattern.first_group, first_digits n htrail]
  rfl

theorem first_spread (n m : Nat) {trail : List Char}
    (htrail : trail.head?.any fun c => !isDecimal c) (more : List Char) :
    (digits.group.cat ((Pattern.word " +/- ".toList).cat digits.group)).first
        (n.repr.toList ++ (" +/- ".toList ++ m.repr.toList) ++ (trail ++ more)) =
      some ⟨n.repr.toList ++ (" +/- ".toList ++ m.repr.toList),
        [n.repr.toList, m.repr.toList], trail ++ more⟩ := by
  have hsecond : ((Pattern.word " +/- ".toList).cat digits.group).first
      (" +/- ".toList ++ (m.repr.toList ++ (trail ++ more))) =
        some ⟨" +/- ".toList ++ m.repr.toList, [m.repr.toList], trail ++ more⟩ := by
    rw [Pattern.first_cat_word, first_number m htrail]
    rfl
  have hfirst := @first_number n " +/- ".toList rfl
    (m.repr.toList ++ (trail ++ more))
  rw [List.append_assoc, List.append_assoc]
  exact Pattern.first_cat hfirst hsecond

theorem groups_text {word : List Char} {q : Pattern} (hword : word ≠ [])
    {setup : Setup} (hopening : absent word (opening setup)) (hrule : absent word rule)
    (hend : absent word ['\n']) {before value after : Int × Result → List Char}
    {found : Int × Result → List (List Char)} {values : List (Int × Result)}
    (hpoint : ∀ v ∈ values, point v = before v ++ (word ++ (value v ++ after v)))
    (hbefore : ∀ v ∈ values, absent word (before v))
    (hafter : ∀ v ∈ values, absent word (after v))
    (hvalue : ∀ v ∈ values, ∀ more, q.first (value v ++ (after v ++ more)) =
      some ⟨value v, found v, after v ++ more⟩) :
    groups ((Pattern.word word).cat q) (text setup values) = values.map found := by
  rw [groups, text_eq, findall_absent hopening,
    findall_intercalate hword hend hpoint hbefore hafter hvalue, findall_absent hrule]
  exact List.append_nil _

theorem ungrouped_toNat {n : Int} (h : 0 ≤ n) : ungrouped n = n.toNat.repr.toList := by
  obtain ⟨m, rfl⟩ := Int.eq_ofNat_of_zero_le h
  rfl

theorem variableOf_text (setup : Setup) {values : List (Int × Result)} (h : Drawable values) :
    variableOf (text setup values) = values.map fun v => v.1.toNat := by
  have hword : "Variable value: X=".toList = 'V' :: "ariable value: X=".toList := rfl
  have hnumber (n : Int) : 'V' ∉ n.repr.toList := intRepr_not_mem (by decide) (by decide)
  have hfield (field : Field) : 'V' ∉ ' ' :: field.str := by
    refine List.not_mem_cons_of_ne_of_not_mem (by decide) ?_
    cases field with
    | number n => exact hnumber n
    | any => decide
    | x => decide
    | unknown => decide
  have hbool (b : Bool) : 'V' ∉ ' ' :: boolStr b := by cases b <;> decide
  have hresult (result : Result) : 'V' ∉ '\n' :: result.str := by
    simp [Result.str, ungrouped, hnumber]
  have hopening : absent "Variable value: X=".toList (opening setup) := by
    refine absent_opening rfl rfl rfl (fun _ => rfl) (fun field => ?_) (fun b => ?_) setup
    · exact hword ▸ absent_of_head (hfield field)
    · exact hword ▸ absent_of_head (hbool b)
  have hgroups : groups (labelled "Variable value: X=" digits) (text setup values) =
      values.map fun v => [v.1.toNat.repr.toList] := by
    refine @groups_text "Variable value: X=".toList digits.group (by decide) setup hopening rfl rfl
      (fun _ => [' ']) (fun v => v.1.toNat.repr.toList) (fun v => '\n' :: v.2.str) _ values
      (fun v hv => ?_) (fun _ _ => rfl) (fun v _ => ?_) (fun v _ => first_number _ rfl)
    · rw [point, ungrouped_toNat (h.counted v hv).1, List.singleton_append]
    · exact hword ▸ absent_of_head (hresult v.2)
  rw [variableOf, hgroups, List.filterMap_map]
  simp only [Function.comp_def, List.head?_cons, Option.map_some, readInt_repr]
  rw [List.filterMap_eq_map']

theorem absent_spread {c : Char} {word : List Char} (hrule : absent (' ' :: c :: word) rule)
    (htitle : absent (' ' :: c :: word) (" RESULTS:\n".toList ++ rule))
    (hlabels : ∀ setup, (header setup).all fun line => absent (' ' :: c :: word) line.lead &&
      absent (' ' :: c :: word) line.trail) (hdigit : ¬ c.isDigit) (hchars : c ∉ ['-', 'a', 'x', '?'])
    (hbool : ∀ b, absent (' ' :: c :: word) (' ' :: boolStr b)) (setup : Setup) :
    absent (' ' :: c :: word) (opening setup) := by
  have hend : absent (' ' :: c :: word) ['\n'] := rfl
  exact absent_opening (absent_append hend hrule) htitle hend hlabels (blank_field hdigit hchars)
    hbool setup

theorem absent_digits (word : List Char) (n : Nat) : absent (' ' :: word) n.repr.toList :=
  absent_of_head fun hmem => absurd (natRepr_digit hmem) (by decide)

theorem spread_text {label : String} {setup : Setup} (hlabel : label.toList ≠ [])
    (hopening : absent label.toList (opening setup)) (hrule : absent label.toList rule)
    (hend : absent label.toList ['\n']) {before after : Int × Result → List Char}
    {mean std : Int × Result → Nat} {values : List (Int × Result)}
    (hpoint : ∀ v ∈ values, point v = before v ++ (label.toList ++
      ((mean v).repr.toList ++ (" +/- ".toList ++ (std v).repr.toList) ++ after v)))
    (hbefore : ∀ v ∈ values, absent label.toList (before v))
    (hafter : ∀ v ∈ values, absent label.toList (after v))
    (htrail : ∀ v, (after v).head?.any fun c => !isDecimal c) :
    (groups (spread label) (text setup values)).filterMap pair =
      values.map fun v => (mean v, std v) := by
  have hgroups : groups (spread label) (text setup values) =
      values.map fun v => [(mean v).repr.toList, (std v).repr.toList] :=
    groups_text hlabel hopening hrule hend hpoint hbefore hafter fun v _ more =>
      first_spread (mean v) (std v) (htrail v) more
  rw [hgroups, List.filterMap_map]
  simp only [Function.comp_def, pair, readInt_repr]
  rw [List.filterMap_eq_map']

theorem tps_text (setup : Setup) {values : List (Int × Result)} (h : Drawable values) :
    tps (text setup values) = values.map fun v => (v.2.meanTps.toNat, v.2.stdTps.toNat) := by
  have hword : " TPS: ".toList = ' ' :: 'T' :: "PS: ".toList := rfl
  have hopening : absent " TPS: ".toList (opening setup) := by
    rw [hword]
    refine absent_spread rfl rfl (fun _ => rfl) (by decide) (by decide) (fun b => ?_) setup
    cases b <;> rfl
  have hnumber (n : Nat) : absent " TPS: ".toList n.repr.toList := absent_digits "TPS: ".toList n
  have hspread (n : Nat) : absent " TPS: ".toList (' ' :: n.repr.toList) :=
    blank_number "PS: ".toList (by decide) (by decide) (n : Int)
  refine @spread_text " TPS: " setup (by decide) hopening rfl rfl
    (fun v => ' ' :: "Variable value: X=".toList ++ (v.1.toNat.repr.toList ++ ['\n']))
    (fun v => " tx/s\n Latency:".toList ++ (' ' :: v.2.meanLatency.toNat.repr.toList ++
      (" +/-".toList ++ (' ' :: v.2.stdLatency.toNat.repr.toList ++ " ms\n".toList))))
    (fun v => v.2.meanTps.toNat) (fun v => v.2.stdTps.toNat) values
    (fun v hv => ?_) (fun v _ => ?_) (fun v _ => ?_) fun _ => rfl
  · obtain ⟨hx, htps, hlatency, hstdTps, hstdLatency⟩ := h.counted v hv
    simp [point, Result.str, ungrouped_toNat hx, ungrouped_toNat htps, ungrouped_toNat hlatency,
      ungrouped_toNat hstdTps, ungrouped_toNat hstdLatency]
  · have hlead : absent " TPS: ".toList (' ' :: "Variable value: X=".toList) := rfl
    exact absent_append hlead (absent_append (hnumber _) rfl)
  · have hlead : absent " TPS: ".toList " tx/s\n Latency:".toList := rfl
    have hgap : absent " TPS: ".toList " +/-".toList := rfl
    exact absent_append hlead (absent_append (hspread _) (absent_append hgap
      (absent_append (hspread _) rfl)))

theorem latency_text (setup : Setup) {values : List (Int × Result)} (h : Drawable values) :
    latency (text setup values) = values.map fun v =>
      (float v.2.meanLatency.toNat, float v.2.stdLatency.toNat) := by
  have hword : " Latency: ".toList = ' ' :: 'L' :: "atency: ".toList := rfl
  have hopening : absent " Latency: ".toList (opening setup) := by
    rw [hword]
    refine absent_spread rfl rfl (fun _ => rfl) (by decide) (by decide) (fun b => ?_) setup
    cases b <;> rfl
  have hnumber (n : Nat) : absent " Latency: ".toList n.repr.toList := absent_digits "Latency: ".toList n
  have hspread (n : Nat) : absent " Latency: ".toList (' ' :: n.repr.toList) :=
    blank_number "atency: ".toList (by decide) (by decide) (n : Int)
  have hpairs : (groups (spread " Latency: ") (text setup values)).filterMap pair =
      values.map fun v => (v.2.meanLatency.toNat, v.2.stdLatency.toNat) := by
    refine @spread_text " Latency: " setup (by decide) hopening rfl rfl
      (fun v => ' ' :: "Variable value: X=".toList ++ (v.1.toNat.repr.toList ++
        ("\n TPS:".toList ++ (' ' :: v.2.meanTps.toNat.repr.toList ++ (" +/-".toList ++
          (' ' :: v.2.stdTps.toNat.repr.toList ++ " tx/s\n".toList))))))
      (fun _ => " ms\n".toList) (fun v => v.2.meanLatency.toNat)
      (fun v => v.2.stdLatency.toNat) values
      (fun v hv => ?_) (fun v _ => ?_) (fun _ _ => rfl) fun _ => rfl
    · obtain ⟨hx, htps, hlatency, hstdTps, hstdLatency⟩ := h.counted v hv
      simp [point, Result.str, ungrouped_toNat hx, ungrouped_toNat htps, ungrouped_toNat hlatency,
        ungrouped_toNat hstdTps, ungrouped_toNat hstdLatency]
    · have hlead : absent " Latency: ".toList (' ' :: "Variable value: X=".toList) := rfl
      have htps : absent " Latency: ".toList "\n TPS:".toList := rfl
      have hgap : absent " Latency: ".toList " +/-".toList := rfl
      exact absent_append hlead (absent_append (hnumber _) (absent_append htps
        (absent_append (hspread _) (absent_append hgap (absent_append (hspread _) rfl)))))
  rw [latency, hpairs, List.map_map]
  rfl

theorem comma_not_mem (setup : Setup) (values : List (Int × Result)) :
    ',' ∉ text setup values := by
  have hnumber (n : Int) : ',' ∉ ungrouped n := intRepr_not_mem (by decide) (by decide)
  have hbool (b : Bool) : ',' ∉ boolStr b := by cases b <;> decide
  have hrule : ',' ∉ rule := by decide
  have hpoint (v : Int × Result) : ',' ∉ point v := by
    simp [point, Result.str, hnumber]
  have hpoints : ',' ∉ ['\n'].intercalate (values.map point) := by
    intro hmem
    rcases mem_intercalate hmem with hmem | ⟨_, hline, hmem⟩
    · exact absurd hmem (by decide)
    · obtain ⟨v, -, rfl⟩ := List.mem_map.mp hline
      exact hpoint v hmem
  simp [text, Setup.str, Setup.lines, Field.comma_not_mem, hbool, hrule, hpoints]

end ReadBack

end Ploter

end Narwhal.Benchmark
