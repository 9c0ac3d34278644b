import Mathlib.Data.Set.List
import StarknetSequencer.Narwhal.Summaries

namespace Narwhal.Benchmark

open Wire

def ungrouped (n : Int) : List Char := n.repr.toList

theorem intRepr_not_mem {n : Int} {c : Char} (hdigit : ¬ c.isDigit) (hdash : c ≠ '-') :
    c ∉ n.repr.toList := by
  intro h
  rcases intRepr_char h with h | h
  · exact hdigit h
  · exact hdash h

theorem Field.comma_not_mem (field : Field) : ',' ∉ field.str := by
  cases field with
  | number n => exact intRepr_not_mem (by decide) (by decide)
  | any => decide
  | x => decide
  | unknown => decide

def Line.plain (line : Line) : Line := { line with value := line.value.filter (· ≠ ',') }

namespace Summary

theorem filter_eq_self {text : List Char} (h : ',' ∉ text) : text.filter (· ≠ ',') = text :=
  List.filter_eq_self.mpr fun _ hc => decide_eq_true fun heq => h (heq ▸ hc)

theorem filter_lines {ls : List Line}
    (h : ls.all fun line => !line.lead.contains ',' && !line.trail.contains ',') :
    (ls.flatMap Line.str).filter (· ≠ ',') = (ls.map Line.plain).flatMap Line.str := by
  rw [List.filter_flatMap, List.flatMap_map]
  refine List.flatMap_congr fun line hline => ?_
  have hline := List.all_eq_true.mp h line hline
  simp only [Bool.and_eq_true, Bool.not_eq_true', List.contains_eq_mem,
    decide_eq_false_iff_not] at hline
  rw [Line.str, List.filter_append, List.filter_append, filter_eq_self hline.1,
    filter_eq_self hline.2]
  rfl

theorem plain_lines (s : Summary) : (s.lines groupedInt).map Line.plain = s.lines ungrouped := by
  have hbool : (boolStr s.collocate).filter (· ≠ ',') = boolStr s.collocate := by
    cases s.collocate <;> rfl
  simp only [lines, List.map_cons, List.map_nil, Line.plain, filter_groupedInt, hbool,
    filter_eq_self (Field.comma_not_mem _), ungrouped]

theorem filter_str (s : Summary) :
    s.str.filter (· ≠ ',') = opening ++ (title ++ s.body ungrouped) := by
  have hlines : ((s.lines groupedInt).flatMap Line.str).filter (· ≠ ',') =
      (s.lines ungrouped).flatMap Line.str := by
    rw [← plain_lines]
    exact filter_lines rfl
  simp only [str, body, List.filter_append, hlines]
  rfl

-- what `Setup.from_str` and `Result.from_str` can read: their patterns take digits alone
structure Readable (s : Summary) : Prop where
  faults : ∃ n : Nat, s.faults = .number n
  committeeSize : ∃ n : Nat, s.committeeSize = .number n
  workers : ∃ n : Nat, s.workers = .number n
  endToEndTps : ∃ n : Nat, s.endToEndTps = n
  endToEndLatency : ∃ n : Nat, s.endToEndLatency = n

-- a word that no value of a summary can hold
def apart : List Char → Bool
  | [] => false
  | c :: word => !c.isDigit && c ≠ '-' && absent (c :: word) "True".toList &&
      absent (c :: word) "False".toList

theorem absent_values {word : List Char} (h : apart word) {s : Summary} (hs : s.Readable) :
    ∀ line ∈ s.lines ungrouped, absent word line.value := by
  cases word with
  | nil => exact absurd h Bool.false_ne_true
  | cons c word =>
    simp only [apart, Bool.and_eq_true, Bool.not_eq_true', decide_eq_true_eq] at h
    obtain ⟨⟨⟨hdigit, hdash⟩, htrue⟩, hfalse⟩ := h
    obtain ⟨f, hf⟩ := hs.faults
    obtain ⟨n, hn⟩ := hs.committeeSize
    obtain ⟨w, hw⟩ := hs.workers
    have hnumber (n : Int) : absent (c :: word) n.repr.toList :=
      absent_of_head (intRepr_not_mem (by simp [hdigit]) hdash)
    have hbool : absent (c :: word) (boolStr s.collocate) := by
      cases s.collocate
      · exact hfalse
      · exact htrue
    simp only [lines, ungrouped, List.forall_mem_cons, hf, hn, hw, Field.str, hnumber, hbool,
      List.not_mem_nil, IsEmpty.forall_iff, implies_true, and_self]

theorem absent_lines {word : List Char} {ls : List Line}
    (hlabels : ls.all fun line => absent word line.lead && absent word line.trail)
    (hvalues : ∀ line ∈ ls, absent word line.value) : absent word (ls.flatMap Line.str) := by
  induction ls with
  | nil => rfl
  | cons line ls ih =>
    rw [List.all_cons, Bool.and_eq_true, Bool.and_eq_true] at hlabels
    rw [List.forall_mem_cons] at hvalues
    rw [List.flatMap_cons]
    refine absent_append ?_ (ih hlabels.2 hvalues.2)
    exact absent_append hlabels.1.1 (absent_append hvalues.1 hlabels.1.2)

theorem title_absent_opening : absent title opening := rfl

theorem title_absent_body {s : Summary} (hs : s.Readable) : absent title (s.body ungrouped) := by
  have hlines : absent title ((s.lines ungrouped).flatMap Line.str) :=
    absent_lines rfl (absent_values rfl hs)
  refine absent_append rfl (absent_append rfl (absent_append rfl (absent_append hlines rfl)))

-- the end of a chunk: the next summary starts before its title
def chunksOf : List Summary → List (List Char)
  | [] => []
  | s :: ss => (s.body ungrouped ++ if ss = [] then [] else opening) :: chunksOf ss

theorem split_summaries {ss : List Summary} (hss : ∀ s ∈ ss, s.Readable) {before : List Char}
    (hbefore : absent title before) :
    split title (before ++ ss.flatMap fun s => opening ++ (title ++ s.body ungrouped)) =
      (before ++ if ss = [] then [] else opening) :: chunksOf ss := by
  induction ss generalizing before with
  | nil =>
    simp only [List.flatMap_nil, List.append_nil, if_true, chunksOf]
    exact split_whole hbefore
  | cons s ss ih =>
    rw [List.forall_mem_cons] at hss
    have hopening : absent title (before ++ opening) :=
      absent_append hbefore title_absent_opening
    have htitle : title ≠ [] := by decide
    rw [List.flatMap_cons, if_neg (List.cons_ne_nil s ss), chunksOf,
      ← ih hss.2 (title_absent_body hss.1), ← split_cut htitle hopening]
    simp only [List.append_assoc]

theorem mem_flatten_readable {files : List (List Summary)}
    (h : ∀ file ∈ files, ∀ s ∈ file, s.Readable) : ∀ s ∈ files.flatten, s.Readable := by
  intro s hs
  obtain ⟨file, hfile, hmem⟩ := List.mem_flatten.mp hs
  exact h file hfile s hmem

theorem chunks_summaries {files : List (List Summary)}
    (h : ∀ file ∈ files, ∀ s ∈ file, s.Readable) :
    LogAggregator.chunks (files.map fun file => file.flatMap str) = chunksOf files.flatten := by
  have hdata : ((files.map fun file => file.flatMap str).flatten).filter (· ≠ ',') =
      files.flatten.flatMap fun s => opening ++ (title ++ s.body ungrouped) := by
    have hflat : (files.map fun file => file.flatMap str).flatten = files.flatten.flatMap str := by
      rw [List.flatten_eq_flatMap, List.flatten_eq_flatMap, List.flatMap_map, List.flatMap_assoc]
      rfl
    rw [hflat, List.filter_flatMap]
    exact List.flatMap_congr fun s _ => filter_str s
  have hne (ss : List Summary) : (chunksOf ss).filter (· ≠ []) = chunksOf ss := by
    induction ss with
    | nil => rfl
    | cons s ss ih =>
      rw [chunksOf, List.filter_cons_of_pos (by simp [body]), ih]
  rw [LogAggregator.chunks, hdata, ← List.nil_append (List.flatMap _ _),
    split_summaries (mem_flatten_readable h) rfl, List.drop_succ_cons, List.drop_zero, hne]

theorem searchGroup_line {label : String} {value : Pattern} {pre gap v more : List Char}
    (hpre : absent label.toList pre) (hgap : absent label.toList gap)
    (hvalue : value.first (v ++ more) = some ⟨v, [], more⟩) :
    searchGroup (labelled label value) (pre ++ (gap ++ (label.toList ++ (v ++ more)))) = some v := by
  have hgroup : value.group.first (v ++ more) = some ⟨v, [v], more⟩ := by
    rw [Pattern.first_group, hvalue]
    rfl
  rw [searchGroup, labelled, search_absent hpre, search_absent hgap, search_word hgroup]
  rfl

theorem first_digits (n : Nat) {trail : List Char} (htrail : trail.head?.any fun c => !isDecimal c)
    (more : List Char) : digits.first (n.repr.toList ++ (trail ++ more)) =
      some ⟨n.repr.toList, [], trail ++ more⟩ := by
  refine Pattern.first_plus (natRepr_ne_nil n) (fun d hd => isDecimal_repr hd) ?_
  cases trail with
  | nil => exact absurd htrail Bool.false_ne_true
  | cons c trail =>
    rintro d ⟨⟩
    exact Bool.not_eq_true _ ▸ (Bool.not_eq_true' _).mp htrail

theorem first_bool (b : Bool) (more : List Char) :
    (Pattern.alt (.word "True".toList) (.word "False".toList)).first (boolStr b ++ more) =
      some ⟨boolStr b, [], more⟩ := by
  cases b <;> rfl

-- the word of a label is nowhere before the label's own line
def firstAt (word : List Char) (i : Nat) (ls : List Line) : Bool :=
  absent word (":\n".toList ++ (rule ++ " + CONFIG:\n".toList)) &&
    (ls.take i).all fun line => absent word line.lead && absent word line.trail

theorem search_line {s : Summary} (hs : s.Readable) {i : Nat} {label : String} {value : Pattern}
    {gap v trail : List Char}
    (hline : (s.lines ungrouped)[i]? = some ⟨gap ++ label.toList, v, trail⟩)
    (hapart : apart label.toList) (hfirst : firstAt label.toList i (s.lines ungrouped))
    (hgap : absent label.toList gap)
    (hvalue : ∀ more, value.first (v ++ (trail ++ more)) = some ⟨v, [], trail ++ more⟩)
    (more : List Char) : searchGroup (labelled label value) (s.body ungrouped ++ more) = some v := by
  rw [firstAt, Bool.and_eq_true] at hfirst
  have hpre := absent_append hfirst.1 (absent_lines hfirst.2 fun l hl =>
    absent_values hapart hs l (List.mem_of_mem_take hl))
  obtain ⟨hi, hget⟩ := List.getElem?_eq_some_iff.mp hline
  have hflat : (s.lines ungrouped).flatMap Line.str =
      ((s.lines ungrouped).take i).flatMap Line.str ++ (gap ++ (label.toList ++
        (v ++ (trail ++ ((s.lines ungrouped).drop (i + 1)).flatMap Line.str)))) := by
    conv_lhs =>
      rw [← List.take_append_drop i (s.lines ungrouped), List.drop_eq_getElem_cons hi, hget]
    rw [List.flatMap_append, List.flatMap_cons, Line.str]
    simp only [List.append_assoc]
  have hsplit : s.body ungrouped ++ more =
      ":\n".toList ++ (rule ++ " + CONFIG:\n".toList) ++
        ((s.lines ungrouped).take i).flatMap Line.str ++ (gap ++ (label.toList ++ (v ++ (trail ++
          (((s.lines ungrouped).drop (i + 1)).flatMap Line.str ++ (rule ++ more)))))) := by
    rw [body, hflat]
    simp only [List.append_assoc]
  rw [hsplit]
  exact searchGroup_line hpre hgap (hvalue _)

theorem search_number {s : Summary} (hs : s.Readable) {i n : Nat} {label : String}
    {gap trail : List Char}
    (hline : (s.lines ungrouped)[i]? = some ⟨gap ++ label.toList, ungrouped n, trail⟩)
    (hapart : apart label.toList) (hfirst : firstAt label.toList i (s.lines ungrouped))
    (hgap : absent label.toList gap) (htrail : trail.head?.any fun c => !isDecimal c)
    (more : List Char) : searchInt label (s.body ungrouped ++ more) = some n := by
  have hfound := search_line hs hline hapart hfirst hgap (first_digits n htrail) more
  rw [searchInt, hfound, Option.map_some]
  exact congrArg some (readInt_repr n)

def setup (s : Summary) : Setup :=
  ⟨s.committeeSize, s.workers, s.collocate, .number s.rate, .number s.size, s.faults, .any⟩

def result (s : Summary) : Result := ⟨s.endToEndTps, s.endToEndLatency, 0, 0⟩

theorem setup_fromStr {s : Summary} (hs : s.Readable) (more : List Char) :
    Setup.fromStr (s.body ungrouped ++ more) = some s.setup := by
  obtain ⟨f, hf⟩ := hs.faults
  obtain ⟨n, hn⟩ := hs.committeeSize
  obtain ⟨w, hw⟩ := hs.workers
  have hnumber {i m : Nat} {label : String} {trail : List Char}
      (hline : (s.lines ungrouped)[i]? = some ⟨' ' :: label.toList, ungrouped m, trail⟩)
      (hapart : apart label.toList) (hfirst : firstAt label.toList i (s.lines ungrouped))
      (hgap : absent label.toList [' ']) (htrail : trail.head?.any fun c => !isDecimal c) :
      searchInt label (s.body ungrouped ++ more) = some m :=
    @search_number s hs i m label [' '] trail hline hapart hfirst hgap htrail more
  have hfaults : searchInt "Faults: " (s.body ungrouped ++ more) = some f := by
    refine @hnumber 0 f _ " node(s)\n".toList ?_ rfl rfl rfl rfl
    rw [lines, hf]
    rfl
  have hnodes : searchInt "Committee size: " (s.body ungrouped ++ more) = some n := by
    refine @hnumber 1 n _ " node(s)\n".toList ?_ rfl rfl rfl rfl
    rw [lines, hn]
    rfl
  have hworkers : searchInt "Worker(s) per node: " (s.body ungrouped ++ more) = some w := by
    refine @hnumber 2 w _ " worker(s)\n".toList ?_ rfl rfl rfl rfl
    rw [lines, hw]
    rfl
  have hcollocate : searchGroup (labelled "Collocate primary and workers: "
      (.alt (.word "True".toList) (.word "False".toList))) (s.body ungrouped ++ more) =
      some (boolStr s.collocate) :=
    @search_line s hs 3 _ _ [' '] _ "\n".toList rfl rfl rfl rfl
      (fun _ => first_bool s.collocate _) more
  have hrate : searchInt "Input rate: " (s.body ungrouped ++ more) = some s.rate :=
    @hnumber 4 s.rate _ " tx/s\n".toList rfl rfl rfl rfl rfl
  have htxSize : searchInt "Transaction size: " (s.body ungrouped ++ more) = some s.size :=
    @hnumber 5 s.size _ " B\n".toList rfl rfl rfl rfl rfl
  have hbool : decide (boolStr s.collocate = "True".toList) = s.collocate := by
    cases s.collocate <;> rfl
  simp only [Setup.fromStr, hfaults, hnodes, hworkers, hcollocate, hrate, htxSize, hbool,
    Option.bind_eq_bind, Option.bind_some, setup, hf, hn, hw]

theorem result_fromStr {s : Summary} (hs : s.Readable) (more : List Char) :
    Result.fromStr (s.body ungrouped ++ more) = some s.result := by
  obtain ⟨t, ht⟩ := hs.endToEndTps
  obtain ⟨l, hl⟩ := hs.endToEndLatency
  have htps : searchInt "End-to-end TPS: " (s.body ungrouped ++ more) = some t := by
    refine @search_number s hs 17 t _ "\n ".toList " tx/s\n".toList ?_ rfl rfl rfl rfl more
    rw [lines, ht]
    rfl
  have hlatency : searchInt "End-to-end latency: " (s.body ungrouped ++ more) = some l := by
    refine @search_number s hs 19 l _ [' '] " ms\n".toList ?_ rfl rfl rfl rfl more
    rw [lines, hl]
    rfl
  simp only [Result.fromStr, htps, hlatency, Option.bind_eq_bind, Option.bind_some, result, ht, hl]

theorem setup_eq_iff (s s' : Summary) : s.setup = s'.setup ↔
    s.faults = s'.faults ∧ s.committeeSize = s'.committeeSize ∧ s.workers = s'.workers ∧
      s.collocate = s'.collocate ∧ s.rate = s'.rate ∧ s.size = s'.size := by
  simp only [setup, Setup.mk.injEq, Field.number.injEq, Int.natCast_inj, and_true]
  tauto

end Summary

namespace LogAggregator

open Summary

theorem readChunk_summary {s : Summary} (hs : s.Readable) (more : List Char) :
    readChunk (s.body ungrouped ++ more) = some (s.setup, s.result) := by
  simp only [readChunk, setup_fromStr hs more, result_fromStr hs more, Option.bind_eq_bind,
    Option.bind_some]

theorem map_readChunk {ss : List Summary} (hss : ∀ s ∈ ss, s.Readable) :
    (chunksOf ss).map readChunk = ss.map fun s => some (s.setup, s.result) := by
  induction ss with
  | nil => rfl
  | cons s ss ih =>
    rw [List.forall_mem_cons] at hss
    rw [chunksOf, List.map_cons, List.map_cons, readChunk_summary hss.1, ih hss.2]

def grouped (entries : List (Setup × Result)) (records : Dict Setup (List Result)) :
    Dict Setup (List Result) :=
  records.group [] Prod.fst (fun results entry => results ++ [entry.2]) entries

theorem getD_grouped (entries : List (Setup × Result)) (setup : Setup) :
    ((grouped entries .empty).get? setup).getD [] =
      (entries.filter fun entry => entry.1 = setup).map Prod.snd := by
  have hfoldl (entries : List (Setup × Result)) (results : List Result) :
      entries.foldl (fun results entry => results ++ [entry.2]) results =
        results ++ entries.map Prod.snd := by
    induction entries generalizing results with
    | nil => exact (List.append_nil results).symm
    | cons entry entries ih =>
      rw [List.foldl_cons, ih, List.map_cons, List.append_assoc, List.singleton_append]
  rw [grouped, Dict.getD_group, hfoldl]
  rfl

theorem foldlM_grouped {chunks : List (List Char)} {records records' : Dict Setup (List Result)} :
    (chunks.foldlM (fun records chunk => do
        let (setup, result) ← readChunk chunk
        some (records.update [] setup (· ++ [result]))) records) = some records' ↔
      ∃ entries, chunks.map readChunk = entries.map some ∧ records' = grouped entries records := by
  induction chunks generalizing records with
  | nil =>
    constructor
    · rintro ⟨⟩
      exact ⟨[], rfl, rfl⟩
    · rintro ⟨entries, hentries, rfl⟩
      cases List.map_eq_nil_iff.mp hentries.symm
      rfl
  | cons chunk chunks ih =>
    rw [List.foldlM_cons, List.map_cons]
    cases readChunk chunk with
    | none =>
      refine iff_of_false ?_ ?_
      · rintro ⟨⟩
      · rintro ⟨_ | ⟨entry, entries⟩, hentries, -⟩
        · cases hentries
        · cases (List.cons.inj hentries).1
    | some entry =>
      refine Iff.trans ih ⟨?_, ?_⟩
      · rintro ⟨entries, hentries, rfl⟩
        exact ⟨entry :: entries, by rw [hentries, List.map_cons], rfl⟩
      · rintro ⟨_ | ⟨entry', entries⟩, hentries, rfl⟩
        · cases hentries
        · obtain ⟨⟨⟩, hrest⟩ := List.cons.inj hentries
          exact ⟨entries, hrest, rfl⟩

theorem readRecords_eq_some {files : List (List Char)} {records : Dict Setup (List Result)} :
    readRecords files = some records ↔ ∃ entries : List (Setup × Result),
      (chunks files).map readChunk = entries.map some ∧ records = grouped entries .empty :=
  foldlM_grouped

theorem readRecords_summaries {files : List (List Summary)}
    (h : ∀ file ∈ files, ∀ s ∈ file, s.Readable) :
    readRecords (files.map fun file => file.flatMap Summary.str) =
      some (grouped (files.flatten.map fun s => (s.setup, s.result)) .empty) := by
  refine readRecords_eq_some.mpr ⟨_, ?_, rfl⟩
  rw [chunks_summaries h, map_readChunk (mem_flatten_readable h), List.map_map]
  rfl

theorem mem_keys_summaries {ss : List Summary} {setup : Setup} :
    setup ∈ (grouped (ss.map fun s => (s.setup, s.result)) .empty).keys ↔
      ∃ s ∈ ss, s.setup = setup := by
  have hempty : setup ∉ (Dict.empty : Dict Setup (List Result)).keys := List.not_mem_nil
  rw [grouped, Dict.mem_keys_group, or_iff_right hempty]
  simp only [List.mem_map, exists_exists_and_eq_and]

theorem getD_summaries (ss : List Summary) (setup : Setup) :
    ((grouped (ss.map fun s => (s.setup, s.result)) .empty).get? setup).getD [] =
      (ss.filter fun s => s.setup = setup).map Summary.result := by
  rw [getD_grouped, List.filter_map, List.map_map]
  rfl

theorem summaries_read_back {files : List (List Summary)}
    (h : ∀ file ∈ files, ∀ s ∈ file, s.Readable) :
    (chunks (files.map fun file => file.flatMap Summary.str)).map readChunk =
        files.flatten.map (fun s => some (s.setup, s.result)) ∧
      (∃ records, readRecords (files.map fun file => file.flatMap Summary.str) = some records ∧
        ∀ setup, (setup ∈ records.keys ↔ ∃ s ∈ files.flatten, s.setup = setup) ∧
          (records.get? setup).getD [] =
            (files.flatten.filter fun s => s.setup = setup).map Summary.result) ∧
      ∀ s s' : Summary, s.setup = s'.setup ↔
        s.faults = s'.faults ∧ s.committeeSize = s'.committeeSize ∧ s.workers = s'.workers ∧
          s.collocate = s'.collocate ∧ s.rate = s'.rate ∧ s.size = s'.size := by
  have hread : (chunks (files.map fun file => file.flatMap Summary.str)).map readChunk =
      files.flatten.map fun s => some (s.setup, s.result) := by
    rw [chunks_summaries h]
    exact map_readChunk (mem_flatten_readable h)
  exact ⟨hread, ⟨_, readRecords_summaries h, fun setup =>
    ⟨mem_keys_summaries, getD_summaries files.flatten setup⟩⟩, setup_eq_iff⟩

-- one node more than planned
def surplus : Summary where
  faults := .number (-1)
  committeeSize := .number 3
  workers := .number 1
  collocate := true
  rate := 50000
  size := 512
  duration := 20
  headerSize := 1000
  maxHeaderDelay := 100
  gcDepth := 50
  syncRetryDelay := 10000
  syncRetryNodes := 3
  batchSize := 500000
  maxBatchDelay := 100
  consensusTps := 46478
  consensusBps := 23796531
  consensusLatency := 464
  endToEndTps := 46149
  endToEndBps := 23628541
  endToEndLatency := 557

theorem surplus_unread : readRecords [surplus.str] = none :=
  Option.isNone_iff_eq_none.mp (by decide +kernel)

def planned : Summary := { surplus with faults := .number 0, committeeSize := .number 4 }

theorem planned_readable : planned.Readable :=
  ⟨⟨0, rfl⟩, ⟨4, rfl⟩, ⟨1, rfl⟩, ⟨46149, rfl⟩, ⟨557, rfl⟩⟩

theorem summaries_read_back_planned :
    ∃ records, readRecords [planned.str ++ planned.str] = some records ∧
      (records.get? planned.setup).getD [] = [planned.result, planned.result] := by
  have hreadable : ∀ file ∈ [[planned, planned]], ∀ s ∈ file, s.Readable := by
    simp only [List.mem_cons, List.not_mem_nil, or_false, or_self, forall_eq]
    exact planned_readable
  obtain ⟨-, ⟨records, hrecords, hresults⟩, -⟩ := summaries_read_back hreadable
  refine ⟨records, ?_, ?_⟩
  · rw [← hrecords]
    simp
  · rw [(hresults planned.setup).2]
    simp

end LogAggregator

end Narwhal.Benchmark
