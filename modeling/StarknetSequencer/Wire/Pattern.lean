import Mathlib.Data.List.Infix

namespace Wire

-- `many` takes as much as it can and then gives back one character at a time
inductive Pattern where
  | word (text : List Char)
  | one (test : Char → Bool)
  | many (test : Char → Bool)
  | cat (p q : Pattern)
  | alt (p q : Pattern)
  | group (p : Pattern)

structure Match where
  text : List Char
  groups : List (List Char)
  rest : List Char

def Match.andThen (m m' : Match) : Match := ⟨m.text ++ m'.text, m.groups ++ m'.groups, m'.rest⟩

def Match.captured (m : Match) : Match := ⟨m.text, m.text :: m.groups, m.rest⟩

-- the longest part is the first
def takes (test : Char → Bool) : List Char → List (List Char × List Char)
  | [] => [([], [])]
  | c :: cs =>
    if test c then (takes test cs).map (fun part => (c :: part.1, part.2)) ++ [([], c :: cs)]
    else [([], c :: cs)]

namespace Pattern

-- in the order in which a backtracking matcher tries them
def runs : Pattern → List Char → List Match
  | word text, cs => if text.isPrefixOf cs then [⟨text, [], cs.drop text.length⟩] else []
  | one _, [] => []
  | one test, c :: cs => if test c then [⟨[c], [], cs⟩] else []
  | many test, cs => (takes test cs).map fun part => ⟨part.1, [], part.2⟩
  | cat p q, cs => (runs p cs).flatMap fun m => (runs q m.rest).map m.andThen
  | alt p q, cs => runs p cs ++ runs q cs
  | group p, cs => (runs p cs).map Match.captured

def first (p : Pattern) (cs : List Char) : Option Match := (p.runs cs).head?

def plus (test : Char → Bool) : Pattern := cat (one test) (many test)

def search (p : Pattern) : List Char → Option Match
  | [] => p.first []
  | c :: cs =>
    match p.first (c :: cs) with
    | some m => some m
    | none => search p cs

-- all matches, for a pattern that matches no empty text: `skip` runs over the last match
def findallFrom (p : Pattern) : Nat → List Char → List Match
  | _, [] => []
  | skip + 1, _ :: cs => findallFrom p skip cs
  | 0, c :: cs =>
    match p.first (c :: cs) with
    | some m => m :: findallFrom p (m.text.length - 1) cs
    | none => findallFrom p 0 cs

def findall (p : Pattern) (cs : List Char) : List Match := findallFrom p 0 cs

theorem first_cat {p q : Pattern} {cs : List Char} {m m' : Match} (h : p.first cs = some m)
    (h' : q.first m.rest = some m') : (p.cat q).first cs = some (m.andThen m') := by
  obtain ⟨ms, hms⟩ := List.head?_eq_some_iff.mp h
  rw [first, runs, hms, List.flatMap_cons, List.head?_append, List.head?_map]
  rw [first] at h'
  rw [h']
  rfl

theorem first_cat_word (text cs : List Char) (q : Pattern) :
    ((word text).cat q).first (text ++ cs) =
      (q.first cs).map (Match.andThen ⟨text, [], cs⟩) := by
  have hword : (word text).runs (text ++ cs) = [⟨text, [], cs⟩] := by
    rw [runs, if_pos (by simp), List.drop_left]
  rw [first, runs, hword, List.flatMap_singleton, List.head?_map]
  rfl

theorem first_cat_word_none {text cs : List Char} (h : ¬ text <+: cs) (q : Pattern) :
    ((word text).cat q).first cs = none := by
  have hword : (word text).runs cs = [] := by
    rw [runs, if_neg (by simpa using h)]
  rw [first, runs, hword]
  rfl

theorem first_group (p : Pattern) (cs : List Char) :
    p.group.first cs = (p.first cs).map Match.captured := by
  rw [first, runs, List.head?_map]
  rfl

theorem takes_head (test : Char → Bool) {taken rest : List Char} (htaken : ∀ c ∈ taken, test c)
    (hrest : ∀ c ∈ rest.head?, ¬ test c) :
    (takes test (taken ++ rest)).head? = some (taken, rest) := by
  induction taken with
  | nil =>
    cases rest with
    | nil => rfl
    | cons c rest =>
      rw [List.nil_append, takes, if_neg (hrest c rfl)]
      rfl
  | cons c taken ih =>
    rw [List.forall_mem_cons] at htaken
    rw [List.cons_append, takes, if_pos htaken.1, List.head?_append, List.head?_map, ih htaken.2]
    rfl

theorem first_plus {test : Char → Bool} {taken rest : List Char} (hne : taken ≠ [])
    (htaken : ∀ c ∈ taken, test c) (hrest : ∀ c ∈ rest.head?, ¬ test c) :
    (plus test).first (taken ++ rest) = some ⟨taken, [], rest⟩ := by
  cases taken with
  | nil => exact absurd rfl hne
  | cons c taken =>
    rw [List.forall_mem_cons] at htaken
    have hone : (one test).runs (c :: (taken ++ rest)) = [⟨[c], [], taken ++ rest⟩] := by
      rw [runs, if_pos htaken.1]
    rw [List.cons_append, plus, first, runs, hone, List.flatMap_singleton, runs, List.head?_map,
      List.head?_map, takes_head test htaken.2 hrest]
    rfl

end Pattern

section Absent

-- the two texts differ before either of them ends
def clash : List Char → List Char → Bool
  | a :: as, b :: bs => a ≠ b || clash as bs
  | _, _ => false

-- the word starts nowhere in the text, whatever comes after the text
def absent (word : List Char) : List Char → Bool
  | [] => true
  | c :: cs => clash word (c :: cs) && absent word cs

theorem clash_append {word text : List Char} (h : clash word text) (more : List Char) :
    clash word (text ++ more) := by
  induction word generalizing text with
  | nil => exact absurd h Bool.false_ne_true
  | cons a word ih =>
    cases text with
    | nil => exact absurd h Bool.false_ne_true
    | cons b text =>
      rw [clash, Bool.or_eq_true] at h
      rw [List.cons_append, clash, Bool.or_eq_true]
      exact h.imp_right ih

theorem not_prefix_of_clash {word text : List Char} (h : clash word text) : ¬ word <+: text := by
  induction word generalizing text with
  | nil => exact absurd h Bool.false_ne_true
  | cons a word ih =>
    cases text with
    | nil => exact absurd h Bool.false_ne_true
    | cons b text =>
      rw [clash, Bool.or_eq_true, decide_eq_true_iff] at h
      rw [List.cons_prefix_cons, not_and_or]
      exact h.imp_right ih

theorem absent_append {word text more : List Char} (h : absent word text)
    (h' : absent word more) : absent word (text ++ more) := by
  induction text with
  | nil => exact h'
  | cons c text ih =>
    rw [absent, Bool.and_eq_true] at h
    rw [List.cons_append, absent, Bool.and_eq_true]
    exact ⟨clash_append h.1 more, ih h.2⟩

theorem absent_of_head {c : Char} {word text : List Char} (h : c ∉ text) :
    absent (c :: word) text := by
  induction text with
  | nil => rfl
  | cons d text ih =>
    rw [List.mem_cons, not_or] at h
    rw [absent, clash, Bool.and_eq_true, Bool.or_eq_true, decide_eq_true_iff]
    exact ⟨.inl h.1, ih h.2⟩

theorem search_absent {word text : List Char} (h : absent word text) (q : Pattern)
    (more : List Char) :
    ((Pattern.word word).cat q).search (text ++ more) =
      ((Pattern.word word).cat q).search more := by
  induction text with
  | nil => rfl
  | cons c text ih =>
    rw [absent, Bool.and_eq_true] at h
    have hnone := Pattern.first_cat_word_none (not_prefix_of_clash (clash_append h.1 more)) q
    rw [List.cons_append] at hnone ⊢
    rw [Pattern.search, hnone]
    exact ih h.2

theorem search_word {word cs : List Char} {q : Pattern} {m : Match} (h : q.first cs = some m) :
    ((Pattern.word word).cat q).search (word ++ cs) =
      some (Match.andThen ⟨word, [], cs⟩ m) := by
  have hfirst := Pattern.first_cat_word word cs q
  rw [h, Option.map_some] at hfirst
  cases hwhole : word ++ cs with
  | nil => rw [Pattern.search, ← hwhole, hfirst]
  | cons c rest => rw [Pattern.search, ← hwhole, hfirst]

end Absent

section Findall

theorem findallFrom_skip (p : Pattern) (skipped cs : List Char) :
    Pattern.findallFrom p skipped.length (skipped ++ cs) = p.findall cs := by
  induction skipped with
  | nil => rfl
  | cons c skipped ih => exact ih

theorem findall_absent {word text : List Char} (h : absent word text) (q : Pattern)
    (more : List Char) : ((Pattern.word word).cat q).findall (text ++ more) =
      ((Pattern.word word).cat q).findall more := by
  induction text with
  | nil => rfl
  | cons c text ih =>
    rw [absent, Bool.and_eq_true] at h
    have hnone := Pattern.first_cat_word_none (not_prefix_of_clash (clash_append h.1 more)) q
    rw [List.cons_append] at hnone ⊢
    rw [Pattern.findall, Pattern.findallFrom, hnone]
    exact ih h.2

theorem findall_word {word text more : List Char} (hword : word ≠ []) {q : Pattern}
    {groups : List (List Char)} (h : q.first (text ++ more) = some ⟨text, groups, more⟩) :
    ((Pattern.word word).cat q).findall (word ++ (text ++ more)) =
      ⟨word ++ text, groups, more⟩ :: ((Pattern.word word).cat q).findall more := by
  have hfirst := Pattern.first_cat_word word (text ++ more) q
  rw [h, Option.map_some] at hfirst
  cases word with
  | nil => exact absurd rfl hword
  | cons c word =>
    rw [List.cons_append] at hfirst ⊢
    rw [Pattern.findall, Pattern.findallFrom, hfirst]
    have hskip := findallFrom_skip ((Pattern.word (c :: word)).cat q) (word ++ text) more
    rw [List.append_assoc] at hskip
    exact congrArg (Match.mk (c :: word ++ text) groups more :: ·) hskip

-- the values of a list of entries, each after the one word that an entry holds
theorem findall_intercalate {ι : Type} {word sep : List Char} {q : Pattern} (hword : word ≠ [])
    (hsep : absent word sep) {entry before value after : ι → List Char}
    {groups : ι → List (List Char)} {entries : List ι}
    (hentry : ∀ e ∈ entries, entry e = before e ++ (word ++ (value e ++ after e)))
    (hbefore : ∀ e ∈ entries, absent word (before e))
    (hafter : ∀ e ∈ entries, absent word (after e))
    (hvalue : ∀ e ∈ entries, ∀ more, q.first (value e ++ (after e ++ more)) =
      some ⟨value e, groups e, after e ++ more⟩) (more : List Char) :
    (((Pattern.word word).cat q).findall (sep.intercalate (entries.map entry) ++ more)).map
        Match.groups =
      entries.map groups ++ (((Pattern.word word).cat q).findall more).map Match.groups := by
  have hone (e : ι) (he : e ∈ entries) (rest : List Char) :
      (((Pattern.word word).cat q).findall (entry e ++ rest)).map Match.groups =
        groups e :: (((Pattern.word word).cat q).findall rest).map Match.groups := by
    rw [hentry e he]
    simp only [List.append_assoc]
    rw [findall_absent (hbefore e he), findall_word hword (hvalue e he rest), List.map_cons,
      findall_absent (hafter e he)]
  induction entries with
  | nil => rfl
  | cons e entries ih =>
    rw [List.forall_mem_cons] at hentry hbefore hafter hvalue
    have hrest := ih hentry.2 hbefore.2 hafter.2 hvalue.2 fun e' he' =>
      hone e' (List.mem_cons_of_mem e he')
    cases entries with
    | nil =>
      rw [List.map_singleton, List.intercalate_singleton, hone e List.mem_cons_self]
      rfl
    | cons e' entries =>
      rw [List.map_cons, List.map_cons, List.intercalate_cons_cons, List.append_assoc,
        List.append_assoc, hone e List.mem_cons_self, findall_absent hsep]
      exact congrArg (groups e :: ·) hrest

end Findall

section Split

def consHead (c : Char) : List (List Char) → List (List Char)
  | [] => [[c]]
  | chunk :: chunks => (c :: chunk) :: chunks

-- `skip` runs over the separator
def splitFrom (sep : List Char) : Nat → List Char → List (List Char)
  | _, [] => [[]]
  | skip + 1, _ :: cs => splitFrom sep skip cs
  | 0, c :: cs =>
    if sep.isPrefixOf (c :: cs) then [] :: splitFrom sep (sep.length - 1) cs
    else consHead c (splitFrom sep 0 cs)

def split (sep cs : List Char) : List (List Char) := splitFrom sep 0 cs

theorem splitFrom_skip (sep skipped cs : List Char) :
    splitFrom sep skipped.length (skipped ++ cs) = splitFrom sep 0 cs := by
  induction skipped with
  | nil => rfl
  | cons c skipped ih => exact ih

theorem split_sep {sep : List Char} (hsep : sep ≠ []) (cs : List Char) :
    split sep (sep ++ cs) = [] :: split sep cs := by
  cases sep with
  | nil => exact absurd rfl hsep
  | cons c sep =>
    have hinitial : (c :: sep).isPrefixOf (c :: (sep ++ cs)) = true := by simp
    rw [split, List.cons_append, splitFrom, if_pos hinitial]
    congr 1
    exact splitFrom_skip (c :: sep) sep cs

theorem split_absent {sep chunk more : List Char} (h : absent sep chunk) {head : List Char}
    {chunks : List (List Char)} (hmore : split sep more = head :: chunks) :
    split sep (chunk ++ more) = (chunk ++ head) :: chunks := by
  induction chunk with
  | nil => exact hmore
  | cons c chunk ih =>
    rw [absent, Bool.and_eq_true] at h
    have hnot : ¬ sep.isPrefixOf (c :: (chunk ++ more)) = true := by
      rw [List.isPrefixOf_iff_prefix]
      exact not_prefix_of_clash (clash_append h.1 more)
    rw [split, List.cons_append, splitFrom, if_neg hnot]
    change consHead c (split sep (chunk ++ more)) = _
    rw [ih h.2]
    rfl

theorem split_cut {sep chunk : List Char} (hsep : sep ≠ []) (h : absent sep chunk)
    (cs : List Char) : split sep (chunk ++ (sep ++ cs)) = chunk :: split sep cs := by
  rw [split_absent h (split_sep hsep cs), List.append_nil]

theorem split_whole {sep chunk : List Char} (h : absent sep chunk) :
    split sep chunk = [chunk] := by
  have hnil : split sep [] = [[]] := rfl
  have hwhole := split_absent h hnil
  rwa [List.append_nil] at hwhole

end Split

end Wire
