import Mathlib.Data.List.Infix

namespace Wire

theorem cut_inj {α : Type} {c : α} {s s' t t' : List α} (hs : c ∉ s) (hs' : c ∉ s')
    (h : s ++ c :: t = s' ++ c :: t') : s = s' ∧ t = t' := by
  rcases List.append_eq_append_iff.mp h with ⟨r, rfl, hr⟩ | ⟨r, rfl, hr⟩
  · cases r with
    | nil => exact ⟨(List.append_nil s).symm, (List.cons.inj hr).2⟩
    | cons d r => simp [(List.cons.inj hr).1] at hs'
  · cases r with
    | nil => exact ⟨List.append_nil s', (List.cons.inj hr).2.symm⟩
    | cons d r => simp [(List.cons.inj hr).1] at hs

section LongestPrefix

variable {α : Type} {P : List α → Prop}

def LongestPrefix (P : List α → Prop) (xs kept : List α) : Prop :=
  kept <+: xs ∧ P kept ∧ ∀ longer, longer <+: xs → P longer → longer <+: kept

theorem LongestPrefix.whole {xs : List α} (h : P xs) : LongestPrefix P xs xs :=
  ⟨List.prefix_rfl, h, fun _ hp _ => hp⟩

theorem LongestPrefix.concat {xs kept : List α} {x : α} (h : LongestPrefix P xs kept)
    (hx : ¬ P (xs ++ [x])) : LongestPrefix P (xs ++ [x]) kept := by
  obtain ⟨hinitial, hkept, hmax⟩ := h
  refine ⟨hinitial.trans (List.prefix_append xs [x]), hkept, fun longer hlonger hP => ?_⟩
  rcases List.prefix_concat_iff.mp hlonger with rfl | hshort
  · exact absurd hP hx
  · exact hmax longer hshort hP

end LongestPrefix

structure Markers (α : Type) where
  words : List (List α)
  ne_nil : ∀ m ∈ words, m ≠ []
  apart : ∀ m ∈ words, ∀ m' ∈ words, ∀ c ∈ m.tail, m'.head? ≠ some c

namespace Markers

variable {α : Type} (M : Markers α)

def Marked (s : List α) : Prop :=
  ∃ m ∈ M.words, m <+: s

instance [DecidableEq α] (s : List α) : Decidable (M.Marked s) :=
  inferInstanceAs (Decidable (∃ m ∈ M.words, m <+: s))

def Splits (Tok : List α → Prop) (s : List α) : Prop :=
  ∃ t w, Tok t ∧ M.Marked w ∧ s = t ++ w

variable {M}

theorem Marked.append {s : List α} (h : M.Marked s) (t : List α) : M.Marked (s ++ t) := by
  obtain ⟨m, hm, hp⟩ := h
  exact ⟨m, hm, hp.trans (List.prefix_append s t)⟩

theorem Marked.ne_nil {s : List α} (h : M.Marked s) : s ≠ [] := by
  obtain ⟨m, hm, hp⟩ := h
  rintro rfl
  exact M.ne_nil m hm (List.prefix_nil.mp hp)

theorem marked_left {w s : List α} (hw : w ≠ []) (hs : s = [] ∨ M.Marked s)
    (h : M.Marked (w ++ s)) : M.Marked w := by
  obtain ⟨m, hm, hp⟩ := h
  rcases List.prefix_or_prefix_of_prefix hp (List.prefix_append w s) with hmw | ⟨r, rfl⟩
  · exact ⟨m, hm, hmw⟩
  · have hr : r <+: s := (List.prefix_append_right_inj w).mp hp
    cases r with
    | nil => exact ⟨w, by simpa using hm, List.prefix_rfl⟩
    | cons c cs =>
      -- the marker straddles the cut: its tail would hold the first letter of a marker of `s`
      rcases hs with rfl | ⟨m', hm', hp'⟩
      · exact absurd (List.prefix_nil.mp hr) (List.cons_ne_nil c cs)
      · cases m' with
        | nil => exact absurd rfl (M.ne_nil _ hm')
        | cons d ds =>
          cases s with
          | nil => exact absurd (List.prefix_nil.mp hr) (List.cons_ne_nil c cs)
          | cons e es =>
            have hc : c = e := (List.cons_prefix_cons.mp hr).1
            have hd : d = e := (List.cons_prefix_cons.mp hp').1
            have hmem : c ∈ (w ++ c :: cs).tail := by
              cases w with
              | nil => exact absurd rfl hw
              | cons x xs => simp
            exact absurd (by simp [hc, hd]) (M.apart _ hm _ hm' c hmem)

variable {Tok : List α → Prop}

theorem flatten_marked (hstart : ∀ t, Tok t → M.Marked t) {ts : List (List α)}
    (hts : ∀ t ∈ ts, Tok t) : ts.flatten = [] ∨ M.Marked ts.flatten := by
  cases ts with
  | nil => exact .inl rfl
  | cons t ts => exact .inr ((hstart t (hts t (by simp))).append _)

theorem segment_eq (hstart : ∀ t, Tok t → M.Marked t) {t u : List α} {ts us : List (List α)}
    (ht : Tok t) (hu : ¬ M.Splits Tok u) (hts : ∀ v ∈ ts, Tok v) (hus : ∀ v ∈ us, Tok v)
    (hp : t <+: u) (h : t ++ ts.flatten = u ++ us.flatten) : t = u := by
  obtain ⟨w, rfl⟩ := hp
  by_contra hne
  have hw : w ≠ [] := by
    rintro rfl
    exact hne (List.append_nil t).symm
  have hrest : ts.flatten = w ++ us.flatten := by
    rw [List.append_assoc] at h
    exact List.append_cancel_left h
  have hmark : M.Marked (w ++ us.flatten) := by
    rcases flatten_marked hstart hts with hnil | hm
    · rw [hnil] at hrest
      exact absurd (List.append_eq_nil_iff.mp hrest.symm).1 hw
    · rwa [hrest] at hm
  exact hu ⟨t, w, ht, marked_left hw (flatten_marked hstart hus) hmark, rfl⟩

theorem flatten_inj (hstart : ∀ t, Tok t → M.Marked t) {ts us : List (List α)}
    (hts : ∀ t ∈ ts, Tok t ∧ ¬ M.Splits Tok t) (hus : ∀ u ∈ us, Tok u ∧ ¬ M.Splits Tok u)
    (h : ts.flatten = us.flatten) : ts = us := by
  induction ts generalizing us with
  | nil =>
    cases us with
    | nil => rfl
    | cons u us =>
      have hu := (hstart u (hus u (by simp)).1).ne_nil
      exact absurd (List.append_eq_nil_iff.mp h.symm).1 hu
  | cons t ts ih =>
    cases us with
    | nil =>
      have ht := (hstart t (hts t (by simp)).1).ne_nil
      exact absurd (List.append_eq_nil_iff.mp h).1 ht
    | cons u us =>
      obtain ⟨ht, htsplit⟩ := hts t (by simp)
      obtain ⟨hu, husplit⟩ := hus u (by simp)
      have hts' : ∀ v ∈ ts, Tok v ∧ ¬ M.Splits Tok v := fun v hv => hts v (by simp [hv])
      have hus' : ∀ v ∈ us, Tok v ∧ ¬ M.Splits Tok v := fun v hv => hus v (by simp [hv])
      have htoks : ∀ v ∈ ts, Tok v := fun v hv => (hts' v hv).1
      have hutoks : ∀ v ∈ us, Tok v := fun v hv => (hus' v hv).1
      rw [List.flatten_cons, List.flatten_cons] at h
      have htu : t = u := by
        have hu' : u <+: t ++ ts.flatten := h ▸ List.prefix_append u us.flatten
        rcases List.prefix_or_prefix_of_prefix (List.prefix_append t ts.flatten) hu' with hp | hp
        · exact segment_eq hstart ht husplit htoks hutoks hp h
        · exact (segment_eq hstart hu htsplit hutoks htoks hp h.symm).symm
      subst htu
      rw [ih hts' hus' (List.append_cancel_left h)]

end Markers

end Wire
