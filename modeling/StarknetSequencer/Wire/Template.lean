import StarknetSequencer.Wire.Segments

namespace Wire

-- texts of three parts with fixed words between them; the middle part is one of `field`
structure Template (α : Type) where
  blank : α
  lead : α
  mark : α
  first : List α
  second : List α
  field : List α → Prop
  lead_ne_blank : lead ≠ blank
  mark_ne_blank : mark ≠ blank
  lead_first : lead ∉ first
  lead_second : lead ∉ mark :: second
  lead_field : ∀ d, field d → lead ∉ d
  mark_field : ∀ d, field d → mark ∉ d

namespace Template

variable {α : Type} (T : Template α)

def opening : List α := T.blank :: T.lead :: T.first

def closing : List α := T.blank :: T.mark :: T.second

def marker (d : List α) : List α := T.opening ++ (d ++ (T.closing ++ [T.blank]))

def text (f d a : List α) : List α := f ++ (T.opening ++ (d ++ (T.closing ++ T.blank :: a)))

def Clear (f a : List α) : Prop :=
  ∀ d, T.field d → ¬ T.marker d <:+: f ++ [T.blank] ∧ ¬ T.marker d <:+: T.blank :: a

variable {T}

-- the letter `w` stands at the start of a text and nowhere up to its end, so the next is beyond it
theorem second_of_lead {w x x' : α} {p b r c : List α} (hp : w ∉ p) (hb : b.head? ≠ some w)
    (h : x :: w :: p ++ b = r ++ x' :: w :: c) :
    r = [] ∨ ∃ y, r = x :: w :: p ++ y ∧ b = y ++ x' :: w :: c := by
  rcases List.append_eq_append_iff.mp h with ⟨y, hr, hy⟩ | ⟨q, hq, hc⟩
  · exact .inr ⟨y, hr, hy⟩
  · cases r with
    | nil => exact .inl rfl
    | cons z r =>
      obtain ⟨rfl, hp'⟩ := List.cons.inj hq
      cases q with
      | nil =>
        rw [List.append_nil] at hq
        exact .inr ⟨[], by rw [hq, List.append_nil], hc.symm⟩
      | cons u q =>
        obtain ⟨rfl, hrest⟩ := List.cons.inj hc
        cases q with
        | nil =>
          have hb' : w :: c = b := hrest
          rw [← hb'] at hb
          exact absurd rfl hb
        | cons v q =>
          have hv : w = v := (List.cons.inj hrest).1
          have hmem : v ∈ p := by
            cases r with
            | nil =>
              rw [(List.cons.inj hp').2]
              exact List.mem_cons_self
            | cons _ r =>
              rw [(List.cons.inj hp').2]
              simp
          exact absurd (hv ▸ hmem) hp

theorem overlap {d a r c : List α} (hd : T.field d)
    (h : T.opening ++ (d ++ (T.closing ++ T.blank :: a)) = r ++ (T.opening ++ c)) :
    r = [] ∨ ∃ y, r = T.opening ++ (d ++ (T.closing ++ y)) ∧ T.blank :: a = y ++ (T.opening ++ c) := by
  have hlead : T.lead ∉ T.first ++ (d ++ T.closing) := by
    simp only [List.mem_append, not_or]
    refine ⟨T.lead_first, T.lead_field d hd, ?_⟩
    rw [closing, List.mem_cons, not_or]
    exact ⟨T.lead_ne_blank, T.lead_second⟩
  have hhead : (T.blank :: a).head? ≠ some T.lead := fun hb =>
    T.lead_ne_blank (Option.some.inj hb).symm
  have hsplit : T.blank :: T.lead :: (T.first ++ (d ++ T.closing)) ++ T.blank :: a =
      r ++ T.blank :: T.lead :: (T.first ++ c) := by
    simpa only [opening, List.cons_append, List.append_assoc] using h
  rcases second_of_lead hlead hhead hsplit with hr | ⟨y, hr, hy⟩
  · exact .inl hr
  · refine .inr ⟨y, ?_, ?_⟩
    · simpa only [opening, List.cons_append, List.append_assoc] using hr
    · simpa only [opening, List.cons_append] using hy

theorem fields_eq {d d' a a' : List α} (hd : T.field d) (hd' : T.field d')
    (h : d ++ (T.closing ++ T.blank :: a) = d' ++ (T.closing ++ T.blank :: a')) :
    d = d' ∧ a = a' := by
  have hnot (e : List α) (he : T.field e) : T.mark ∉ e ++ [T.blank] := by
    rw [List.mem_append, List.mem_singleton, not_or]
    exact ⟨T.mark_field e he, T.mark_ne_blank⟩
  have hsplit (e c : List α) : e ++ (T.closing ++ c) = e ++ [T.blank] ++ T.mark :: (T.second ++ c) := by
    simp [closing]
  rw [hsplit, hsplit] at h
  obtain ⟨hleft, hright⟩ := cut_inj (hnot d hd) (hnot d' hd') h
  exact ⟨List.append_cancel_right hleft, (List.cons.inj (List.append_cancel_left hright)).2⟩

theorem text_longer {f d a r d' a' : List α} (hd : T.field d) (hd' : T.field d')
    (h : T.text f d a = T.text (f ++ r) d' a') :
    (r = [] ∧ d = d' ∧ a = a') ∨
      T.marker d <:+: f ++ r ++ [T.blank] ∧ T.marker d' <:+: T.blank :: a := by
  rw [text, text, List.append_assoc] at h
  have hrest := List.append_cancel_left h
  rcases overlap hd hrest with rfl | ⟨y, rfl, hy⟩
  · exact .inl ⟨rfl, fields_eq hd hd' (List.append_cancel_left hrest)⟩
  · refine .inr ⟨?_, ?_⟩
    · -- what follows the closing words in `f` is nothing or starts with the blank
      cases y with
      | nil => exact ⟨f, [], by simp [marker]⟩
      | cons b y =>
        obtain ⟨rfl, -⟩ := List.cons.inj hy
        exact ⟨f, y ++ [T.blank], by simp [marker]⟩
    · exact ⟨y, a', by rw [hy]; simp [marker]⟩

theorem text_inj {f d a f' d' a' : List α} (hd : T.field d) (hd' : T.field d')
    (hc : T.Clear f a) (h : T.text f d a = T.text f' d' a') : f = f' ∧ d = d' ∧ a = a' := by
  have hends := h
  rw [text, text] at hends
  rcases List.append_eq_append_iff.mp hends with ⟨r, rfl, -⟩ | ⟨r, rfl, -⟩
  · rcases text_longer hd hd' h with ⟨rfl, heq⟩ | ⟨-, ha⟩
    · exact ⟨(List.append_nil f).symm, heq⟩
    · exact absurd ha (hc d' hd').2
  · rcases text_longer hd' hd h.symm with ⟨rfl, rfl, rfl⟩ | ⟨hf, -⟩
    · exact ⟨List.append_nil f', rfl, rfl⟩
    · exact absurd hf (hc d' hd').1

theorem exists_text_of_not_clear {f d a : List α} (h : ¬ T.Clear f a) :
    ∃ f' d' a', T.field d' ∧ f' ≠ f ∧ T.text f' d' a' = T.text f d a := by
  simp only [Clear, not_forall, not_and_or, not_not] at h
  obtain ⟨d', hd', ⟨g, z, hf⟩ | ⟨y, a', ha⟩⟩ := h
  · refine ⟨g, d', z ++ (T.lead :: T.first ++ (d ++ (T.closing ++ T.blank :: a))), hd', ?_, ?_⟩
    · rintro rfl
      have hlen := congrArg List.length hf
      simp [marker, opening] at hlen
    · have htext : T.text f d a =
          f ++ [T.blank] ++ (T.lead :: T.first ++ (d ++ (T.closing ++ T.blank :: a))) := by
        simp [text, opening]
      rw [htext, ← hf]
      simp [text, marker]
  · refine ⟨f ++ (T.opening ++ (d ++ (T.closing ++ y))), d', a', hd', ?_, ?_⟩
    · intro heq
      have hlen := congrArg List.length heq
      simp [opening] at hlen
    · have hlate : T.text (f ++ (T.opening ++ (d ++ (T.closing ++ y)))) d' a' =
          f ++ (T.opening ++ (d ++ (T.closing ++ (y ++ T.marker d' ++ a')))) := by
        simp [text, marker]
      rw [hlate, ha, text]

end Template

end Wire
