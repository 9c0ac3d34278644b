import StarknetSequencer.Wire.Segments

namespace Wire

theorem natRepr_inj {m n : Nat} (h : m.repr = n.repr) : m = n := by
  have hvalue := congrArg (fun s => Nat.ofDigitChars 10 s.toList 0) h
  simpa using hvalue

theorem natRepr_digit {n : Nat} {c : Char} (h : c ∈ n.repr.toList) : c.isDigit := by
  rw [Nat.toList_repr] at h
  exact Nat.isDigit_of_mem_toDigits (by decide) (by decide) h

theorem natRepr_ne_nil (n : Nat) : n.repr.toList ≠ [] := by
  intro h
  have hlen := @Nat.length_repr_pos n
  rw [← String.length_toList, h] at hlen
  exact absurd hlen (by decide)

theorem intRepr_char {n : Int} {c : Char} (h : c ∈ n.repr.toList) : c.isDigit ∨ c = '-' := by
  cases n with
  | ofNat n => exact .inl (natRepr_digit h)
  | negSucc n =>
    have hneg : (Int.negSucc n).repr = "-" ++ (n + 1).repr := rfl
    rw [hneg, String.toList_append, List.mem_append] at h
    rcases h with h | h
    · exact .inr (List.mem_singleton.mp h)
    · exact .inl (natRepr_digit h)

theorem intRepr_ne_nil (n : Int) : n.repr.toList ≠ [] := by
  cases n with
  | ofNat n => exact natRepr_ne_nil n
  | negSucc n =>
    have hneg : (Int.negSucc n).repr = "-" ++ (n + 1).repr := rfl
    rw [hneg, String.toList_append]
    exact List.cons_ne_nil '-' _

theorem intRepr_inj {m n : Int} (h : m.repr = n.repr) : m = n := by
  have hdash (k l : Nat) : k.repr ≠ "-" ++ l.repr := by
    intro heq
    have hmem : '-' ∈ k.repr.toList := by
      rw [heq, String.toList_append]
      exact List.mem_append_left _ (by decide)
    exact absurd (natRepr_digit hmem) (by decide)
  cases m with
  | ofNat m =>
    cases n with
    | ofNat n => exact congrArg Int.ofNat (natRepr_inj h)
    | negSucc n => exact absurd h (hdash m (n + 1))
  | negSucc m =>
    cases n with
    | ofNat n => exact absurd h.symm (hdash n (m + 1))
    | negSucc n =>
      have hlist := congrArg String.toList (show "-" ++ (m + 1).repr = "-" ++ (n + 1).repr from h)
      rw [String.toList_append, String.toList_append] at hlist
      have hnat := natRepr_inj (String.toList_inj.mp (List.append_cancel_left hlist))
      rw [Nat.add_right_cancel hnat]

section Intercalate

variable {α : Type} {c : α} {sep : List α}

theorem mem_intercalate {a : α} {xs : List (List α)} (h : a ∈ sep.intercalate xs) :
    a ∈ sep ∨ ∃ x ∈ xs, a ∈ x := by
  induction xs with
  | nil => cases h
  | cons x xs ih =>
    cases xs with
    | nil =>
      rw [List.intercalate_singleton] at h
      exact .inr ⟨x, List.mem_cons_self, h⟩
    | cons y ys =>
      rw [List.intercalate_cons_cons, List.mem_append, List.mem_append] at h
      rcases h with (h | h) | h
      · exact .inr ⟨x, List.mem_cons_self, h⟩
      · exact .inl h
      · rcases ih h with h | ⟨z, hz, ha⟩
        · exact .inl h
        · exact .inr ⟨z, List.mem_cons_of_mem _ hz, ha⟩

-- what `intercalate` writes after its first element
theorem intercalate_cons_split (x : List α) (xs : List (List α)) :
    (xs = [] ∧ (c :: sep).intercalate (x :: xs) = x) ∨
      (xs ≠ [] ∧ (c :: sep).intercalate (x :: xs) = x ++ c :: (sep ++ (c :: sep).intercalate xs)) := by
  cases xs with
  | nil => exact .inl ⟨rfl, List.intercalate_singleton⟩
  | cons y ys => exact .inr ⟨List.cons_ne_nil y ys, by simp⟩

theorem intercalate_ne_nil {x : List α} (hx : x ≠ []) (xs : List (List α)) :
    (c :: sep).intercalate (x :: xs) ≠ [] := by
  intro h
  rcases @intercalate_cons_split α c sep x xs with ⟨-, heq⟩ | ⟨-, heq⟩
  · exact hx (heq.symm.trans h)
  · have hnil := heq.symm.trans h
    simp at hnil

theorem head?_intercalate {x : List α} (hx : x ≠ []) (xs : List (List α)) :
    ((c :: sep).intercalate (x :: xs)).head? = x.head? := by
  rcases @intercalate_cons_split α c sep x xs with ⟨-, heq⟩ | ⟨-, heq⟩
  · rw [heq]
  · rw [heq, List.head?_append_of_ne_nil x hx]

-- on one side the separator's first letter may also open an element
theorem intercalate_inj {xs ys : List (List α)} (hxs : ∀ x ∈ xs, x ≠ [] ∧ c ∉ x)
    (hys : ∀ y ∈ ys, y ≠ [] ∧ (c ∈ y → y.head? = some c))
    (h : (c :: sep).intercalate xs = (c :: sep).intercalate ys) : xs = ys := by
  induction xs generalizing ys with
  | nil =>
    cases ys with
    | nil => rfl
    | cons y ys => exact absurd h.symm (intercalate_ne_nil (hys y List.mem_cons_self).1 ys)
  | cons x xs ih =>
    rw [List.forall_mem_cons] at hxs
    cases ys with
    | nil => exact absurd h (intercalate_ne_nil hxs.1.1 xs)
    | cons y ys =>
      rw [List.forall_mem_cons] at hys
      have hy : c ∉ y := by
        intro hc
        have hhead := congrArg List.head? h
        rw [head?_intercalate hxs.1.1, head?_intercalate hys.1.1, hys.1.2 hc] at hhead
        exact hxs.1.2 (List.mem_of_mem_head? hhead)
      rcases @intercalate_cons_split α c sep x xs with ⟨rfl, hsplit⟩ | ⟨-, hsplit⟩ <;>
        rcases @intercalate_cons_split α c sep y ys with ⟨rfl, hsplit'⟩ | ⟨-, hsplit'⟩ <;>
        rw [hsplit, hsplit'] at h
      · rw [h]
      · exact absurd (by simp [h]) hxs.1.2
      · exact absurd (by simp [← h]) hy
      · obtain ⟨rfl, hrest⟩ := cut_inj hxs.1.2 hy h
        rw [ih hxs.2 hys.2 (List.append_cancel_left hrest)]

-- lines, each with its end of line
theorem flatMap_line_inj {xs ys : List (List α)} (hxs : ∀ x ∈ xs, c ∉ x) (hys : ∀ y ∈ ys, c ∉ y)
    (h : xs.flatMap (· ++ [c]) = ys.flatMap (· ++ [c])) : xs = ys := by
  induction xs generalizing ys with
  | nil =>
    cases ys with
    | nil => rfl
    | cons y ys => simp at h
  | cons x xs ih =>
    rw [List.forall_mem_cons] at hxs
    cases ys with
    | nil => simp at h
    | cons y ys =>
      rw [List.forall_mem_cons] at hys
      rw [List.flatMap_cons, List.flatMap_cons, List.append_assoc, List.append_assoc] at h
      obtain ⟨rfl, hrest⟩ := cut_inj hxs.1 hys.1 h
      rw [ih hxs.2 hys.2 hrest]

end Intercalate

end Wire
