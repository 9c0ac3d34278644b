import Mathlib.Algebra.BigOperators.Group.Finset.Basic
import Mathlib.Data.List.Nodup

-- a dictionary that keeps its keys in the order of their first insertion
structure Dict (κ α : Type) where
  items : List (κ × α)
  nodup : (items.map Prod.fst).Nodup

namespace Dict

variable {κ α : Type}

def empty : Dict κ α := ⟨[], List.nodup_nil⟩

def keys (dict : Dict κ α) : List κ := dict.items.map Prod.fst

def values (dict : Dict κ α) : List α := dict.items.map Prod.snd

def mapValues {β : Type} (f : α → β) (dict : Dict κ α) : Dict κ β where
  items := dict.items.map fun item => (item.1, f item.2)
  nodup := by
    rw [List.map_map]
    exact dict.nodup

theorem keys_mapValues {β : Type} (f : α → β) (dict : Dict κ α) :
    (dict.mapValues f).keys = dict.keys := by
  rw [keys, mapValues, List.map_map]
  rfl

-- called only on a dictionary that has an item
def popitem (dict : Dict κ α) : Dict κ α where
  items := dict.items.dropLast
  nodup := dict.nodup.sublist (dict.items.dropLast_sublist.map Prod.fst)

def popitems : Nat → Dict κ α → Dict κ α
  | 0, dict => dict
  | n + 1, dict => popitems n dict.popitem

theorem popitem_items (dict : Dict κ α) :
    dict.popitem.items = dict.items.take (dict.items.length - 1) := List.dropLast_eq_take

theorem popitems_items (n : Nat) (dict : Dict κ α) :
    (popitems n dict).items = dict.items.take (dict.items.length - n) := by
  induction n generalizing dict with
  | zero => exact List.take_length.symm
  | succ n ih =>
    have hmin : min (dict.items.length - 1) dict.items.length = dict.items.length - 1 := by omega
    have hmin' : min (dict.items.length - 1 - n) (dict.items.length - 1) =
        dict.items.length - (n + 1) := by omega
    rw [popitems, ih, popitem_items, List.length_take, hmin, List.take_take, hmin']

variable [DecidableEq κ]

def find (k : κ) : List (κ × α) → Option α
  | [] => none
  | (k', a) :: items => if k' = k then some a else find k items

def setItems (k : κ) (a : α) : List (κ × α) → List (κ × α)
  | [] => [(k, a)]
  | (k', b) :: items => if k' = k then (k', a) :: items else (k', b) :: setItems k a items

theorem find_setItems (k j : κ) (a : α) (items : List (κ × α)) :
    find j (setItems k a items) = if k = j then some a else find j items := by
  induction items with
  | nil => rfl
  | cons item items ih =>
    obtain ⟨k', b⟩ := item
    rw [setItems]
    by_cases hk : k' = k
    · subst hk
      rw [if_pos rfl, find, find]
      split <;> rfl
    · rw [if_neg hk, find, find, ih]
      by_cases hj : k' = j
      · have hkj : ¬ k = j := fun h => hk (hj.trans h.symm)
        rw [if_pos hj, if_neg hkj, if_pos hj]
      · rw [if_neg hj, if_neg hj]

theorem keys_setItems (k : κ) (a : α) (items : List (κ × α)) :
    (setItems k a items).map Prod.fst =
      if k ∈ items.map Prod.fst then items.map Prod.fst else items.map Prod.fst ++ [k] := by
  induction items with
  | nil => rfl
  | cons item items ih =>
    obtain ⟨k', b⟩ := item
    rw [setItems]
    by_cases hk : k' = k
    · subst hk
      rw [if_pos rfl, List.map_cons, List.map_cons, if_pos List.mem_cons_self]
    · have hmem : k ∈ k' :: items.map Prod.fst ↔ k ∈ items.map Prod.fst := by
        rw [List.mem_cons, or_iff_right (Ne.symm hk)]
      rw [if_neg hk, List.map_cons, List.map_cons, ih, List.cons_append]
      simp only [hmem]
      split <;> rfl

theorem nodup_setItems {items : List (κ × α)} (h : (items.map Prod.fst).Nodup) (k : κ) (a : α) :
    ((setItems k a items).map Prod.fst).Nodup := by
  rw [keys_setItems]
  split
  · exact h
  · rename_i hk
    rw [List.nodup_append]
    refine ⟨h, List.nodup_singleton k, fun j hj j' hj' hjj' => ?_⟩
    rw [List.mem_singleton] at hj'
    exact hk (hj' ▸ hjj' ▸ hj)

def get? (dict : Dict κ α) (k : κ) : Option α := find k dict.items

def set (dict : Dict κ α) (k : κ) (a : α) : Dict κ α where
  items := setItems k a dict.items
  nodup := nodup_setItems dict.nodup k a

-- of two items with one key, the later one stays
def ofList (items : List (κ × α)) : Dict κ α :=
  items.foldl (fun dict item => dict.set item.1 item.2) empty

-- what `==` compares: the order of the keys does not count
def Same (dict dict' : Dict κ α) : Prop := ∀ k, dict.get? k = dict'.get? k

@[simp] theorem get?_empty (k : κ) : (empty : Dict κ α).get? k = none := rfl

theorem get?_set (dict : Dict κ α) (k j : κ) (a : α) :
    (dict.set k a).get? j = if k = j then some a else dict.get? j :=
  find_setItems k j a dict.items

@[simp] theorem get?_set_self (dict : Dict κ α) (k : κ) (a : α) :
    (dict.set k a).get? k = some a := by
  rw [get?_set, if_pos rfl]

theorem get?_set_of_ne (dict : Dict κ α) {k j : κ} (a : α) (h : k ≠ j) :
    (dict.set k a).get? j = dict.get? j := by
  rw [get?_set, if_neg h]

-- a key that is there keeps its place
theorem set_new {dict : Dict κ α} {k : κ} (h : k ∉ dict.keys) (a : α) :
    (dict.set k a).items = dict.items ++ [(k, a)] := by
  have hnew (items : List (κ × α)) (h : k ∉ items.map Prod.fst) :
      setItems k a items = items ++ [(k, a)] := by
    induction items with
    | nil => rfl
    | cons item items ih =>
      rw [List.map_cons, List.mem_cons, not_or] at h
      rw [setItems, if_neg (Ne.symm h.1), ih h.2, List.cons_append]
  exact hnew dict.items h

theorem foldl_set (dict : Dict κ α) {items : List (κ × α)}
    (h : (dict.keys ++ items.map Prod.fst).Nodup) :
    (items.foldl (fun dict item => dict.set item.1 item.2) dict).items = dict.items ++ items := by
  induction items generalizing dict with
  | nil => exact (List.append_nil _).symm
  | cons item items ih =>
    rw [List.map_cons, List.nodup_append] at h
    have hnew : item.1 ∉ dict.keys := fun hmem => h.2.2 _ hmem _ List.mem_cons_self rfl
    have hitems := set_new hnew item.2
    have hrest : ((dict.set item.1 item.2).keys ++ items.map Prod.fst).Nodup := by
      rw [keys, hitems, List.map_append, List.append_assoc, List.nodup_append]
      exact h
    rw [List.foldl_cons, ih _ hrest, hitems, List.append_assoc]
    rfl

theorem ofList_items {items : List (κ × α)} (h : (items.map Prod.fst).Nodup) :
    (ofList items).items = items := foldl_set empty h

theorem find_eq_some {items : List (κ × α)} (hnodup : (items.map Prod.fst).Nodup) {k : κ} {a : α} :
    find k items = some a ↔ (k, a) ∈ items := by
  induction items with
  | nil => simp [find]
  | cons item items ih =>
    obtain ⟨k', b⟩ := item
    rw [List.map_cons, List.nodup_cons] at hnodup
    rw [find, List.mem_cons]
    by_cases hk : k' = k
    · subst hk
      rw [if_pos rfl]
      constructor
      · rintro ⟨⟩
        exact .inl rfl
      · rintro (h | h)
        · cases h
          rfl
        · exact absurd (List.mem_map_of_mem h) hnodup.1
    · rw [if_neg hk, ih hnodup.2]
      constructor
      · exact .inr
      · rintro (h | h)
        · cases h
          exact absurd rfl hk
        · exact h

theorem get?_eq_some (dict : Dict κ α) {k : κ} {a : α} :
    dict.get? k = some a ↔ (k, a) ∈ dict.items := find_eq_some dict.nodup

theorem mem_keys (dict : Dict κ α) {k : κ} : k ∈ dict.keys ↔ ∃ a, dict.get? k = some a := by
  rw [keys, List.mem_map]
  constructor
  · rintro ⟨⟨k', a⟩, hmem, rfl⟩
    exact ⟨a, dict.get?_eq_some.mpr hmem⟩
  · rintro ⟨a, ha⟩
    exact ⟨(k, a), dict.get?_eq_some.mp ha, rfl⟩

theorem get?_eq_none (dict : Dict κ α) {k : κ} : dict.get? k = none ↔ k ∉ dict.keys := by
  rw [mem_keys, not_exists]
  cases dict.get? k <;> simp

theorem mem_values (dict : Dict κ α) {a : α} : a ∈ dict.values ↔ ∃ k, dict.get? k = some a := by
  rw [values, List.mem_map]
  constructor
  · rintro ⟨⟨k, b⟩, hmem, rfl⟩
    exact ⟨k, dict.get?_eq_some.mpr hmem⟩
  · rintro ⟨k, hk⟩
    exact ⟨(k, a), dict.get?_eq_some.mp hk, rfl⟩

theorem sum_values {M : Type} [AddCommMonoid M] (dict : Dict κ M) {s : Finset κ}
    (h : ∀ k ∈ dict.keys, k ∈ s) : dict.values.sum = s.sum fun k => (dict.get? k).getD 0 := by
  have hsub : dict.keys.toFinset ⊆ s := fun k hk => h k (List.mem_toFinset.mp hk)
  rw [← Finset.sum_subset hsub]
  · have hnodup : dict.keys.Nodup := dict.nodup
    rw [List.sum_toFinset _ hnodup, keys, List.map_map, values]
    congr 1
    apply List.map_congr_left
    intro item hitem
    rw [Function.comp_apply, dict.get?_eq_some.mpr hitem]
    rfl
  · intro k _ hk
    rw [List.mem_toFinset] at hk
    rw [dict.get?_eq_none.mpr hk]
    rfl

section OfList

variable (dict : Dict κ α)

theorem get?_foldl_set (items : List (κ × α)) (k : κ) :
    (items.foldl (fun dict item => dict.set item.1 item.2) dict).get? k =
      ((ofList items).get? k).or (dict.get? k) := by
  induction items generalizing dict with
  | nil => rfl
  | cons item items ih =>
    have hcons : (ofList (item :: items)).get? k =
        ((ofList items).get? k).or ((empty.set item.1 item.2).get? k) := ih _
    rw [List.foldl_cons, ih, hcons, get?_set, get?_set, Option.or_assoc]
    split <;> rfl

theorem get?_ofList_cons (item : κ × α) (items : List (κ × α)) (k : κ) :
    (ofList (item :: items)).get? k =
      ((ofList items).get? k).or ((empty.set item.1 item.2).get? k) := get?_foldl_set _ items k

theorem mem_of_get?_ofList {items : List (κ × α)} {k : κ} {a : α}
    (h : (ofList items).get? k = some a) : (k, a) ∈ items := by
  induction items with
  | nil => cases h
  | cons item items ih =>
    rw [get?_ofList_cons, Option.or_eq_some_iff, get?_set] at h
    rcases h with h | ⟨-, h⟩
    · exact List.mem_cons_of_mem _ (ih h)
    · split at h
      · rename_i hk
        cases hk
        cases h
        exact List.mem_cons_self
      · cases h

theorem ofList_self : ofList dict.items = dict := by
  have hitems := ofList_items dict.nodup
  cases h : ofList dict.items
  rw [h] at hitems
  cases hitems
  rfl

theorem mem_keys_ofList {items : List (κ × α)} {k : κ} :
    k ∈ (ofList items).keys ↔ k ∈ items.map Prod.fst := by
  rw [← not_iff_not, ← get?_eq_none]
  induction items with
  | nil => simp [ofList]
  | cons item items ih =>
    rw [get?_ofList_cons, Option.or_eq_none_iff, ih, get?_set]
    by_cases h : item.1 = k
    · simp [h]
    · simp [h, Ne.symm h]

-- of several dictionaries put together the last one that has a key gives its value
theorem get?_ofList_flatMap (dicts : List (Dict κ α)) (k : κ) :
    (ofList (dicts.flatMap items)).get? k = dicts.reverse.findSome? fun dict => dict.get? k := by
  induction dicts with
  | nil => rfl
  | cons dict dicts ih =>
    rw [List.flatMap_cons, ofList, List.foldl_append, get?_foldl_set, ih, ← ofList, ofList_self,
      List.reverse_cons, List.findSome?_append, List.findSome?_singleton]

theorem get?_ofList_filter {items : List (κ × α)} {P : κ → Prop} [DecidablePred P] {k : κ}
    (hk : P k) :
    (ofList (items.filter fun item => P item.1)).get? k = (ofList items).get? k := by
  induction items with
  | nil => rfl
  | cons item items ih =>
    rw [List.filter_cons]
    split
    · rw [get?_ofList_cons, get?_ofList_cons, ih]
    · rename_i hitem
      have hne : item.1 ≠ k := by
        intro h
        rw [h] at hitem
        exact hitem (decide_eq_true hk)
      rw [get?_ofList_cons, ih, get?_set_of_ne _ _ hne, get?_empty, Option.or_none]

end OfList

-- an assignment to `dict[k]` of a `defaultdict` that starts a key at `init`
def update (dict : Dict κ α) (init : α) (k : κ) (f : α → α) : Dict κ α :=
  dict.set k (f ((dict.get? k).getD init))

theorem getD_update (dict : Dict κ α) (init : α) (k j : κ) (f : α → α) :
    ((dict.update init k f).get? j).getD init =
      if k = j then f ((dict.get? j).getD init) else (dict.get? j).getD init := by
  rw [update, get?_set]
  split
  · rename_i h
    rw [h]
    rfl
  · rfl

section Group

variable {ε : Type} (init : α) (key : ε → κ) (f : α → ε → α)

def group (dict : Dict κ α) (entries : List ε) : Dict κ α :=
  entries.foldl (fun dict e => dict.update init (key e) fun a => f a e) dict

-- every key gets the fold over its own entries, in their order
theorem getD_group (dict : Dict κ α) (entries : List ε) (k : κ) :
    ((dict.group init key f entries).get? k).getD init =
      (entries.filter fun e => key e = k).foldl f ((dict.get? k).getD init) := by
  induction entries generalizing dict with
  | nil => rfl
  | cons e entries ih =>
    have hstep : dict.group init key f (e :: entries) =
        (dict.update init (key e) fun a => f a e).group init key f entries := rfl
    rw [hstep, ih, getD_update, List.filter_cons]
    by_cases h : key e = k
    · rw [if_pos h, if_pos (decide_eq_true h), List.foldl_cons]
    · rw [if_neg h, if_neg (by simp [h])]

theorem mem_keys_group (dict : Dict κ α) (entries : List ε) (k : κ) :
    k ∈ (dict.group init key f entries).keys ↔ k ∈ dict.keys ∨ ∃ e ∈ entries, key e = k := by
  induction entries generalizing dict with
  | nil => simp [group]
  | cons e entries ih =>
    have hstep : dict.group init key f (e :: entries) =
        (dict.update init (key e) fun a => f a e).group init key f entries := rfl
    have hkeys : k ∈ (dict.update init (key e) fun a => f a e).keys ↔
        k ∈ dict.keys ∨ key e = k := by
      rw [mem_keys, mem_keys, update]
      by_cases h : key e = k
      · simp [h]
      · simp only [get?_set_of_ne dict _ h, h, or_false]
    rw [hstep, ih, hkeys, List.exists_mem_cons_iff, or_assoc]

end Group

section SetAll

variable {ε : Type} (key : ε → κ) (value : ε → α)

def setAll (dict : Dict κ α) (entries : List ε) : Dict κ α :=
  entries.foldl (fun dict e => dict.set (key e) (value e)) dict

theorem get?_setAll_of_ne (dict : Dict κ α) {entries : List ε} {k : κ}
    (h : ∀ e ∈ entries, key e ≠ k) : (dict.setAll key value entries).get? k = dict.get? k := by
  induction entries generalizing dict with
  | nil => rfl
  | cons e entries ih =>
    rw [List.forall_mem_cons] at h
    have hstep : dict.setAll key value (e :: entries) =
        (dict.set (key e) (value e)).setAll key value entries := rfl
    rw [hstep, ih _ h.2, get?_set_of_ne dict _ h.1]

theorem get?_setAll (dict : Dict κ α) {entries : List ε} (hnodup : (entries.map key).Nodup) {e : ε}
    (he : e ∈ entries) : (dict.setAll key value entries).get? (key e) = some (value e) := by
  induction entries generalizing dict with
  | nil => exact absurd he List.not_mem_nil
  | cons e' entries ih =>
    rw [List.map_cons, List.nodup_cons] at hnodup
    have hstep : dict.setAll key value (e' :: entries) =
        (dict.set (key e') (value e')).setAll key value entries := rfl
    rcases List.mem_cons.mp he with rfl | he
    · have hne : ∀ e' ∈ entries, key e' ≠ key e := fun e' he' heq =>
        hnodup.1 (heq ▸ List.mem_map_of_mem he')
      rw [hstep, get?_setAll_of_ne key value _ hne, get?_set_self]
    · rw [hstep, ih _ hnodup.2 he]

end SetAll

theorem find_map {β : Type} (f : α → β) (k : κ) (items : List (κ × α)) :
    find k (items.map fun item => (item.1, f item.2)) = (find k items).map f := by
  induction items with
  | nil => rfl
  | cons item items ih =>
    rw [List.map_cons, find, find]
    split
    · rfl
    · exact ih

theorem get?_mapValues {β : Type} (f : α → β) (dict : Dict κ α) (k : κ) :
    (dict.mapValues f).get? k = (dict.get? k).map f := find_map f k dict.items

end Dict
