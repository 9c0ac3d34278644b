import Mathlib.Data.List.Basic

namespace Wire

abbrev Bytes := List UInt8

structure Codec (α : Type) where
  encode : α → Bytes
  decode : Bytes → Option (α × Bytes)
  fits : α → Prop
  reads : ∀ a rest, fits a → decode (encode a ++ rest) = some (a, rest)
  sound : ∀ {bs a rest}, decode bs = some (a, rest) → fits a ∧ bs = encode a ++ rest

namespace Codec

variable {α β ι : Type}

def deserialize (c : Codec α) (bs : Bytes) : Option α :=
  (c.decode bs).map Prod.fst

theorem deserialize_encode_append (c : Codec α) {a : α} (rest : Bytes) (ha : c.fits a) :
    c.deserialize (c.encode a ++ rest) = some a := by
  rw [deserialize, c.reads a rest ha]
  rfl

theorem deserialize_encode (c : Codec α) {a : α} (ha : c.fits a) :
    c.deserialize (c.encode a) = some a := by
  simpa using c.deserialize_encode_append [] ha

theorem deserialize_eq_some (c : Codec α) {bs : Bytes} {a : α} :
    c.deserialize bs = some a ↔ c.fits a ∧ ∃ rest, bs = c.encode a ++ rest := by
  constructor
  · intro h
    obtain ⟨⟨a', rest⟩, hdecode, rfl⟩ := Option.map_eq_some_iff.mp h
    obtain ⟨hfits, hbs⟩ := c.sound hdecode
    exact ⟨hfits, rest, hbs⟩
  · rintro ⟨hfits, rest, rfl⟩
    exact c.deserialize_encode_append rest hfits

theorem encode_eq_iff_length (c : Codec α) {bs : Bytes} {a : α} (h : c.deserialize bs = some a) :
    c.encode a = bs ↔ (c.encode a).length = bs.length := by
  obtain ⟨-, rest, rfl⟩ := c.deserialize_eq_some.mp h
  constructor
  · exact congrArg List.length
  · intro hlen
    rw [List.length_append, Nat.left_eq_add, List.length_eq_zero_iff] at hlen
    rw [hlen, List.append_nil]

def byte : Codec UInt8 where
  encode b := [b]
  decode
    | [] => none
    | b :: rest => some (b, rest)
  fits _ := True
  reads _ _ _ := rfl
  sound {bs a rest} h := by
    cases bs with
    | nil => cases h
    | cons b bs => cases h; exact ⟨trivial, rfl⟩

def seq (c : Codec α) (d : Codec β) : Codec (α × β) where
  encode p := c.encode p.1 ++ d.encode p.2
  decode bs :=
    (c.decode bs).bind fun (a, bs) =>
    (d.decode bs).map fun (b, rest) => ((a, b), rest)
  fits p := c.fits p.1 ∧ d.fits p.2
  reads p rest h := by
    simp only [List.append_assoc, c.reads _ _ h.1, d.reads _ _ h.2, Option.bind_some,
      Option.map_some]
  sound {bs p rest} h := by
    obtain ⟨⟨a, mid⟩, ha, h⟩ := Option.bind_eq_some_iff.mp h
    obtain ⟨⟨b, rest'⟩, hb, h⟩ := Option.map_eq_some_iff.mp h
    cases h
    obtain ⟨hfa, rfl⟩ := c.sound ha
    obtain ⟨hfb, rfl⟩ := d.sound hb
    exact ⟨⟨hfa, hfb⟩, (List.append_assoc ..).symm⟩

def refine (c : Codec α) (pack : β → α) (unpack : α → Option β)
    (unpack_pack : ∀ b, unpack (pack b) = some b)
    (pack_unpack : ∀ {a b}, unpack a = some b → pack b = a) : Codec β where
  encode b := c.encode (pack b)
  decode bs := (c.decode bs).bind fun (a, rest) => (unpack a).map (·, rest)
  fits b := c.fits (pack b)
  reads b rest h := by
    simp only [c.reads _ _ h, Option.bind_some, unpack_pack, Option.map_some]
  sound {bs b rest} h := by
    obtain ⟨⟨a, rest'⟩, ha, h⟩ := Option.bind_eq_some_iff.mp h
    obtain ⟨b', hb, h⟩ := Option.map_eq_some_iff.mp h
    cases h
    obtain ⟨hfa, rfl⟩ := c.sound ha
    cases pack_unpack hb
    exact ⟨hfa, rfl⟩

def variant {β : ι → Type} (tag : Codec ι) (c : (i : ι) → Codec (β i)) :
    Codec (Σ i, β i) where
  encode v := tag.encode v.1 ++ (c v.1).encode v.2
  decode bs :=
    (tag.decode bs).bind fun (i, bs) =>
    ((c i).decode bs).map fun (b, rest) => (⟨i, b⟩, rest)
  fits v := tag.fits v.1 ∧ (c v.1).fits v.2
  reads v rest h := by
    simp only [List.append_assoc, tag.reads _ _ h.1, (c v.1).reads _ _ h.2, Option.bind_some,
      Option.map_some]
  sound {bs v rest} h := by
    obtain ⟨⟨i, mid⟩, hi, h⟩ := Option.bind_eq_some_iff.mp h
    obtain ⟨⟨b, rest'⟩, hb, h⟩ := Option.map_eq_some_iff.mp h
    cases h
    obtain ⟨hfi, rfl⟩ := tag.sound hi
    obtain ⟨hfb, rfl⟩ := (c i).sound hb
    exact ⟨⟨hfi, hfb⟩, (List.append_assoc ..).symm⟩

def decodeTimes (c : Codec α) : Nat → Bytes → Option (List α × Bytes)
  | 0, bs => some ([], bs)
  | n + 1, bs =>
    (c.decode bs).bind fun (a, bs) =>
    (c.decodeTimes n bs).map fun (as, rest) => (a :: as, rest)

theorem decodeTimes_encode (c : Codec α) (as : List α) (rest : Bytes)
    (h : ∀ a ∈ as, c.fits a) :
    c.decodeTimes as.length (as.flatMap c.encode ++ rest) = some (as, rest) := by
  induction as with
  | nil => rfl
  | cons a as ih =>
    have ha : c.fits a := h a (List.mem_cons_self ..)
    have has : ∀ b ∈ as, c.fits b := fun b hb => h b (List.mem_cons_of_mem _ hb)
    simp only [List.length_cons, decodeTimes, List.flatMap_cons, List.append_assoc,
      c.reads _ _ ha, Option.bind_some, ih has, Option.map_some]

theorem decodeTimes_sound (c : Codec α) {n : Nat} {bs rest : Bytes} {as : List α}
    (h : c.decodeTimes n bs = some (as, rest)) :
    as.length = n ∧ (∀ a ∈ as, c.fits a) ∧ bs = as.flatMap c.encode ++ rest := by
  induction n generalizing bs as with
  | zero => cases h; simp
  | succ n ih =>
    obtain ⟨⟨a, mid⟩, ha, h⟩ := Option.bind_eq_some_iff.mp h
    obtain ⟨⟨as', rest'⟩, has, h⟩ := Option.map_eq_some_iff.mp h
    cases h
    obtain ⟨hfa, rfl⟩ := c.sound ha
    obtain ⟨hlen, hfits, rfl⟩ := ih has
    refine ⟨by simp [hlen], ?_, by simp⟩
    intro b hb
    rcases List.mem_cons.mp hb with rfl | hb
    · exact hfa
    · exact hfits b hb

def vec (len : Codec Nat) (c : Codec α) : Codec (List α) where
  encode as := len.encode as.length ++ as.flatMap c.encode
  decode bs := (len.decode bs).bind fun (n, bs) => c.decodeTimes n bs
  fits as := len.fits as.length ∧ ∀ a ∈ as, c.fits a
  reads as rest h := by
    simp only [List.append_assoc, len.reads _ _ h.1, Option.bind_some,
      c.decodeTimes_encode _ _ h.2]
  sound {bs as rest} h := by
    obtain ⟨⟨n, mid⟩, hn, has⟩ := Option.bind_eq_some_iff.mp h
    obtain ⟨hfn, rfl⟩ := len.sound hn
    obtain ⟨rfl, hfits, rfl⟩ := c.decodeTimes_sound has
    exact ⟨⟨hfn, hfits⟩, (List.append_assoc ..).symm⟩

end Codec

end Wire
