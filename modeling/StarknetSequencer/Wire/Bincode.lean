import StarknetSequencer.Wire.Codec
import Mathlib.Data.Nat.Digits.Lemmas

namespace Wire

def ofBytes (bs : Bytes) : Nat :=
  Nat.ofDigits 256 (bs.map UInt8.toNat)

def toBytes : Nat → Nat → Bytes
  | 0, _ => []
  | k + 1, n => UInt8.ofNat n :: toBytes k (n / 256)

@[simp] theorem ofBytes_nil : ofBytes [] = 0 := rfl

@[simp] theorem ofBytes_cons (b : UInt8) (bs : Bytes) :
    ofBytes (b :: bs) = b.toNat + 256 * ofBytes bs := by
  simp [ofBytes, Nat.ofDigits_cons]

theorem ofBytes_lt (bs : Bytes) : ofBytes bs < 256 ^ bs.length := by
  have h := Nat.ofDigits_lt_base_pow_length (b := 256) (l := bs.map UInt8.toNat) (by norm_num)
    (by
      intro x hx
      obtain ⟨b, -, rfl⟩ := List.mem_map.mp hx
      exact b.toNat_lt)
  simpa [ofBytes] using h

@[simp] theorem toBytes_length (k n : Nat) : (toBytes k n).length = k := by
  induction k generalizing n with
  | zero => rfl
  | succ k ih => simp [toBytes, ih]

theorem ofBytes_toBytes {k n : Nat} (h : n < 256 ^ k) : ofBytes (toBytes k n) = n := by
  induction k generalizing n with
  | zero => simp_all [toBytes]
  | succ k ih =>
    have hd : n / 256 < 256 ^ k := by
      rw [pow_succ] at h
      exact Nat.div_lt_of_lt_mul (by omega)
    have hb : (UInt8.ofNat n).toNat = n % 256 := UInt8.toNat_ofNat'
    rw [toBytes, ofBytes_cons, ih hd, hb]
    exact Nat.mod_add_div n 256

theorem toBytes_ofBytes (bs : Bytes) : toBytes bs.length (ofBytes bs) = bs := by
  induction bs with
  | nil => rfl
  | cons b bs ih =>
    have hb : b.toNat < 256 := b.toNat_lt
    have hd : (b.toNat + 256 * ofBytes bs) / 256 = ofBytes bs := by omega
    rw [List.length_cons, toBytes, ofBytes_cons, hd, ih]
    congr 1
    apply UInt8.toNat_inj.mp
    rw [UInt8.toNat_ofNat']
    omega

namespace Codec

variable {α : Type}

def uint (k : Nat) : Codec Nat where
  encode n := toBytes k n
  decode bs := if k ≤ bs.length then some (ofBytes (bs.take k), bs.drop k) else none
  fits n := n < 256 ^ k
  reads n rest h := by
    have hk : (toBytes k n ++ rest).take k = toBytes k n :=
      List.take_left' (toBytes_length k n)
    have hr : (toBytes k n ++ rest).drop k = rest := List.drop_left' (toBytes_length k n)
    rw [if_pos (by simp), hk, hr, ofBytes_toBytes h]
  sound {bs n rest} h := by
    split at h
    · rename_i hk
      cases h
      have hlen : (bs.take k).length = k := by simpa using hk
      have hlt := ofBytes_lt (bs.take k)
      have hback := toBytes_ofBytes (bs.take k)
      rw [hlen] at hlt hback
      exact ⟨hlt, by rw [hback, List.take_append_drop]⟩
    · cases h

def u32 : Codec Nat := uint 4

def u64 : Codec Nat := uint 8

def i32 : Codec Int32 :=
  (uint 4).refine (fun n => n.toBitVec.toNat)
    (fun n => if n < 2 ^ 32 then some (Int32.ofBitVec (BitVec.ofNat 32 n)) else none)
    (by
      intro n
      rw [if_pos n.toBitVec.isLt, BitVec.ofNat_toNat, BitVec.setWidth_eq]
      rfl)
    (by
      intro n m h
      split at h
      · rename_i hn
        cases h
        exact Nat.mod_eq_of_lt hn
      · cases h)

def i64 : Codec Int64 :=
  (uint 8).refine (fun n => n.toBitVec.toNat)
    (fun n => if n < 2 ^ 64 then some (Int64.ofBitVec (BitVec.ofNat 64 n)) else none)
    (by
      intro n
      rw [if_pos n.toBitVec.isLt, BitVec.ofNat_toNat, BitVec.setWidth_eq]
      rfl)
    (by
      intro n m h
      split at h
      · rename_i hn
        cases h
        exact Nat.mod_eq_of_lt hn
      · cases h)

def index (k : Nat) : Codec (Fin k) :=
  u32.refine Fin.val (fun n => if h : n < k then some ⟨n, h⟩ else none)
    (by
      intro i
      rw [dif_pos i.isLt])
    (by
      intro n i h
      split at h
      · cases h; rfl
      · cases h)

def option (c : Codec α) : Codec (Option α) where
  encode
    | none => [0]
    | some a => 1 :: c.encode a
  decode
    | [] => none
    | tag :: bs =>
      if tag = 0 then some (none, bs)
      else if tag = 1 then (c.decode bs).map fun (a, rest) => (some a, rest)
      else none
  fits o := ∀ a ∈ o, c.fits a
  reads o rest h := by
    cases o with
    | none => rfl
    | some a =>
      rw [List.cons_append]
      simp only [c.reads a rest (h a rfl), Option.map_some]
      rfl
  sound {bs o rest} h := by
    cases bs with
    | nil => cases h
    | cons tag bs =>
      by_cases h0 : tag = 0
      · simp only [h0, if_true] at h
        cases h
        subst h0
        exact ⟨by simp, rfl⟩
      · by_cases h1 : tag = 1
        · simp only [h1] at h
          obtain ⟨⟨a, rest'⟩, ha, h⟩ := Option.map_eq_some_iff.mp h
          cases h
          obtain ⟨hfa, rfl⟩ := c.sound ha
          subst h1
          exact ⟨by simpa using hfa, rfl⟩
        · simp only [h0, h1, if_false] at h
          cases h

end Codec

def utf8 (s : String) : Bytes :=
  s.toByteArray.data.toList

def ofUtf8 (bs : Bytes) : Option String :=
  String.fromUTF8? ⟨bs.toArray⟩

theorem ofUtf8_utf8 (s : String) : ofUtf8 (utf8 s) = some s := by
  have h : (⟨(utf8 s).toArray⟩ : ByteArray) = s.toByteArray := by simp [utf8]
  rw [ofUtf8, h, String.fromUTF8?, dif_pos s.isValidUTF8]
  rfl

theorem utf8_of_ofUtf8 {bs : Bytes} {s : String} (h : ofUtf8 bs = some s) : utf8 s = bs := by
  rw [ofUtf8, String.fromUTF8?] at h
  split at h
  · cases h; rfl
  · cases h

theorem utf8_append (s t : String) : utf8 (s ++ t) = utf8 s ++ utf8 t := by
  simp [utf8]

theorem utf8_ascii {s : String} (h : ∀ c ∈ s.toList, c.utf8Size = 1) :
    utf8 s = s.toList.map fun c => c.val.toUInt8 := by
  have hs : utf8 s = s.toList.flatMap String.utf8EncodeChar := by
    conv_lhs => rw [← String.ofList_toList (s := s)]
    simp only [utf8, String.toByteArray_ofList, List.utf8Encode, List.data_toByteArray]
  rw [hs]
  generalize s.toList = cs at h
  induction cs with
  | nil => rfl
  | cons c cs ih =>
    rw [List.forall_mem_cons] at h
    rw [List.flatMap_cons, List.map_cons, String.utf8EncodeChar_eq_singleton h.1, ih h.2]
    rfl

theorem utf8_inj {s t : String} (h : utf8 s = utf8 t) : s = t := by
  have hs := ofUtf8_utf8 s
  rw [h, ofUtf8_utf8] at hs
  exact (Option.some.inj hs).symm

def Codec.string : Codec String :=
  (Codec.vec Codec.u64 Codec.byte).refine utf8 ofUtf8 ofUtf8_utf8 utf8_of_ofUtf8

end Wire
