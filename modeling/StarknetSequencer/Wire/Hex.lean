import StarknetSequencer.Wire.Bincode
import Mathlib.Data.Nat.ModEq
import Mathlib.Tactic.Ring

namespace Wire

def hexDigit (n : Nat) : Char :=
  if n < 10 then Char.ofNat (48 + n) else Char.ofNat (87 + n)

def digitValue (c : Char) : Option Nat :=
  if '0' ≤ c ∧ c ≤ '9' then some (c.toNat - 48)
  else if 'a' ≤ c ∧ c ≤ 'f' then some (c.toNat - 87)
  else if 'A' ≤ c ∧ c ≤ 'F' then some (c.toNat - 55)
  else none

def hexChars (bs : Bytes) : List Char :=
  bs.flatMap fun b => [hexDigit (b.toNat / 16), hexDigit (b.toNat % 16)]

def hexEncode (bs : Bytes) : String :=
  String.ofList (hexChars bs)

def bigEndian (bs : Bytes) : Nat :=
  bs.foldl (fun n b => 256 * n + b.toNat) 0

def readHex (n : Nat) : List Char → Option Nat
  | [] => some n
  | c :: cs => (digitValue c).bind fun d => readHex (16 * n + d) cs

def hexNumber : List Char → Option Nat
  | [] => none
  | c :: cs => readHex 0 (c :: cs)

theorem digitValue_hexDigit {n : Nat} (h : n < 16) : digitValue (hexDigit n) = some n := by
  interval_cases n <;> decide

theorem hexDigit_ne {n : Nat} (h : n < 16) : hexDigit n ≠ 'x' ∧ hexDigit n ≠ 'I' := by
  interval_cases n <;> decide

@[simp] theorem toList_hexEncode (bs : Bytes) : (hexEncode bs).toList = hexChars bs :=
  String.toList_ofList

theorem hexChars_ne_nil {bs : Bytes} (h : bs ≠ []) : hexChars bs ≠ [] := by
  cases bs with
  | nil => exact absurd rfl h
  | cons b bs => simp [hexChars]

theorem hexChars_digits {bs : Bytes} {c : Char} (h : c ∈ hexChars bs) :
    ∃ n < 16, c = hexDigit n := by
  simp only [hexChars, List.mem_flatMap, List.mem_cons, List.not_mem_nil, or_false] at h
  obtain ⟨b, -, rfl | rfl⟩ := h
  · have hb : b.toNat < 256 := b.toNat_lt
    exact ⟨b.toNat / 16, by omega, rfl⟩
  · exact ⟨b.toNat % 16, by omega, rfl⟩

theorem readHex_hexChars (n : Nat) (bs : Bytes) :
    readHex n (hexChars bs) = some (bs.foldl (fun n b => 256 * n + b.toNat) n) := by
  induction bs generalizing n with
  | nil => rfl
  | cons b bs ih =>
    have hb : b.toNat < 256 := b.toNat_lt
    have hhi : b.toNat / 16 < 16 := by omega
    have hlo : b.toNat % 16 < 16 := by omega
    have hstep : 16 * (16 * n + b.toNat / 16) + b.toNat % 16 = 256 * n + b.toNat := by omega
    change readHex n (hexDigit (b.toNat / 16) :: hexDigit (b.toNat % 16) :: hexChars bs) = _
    simp only [readHex, digitValue_hexDigit hhi, digitValue_hexDigit hlo, Option.bind_some,
      hstep, ih, List.foldl_cons]

theorem hexNumber_hexChars {bs : Bytes} (h : bs ≠ []) :
    hexNumber (hexChars bs) = some (bigEndian bs) := by
  have hne := hexChars_ne_nil h
  have hread := readHex_hexChars 0 bs
  cases hc : hexChars bs with
  | nil => exact absurd hc hne
  | cons c cs =>
    rw [hc] at hread
    exact hread

theorem digitValue_some {c : Char} {d : Nat} (h : digitValue c = some d) :
    d < 16 ∧ c.utf8Size = 1 ∧ (d = 0 → c = '0') := by
  have hval (k : Nat) (hk : c.toNat = k) : c = Char.ofNat k := by
    rw [← hk, Char.ofNat_toNat]
  have hone (hle : c.toNat ≤ 127) : c.utf8Size = 1 := Char.utf8Size_eq_one_iff.mpr hle
  rw [digitValue] at h
  split at h
  · rename_i hc
    have hlo : 48 ≤ c.toNat := hc.1
    have hhi : c.toNat ≤ 57 := hc.2
    cases h
    refine ⟨by omega, hone (by omega), fun hd => hval 48 (by omega)⟩
  · split at h
    · rename_i hc
      have hlo : 97 ≤ c.toNat := hc.1
      have hhi : c.toNat ≤ 102 := hc.2
      cases h
      exact ⟨by omega, hone (by omega), by omega⟩
    · split at h
      · rename_i hc
        have hlo : 65 ≤ c.toNat := hc.1
        have hhi : c.toNat ≤ 70 := hc.2
        cases h
        exact ⟨by omega, hone (by omega), by omega⟩
      · cases h

theorem readHex_eq (n : Nat) (cs : List Char) :
    readHex n cs = (readHex 0 cs).map (n * 16 ^ cs.length + ·) := by
  induction cs generalizing n with
  | nil => simp [readHex]
  | cons c cs ih =>
    rw [readHex, readHex]
    cases digitValue c with
    | none => rfl
    | some d =>
      simp only [Option.bind_some]
      rw [ih (16 * n + d), ih (16 * 0 + d), Option.map_map]
      congr 1
      funext m
      simp only [Function.comp_apply, List.length_cons, pow_succ]
      ring

theorem hexNumber_eq_some {cs : List Char} {n : Nat} :
    hexNumber cs = some n ↔ cs ≠ [] ∧ readHex 0 cs = some n := by
  cases cs with
  | nil => simp [hexNumber]
  | cons c cs => simp [hexNumber]

theorem hexNumber_cons_cons {a b : Char} {cs : List Char} {n : Nat}
    (h : hexNumber (a :: b :: cs) = some n) :
    ∃ x y m, digitValue a = some x ∧ digitValue b = some y ∧ readHex 0 cs = some m ∧
      n = (16 * x + y) * 16 ^ cs.length + m := by
  obtain ⟨x, ha, h⟩ := Option.bind_eq_some_iff.mp h
  obtain ⟨y, hb, h⟩ := Option.bind_eq_some_iff.mp h
  rw [readHex_eq] at h
  obtain ⟨m, hm, h⟩ := Option.map_eq_some_iff.mp h
  refine ⟨x, y, m, ha, hb, hm, ?_⟩
  simpa [eq_comm] using h

theorem mul_pow_sixteen_modEq {p d k m : Nat} (hp : Nat.Coprime 16 p) (hd : d < p) :
    d * 16 ^ k + m ≡ m [MOD p] ↔ d = 0 := by
  have hpow : Nat.Coprime p (16 ^ k) := (Nat.Coprime.pow_left k hp).symm
  constructor
  · intro h
    have hzero : d * 16 ^ k ≡ 0 [MOD p] := Nat.ModEq.add_right_cancel' m (by simpa using h)
    have hdvd : p ∣ d := hpow.dvd_of_dvd_mul_right ((Nat.modEq_zero_iff_dvd).mp hzero)
    exact Nat.eq_zero_of_dvd_of_lt hdvd hd
  · rintro rfl
    simp [Nat.ModEq]
end Wire
