import StarknetSequencer.Wire.Decimal

namespace Wire

-- the zero of each run of ten decimal digits of Unicode 13
def decimalZeros : List Nat :=
  [0x30, 0x660, 0x6f0, 0x7c0, 0x966, 0x9e6, 0xa66, 0xae6, 0xb66, 0xbe6, 0xc66, 0xce6, 0xd66,
    0xde6, 0xe50, 0xed0, 0xf20, 0x1040, 0x1090, 0x17e0, 0x1810, 0x1946, 0x19d0, 0x1a80, 0x1a90,
    0x1b50, 0x1bb0, 0x1c40, 0x1c50, 0xa620, 0xa8d0, 0xa900, 0xa9d0, 0xa9f0, 0xaa50, 0xabf0,
    0xff10, 0x104a0, 0x10d30, 0x11066, 0x110f0, 0x11136, 0x111d0, 0x112f0, 0x11450, 0x114d0,
    0x11650, 0x116c0, 0x11730, 0x118e0, 0x11950, 0x11c50, 0x11d50, 0x11da0, 0x16a60, 0x16b50,
    0x1d7ce, 0x1d7d8, 0x1d7e2, 0x1d7ec, 0x1d7f6, 0x1e140, 0x1e2f0, 0x1e950, 0x1fbf0]

def decimalValue (c : Char) : Option Nat :=
  (decimalZeros.find? fun z => z ≤ c.toNat ∧ c.toNat < z + 10).map fun z => c.toNat - z

def isDecimal (c : Char) : Bool := (decimalValue c).isSome

def readInt (digits : List Char) : Nat :=
  digits.foldl (fun n c => 10 * n + (decimalValue c).getD 0) 0

theorem decimalValue_ascii {c : Char} (h : c.isDigit) : decimalValue c = some (c.toNat - 48) := by
  rw [Char.isDigit, Bool.and_eq_true, decide_eq_true_iff, decide_eq_true_iff] at h
  have hlow : 48 ≤ c.toNat := h.1
  have hhigh : c.toNat ≤ 57 := h.2
  have hrange : 0x30 ≤ c.toNat ∧ c.toNat < 0x30 + 10 := by omega
  have hfind (zeros : List Nat) :
      (0x30 :: zeros).find? (fun z => z ≤ c.toNat ∧ c.toNat < z + 10) = some 0x30 :=
    List.find?_cons_of_pos (decide_eq_true hrange)
  exact congrArg (Option.map fun z => c.toNat - z) (hfind _)

theorem isDecimal_ascii {c : Char} (h : c.isDigit) : isDecimal c := by
  rw [isDecimal, decimalValue_ascii h]
  rfl

theorem readInt_ascii {digits : List Char} (h : ∀ c ∈ digits, c.isDigit) :
    readInt digits = Nat.ofDigitChars 10 digits 0 := by
  rw [readInt, Nat.ofDigitChars_eq_foldl]
  refine List.foldl_ext _ _ 0 fun n c hc => ?_
  rw [decimalValue_ascii (h c hc)]
  rfl

@[simp] theorem readInt_repr (n : Nat) : readInt n.repr.toList = n := by
  rw [readInt_ascii fun c hc => natRepr_digit hc, Nat.toList_repr, Nat.ofDigitChars_ten_toDigits]

theorem isDecimal_repr {n : Nat} {c : Char} (h : c ∈ n.repr.toList) : isDecimal c :=
  isDecimal_ascii (natRepr_digit h)

-- a comma before every third digit, counted from the right
def thousands : List Char → List Char
  | [] => []
  | d :: ds => if ds ≠ [] ∧ ds.length % 3 = 0 then d :: ',' :: thousands ds else d :: thousands ds

theorem filter_thousands {digits : List Char} (h : ',' ∉ digits) :
    (thousands digits).filter (· ≠ ',') = digits := by
  induction digits with
  | nil => rfl
  | cons d ds ih =>
    rw [List.mem_cons, not_or] at h
    have hd : d ≠ ',' := Ne.symm h.1
    rw [thousands]
    split
    · rw [List.filter_cons_of_pos (by simpa using hd), List.filter_cons_of_neg (by simp), ih h.2]
    · rw [List.filter_cons_of_pos (by simpa using hd), ih h.2]

def grouped (n : Nat) : List Char := thousands n.repr.toList

theorem filter_grouped (n : Nat) : (grouped n).filter (· ≠ ',') = n.repr.toList := by
  refine filter_thousands fun h => ?_
  exact absurd (natRepr_digit h) (by decide)

def groupedInt (n : Int) : List Char :=
  if n < 0 then '-' :: grouped n.natAbs else grouped n.natAbs

theorem filter_groupedInt (n : Int) : (groupedInt n).filter (· ≠ ',') = n.repr.toList := by
  cases n with
  | ofNat n =>
    have hnonneg : ¬ Int.ofNat n < 0 := Int.not_lt.mpr (Int.natCast_nonneg n)
    rw [groupedInt, if_neg hnonneg]
    exact filter_grouped n
  | negSucc n =>
    have hneg : (Int.negSucc n).repr = "-" ++ (n + 1).repr := rfl
    rw [groupedInt, if_pos (Int.negSucc_lt_zero n), List.filter_cons_of_pos (by decide),
      filter_grouped, hneg, String.toList_append]
    rfl

end Wire
