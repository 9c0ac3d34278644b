import Mathlib.Data.Nat.Log
import Mathlib.Data.Nat.Sqrt
import Mathlib.Tactic.Ring

namespace Binary64

-- the whole number nearest to a / d, and of two such the even one
def halfEven (a d : Nat) : Nat :=
  if 2 * (a % d) < d ∨ 2 * (a % d) = d ∧ a / d % 2 = 0 then a / d else a / d + 1

theorem le_halfEven (a d : Nat) : a / d ≤ halfEven a d := by
  rw [halfEven]
  split <;> omega

theorem halfEven_le (a d : Nat) : halfEven a d ≤ a / d + 1 := by
  rw [halfEven]
  split <;> omega

section Nearest

variable (p : Nat)

-- the last place of a number that starts at the leading bit of f and has p bits after it
def unit (f : Nat) : Nat := 2 ^ (f.log2 - p)

-- a / d with p bits after the leading one
def nearest (a d : Nat) : Nat := halfEven a (d * unit p (a / d)) * unit p (a / d)

variable {p}

theorem unit_pos (f : Nat) : 0 < unit p f := Nat.two_pow_pos _

theorem unit_dvd (f : Nat) : unit p f ∣ 2 ^ f.log2 := Nat.pow_dvd_pow 2 (Nat.sub_le _ _)

theorem unit_le {f : Nat} (hf : f ≠ 0) : unit p f ≤ f :=
  (Nat.le_of_dvd (Nat.two_pow_pos _) (unit_dvd f)).trans (Nat.log2_self_le hf)

theorem two_pow_le_nearest {a d : Nat} (h : a / d ≠ 0) : 2 ^ (a / d).log2 ≤ nearest p a d := by
  obtain ⟨k, hk⟩ := unit_dvd (p := p) (a / d)
  have hquot : k ≤ a / (d * unit p (a / d)) := by
    rw [← Nat.div_div_eq_div_mul, Nat.le_div_iff_mul_le (unit_pos _), mul_comm, ← hk]
    exact Nat.log2_self_le h
  rw [hk, nearest, mul_comm]
  exact Nat.mul_le_mul_right _ (hquot.trans (le_halfEven _ _))

theorem nearest_le_two_pow (a d : Nat) : nearest p a d ≤ 2 ^ ((a / d).log2 + 1) := by
  obtain ⟨k, hk⟩ := (unit_dvd (p := p) (a / d)).trans (Nat.pow_dvd_pow 2 (Nat.le_succ _))
  have hquot : a / (d * unit p (a / d)) < k := by
    rw [← Nat.div_div_eq_div_mul, Nat.div_lt_iff_lt_mul (unit_pos _), mul_comm, ← hk]
    exact Nat.lt_log2_self
  have hround : halfEven a (d * unit p (a / d)) ≤ k := (halfEven_le _ _).trans hquot
  rw [hk, nearest, mul_comm]
  exact Nat.mul_le_mul_left _ hround

theorem nearest_le (a d : Nat) : nearest p a d ≤ 2 * (a / d) + 1 := by
  have hquot : a / (d * unit p (a / d)) * unit p (a / d) ≤ a / d := by
    rw [← Nat.div_div_eq_div_mul]
    exact Nat.div_mul_le_self _ _
  have hround := Nat.mul_le_mul_right (unit p (a / d)) (halfEven_le a (d * unit p (a / d)))
  rw [Nat.add_mul, Nat.one_mul] at hround
  rw [nearest]
  by_cases hf : a / d = 0
  · have hone : unit p (a / d) = 1 := by rw [hf]; simp [unit]
    omega
  · have hunit := unit_le (p := p) hf
    omega

theorem nearest_eq_zero_iff {a d : Nat} (hd : 0 < d) (hint : d ∣ a) :
    nearest p a d = 0 ↔ a = 0 := by
  constructor
  · intro h
    by_contra ha
    have hf : a / d ≠ 0 := by
      have hle := Nat.le_of_dvd (Nat.pos_of_ne_zero ha) hint
      exact Nat.ne_of_gt (Nat.div_pos hle hd)
    have hpos := two_pow_le_nearest (p := p) hf
    rw [h] at hpos
    exact absurd hpos (Nat.not_le.mpr (Nat.two_pow_pos _))
  · rintro rfl
    have hzero (n : Nat) : halfEven 0 (d * n) = 0 := by
      rw [halfEven, Nat.zero_mod, Nat.zero_div]
      exact if_pos (by omega)
    rw [nearest, hzero, Nat.zero_mul]

theorem halfEven_lt_iff {a d n : Nat} (hd : 0 < d) (hodd : n % 2 = 1) (hquot : a / d ≤ n) :
    halfEven a d < n + 1 ↔ 2 * a < (2 * n + 1) * d := by
  have ha := Nat.div_add_mod a d
  have hr := Nat.mod_lt a hd
  rw [halfEven]
  rcases Nat.lt_or_ge (a / d) n with hlt | hge
  · have hnext : d * (a / d) + d ≤ d * n := by
      rw [← Nat.mul_succ]
      exact Nat.mul_le_mul_left d hlt
    have hright : 2 * a < (2 * n + 1) * d := by
      have hexpand : (2 * n + 1) * d = 2 * (d * n) + d := by ring
      omega
    refine iff_of_true ?_ hright
    split <;> omega
  · have hq : a / d = n := Nat.le_antisymm hquot hge
    rw [hq] at ha
    have hexpand : (2 * n + 1) * d = 2 * (d * n) + d := by ring
    rw [hq, hexpand]
    -- halfway, the odd quotient goes up
    split <;> omega

-- well below the largest number with p bits after the leading one, at most a doubling away from it
theorem nearest_lt_of_div_lt {a d top : Nat} (hd : 0 < d) (hf : a / d < 2 ^ (p + top)) :
    nearest p a d < 2 ^ (p + 1 + top) ∧ 2 * a < (2 ^ (p + 2) - 1) * (d * 2 ^ top) := by
  have hdouble : 2 ^ (p + 2) = 2 * 2 ^ (p + 1) := by ring
  have hone : 1 ≤ 2 ^ (p + 1) := Nat.one_le_two_pow
  constructor
  · have hle := nearest_le (p := p) a d
    have hsucc : 2 ^ (p + 1 + top) = 2 * 2 ^ (p + top) := by ring
    omega
  · have ha : a < d * 2 ^ (p + top) :=
      (Nat.lt_mul_div_succ a hd).trans_le (Nat.mul_le_mul_left d hf)
    have hfactor : 2 ^ (p + 1) * (d * 2 ^ top) ≤ (2 ^ (p + 2) - 1) * (d * 2 ^ top) :=
      Nat.mul_le_mul_right _ (by omega)
    have hsame : 2 ^ (p + 1) * (d * 2 ^ top) = 2 * (d * 2 ^ (p + top)) := by ring
    omega

theorem le_nearest_of_le_div {a d top : Nat} (hf : 2 ^ (p + 1 + top) ≤ a / d) :
    2 ^ (p + 1 + top) ≤ nearest p a d ∧ (2 ^ (p + 2) - 1) * (d * 2 ^ top) ≤ 2 * a := by
  have hne : a / d ≠ 0 := Nat.ne_of_gt ((Nat.two_pow_pos _).trans_le hf)
  constructor
  · exact (Nat.pow_le_pow_right (by decide) ((Nat.le_log2 hne).mpr hf)).trans
      (two_pow_le_nearest hne)
  · have ha : d * 2 ^ (p + 1 + top) ≤ a := (Nat.mul_le_mul_left d hf).trans (Nat.mul_div_le a d)
    have hfactor : (2 ^ (p + 2) - 1) * (d * 2 ^ top) ≤ 2 ^ (p + 2) * (d * 2 ^ top) :=
      Nat.mul_le_mul_right _ (Nat.sub_le _ 1)
    have hsame : 2 ^ (p + 2) * (d * 2 ^ top) = 2 * (d * 2 ^ (p + 1 + top)) := by ring
    omega

-- with the largest number's own exponent, `2 ^ (p + 1) - 1` is the last integer that fits
theorem nearest_lt_iff_of_log2 {a d top : Nat} (hd : 0 < d) (hlow : 2 ^ (p + top) ≤ a / d)
    (hhigh : a / d < 2 ^ (p + 1 + top)) :
    nearest p a d < 2 ^ (p + 1 + top) ↔ 2 * a < (2 ^ (p + 2) - 1) * (d * 2 ^ top) := by
  have hpow : 2 ^ (p + 1 + top) = 2 ^ (p + 1) * 2 ^ top := Nat.pow_add 2 (p + 1) top
  have hdouble : 2 ^ (p + 2) = 2 * 2 ^ (p + 1) := by ring
  have hone : 1 ≤ 2 ^ (p + 1) := Nat.one_le_two_pow
  have hne : a / d ≠ 0 := Nat.ne_of_gt ((Nat.two_pow_pos _).trans_le hlow)
  have hlog : (a / d).log2 = p + top := by
    have hle := (Nat.le_log2 hne).mpr hlow
    have hlt := (Nat.log2_lt hne).mpr hhigh
    omega
  have hunit : unit p (a / d) = 2 ^ top := by
    rw [unit, hlog, Nat.add_sub_cancel_left]
  have hmost : a / (d * 2 ^ top) ≤ 2 ^ (p + 1) - 1 := by
    rw [← Nat.div_div_eq_div_mul]
    have hlt := Nat.div_lt_of_lt_mul (hhigh.trans_eq (hpow.trans (mul_comm _ _)))
    omega
  have hodd : (2 ^ (p + 1) - 1) % 2 = 1 := by
    have heven : 2 ^ (p + 1) = 2 * 2 ^ p := by ring
    have hpos := Nat.two_pow_pos p
    omega
  have hiff := halfEven_lt_iff (Nat.mul_pos hd (Nat.two_pow_pos top)) hodd hmost
  have hlast : 2 ^ (p + 1) - 1 + 1 = 2 ^ (p + 1) := by omega
  have hcoeff : 2 * (2 ^ (p + 1) - 1) + 1 = 2 ^ (p + 2) - 1 := by omega
  rw [hlast, hcoeff] at hiff
  rw [nearest, hunit, hpow, Nat.mul_lt_mul_right (Nat.two_pow_pos top)]
  exact hiff

-- rounding goes past the largest number with p bits after the leading one exactly from halfway on
theorem nearest_lt_iff {a d : Nat} (hd : 0 < d) (top : Nat) :
    nearest p a d < 2 ^ (p + 1 + top) ↔ 2 * a < (2 ^ (p + 2) - 1) * (d * 2 ^ top) := by
  rcases Nat.lt_or_ge (a / d) (2 ^ (p + top)) with hbelow | hlow
  · obtain ⟨hleft, hright⟩ := nearest_lt_of_div_lt hd hbelow
    exact iff_of_true hleft hright
  · rcases Nat.lt_or_ge (a / d) (2 ^ (p + 1 + top)) with hhigh | habove
    · exact nearest_lt_iff_of_log2 hd hlow hhigh
    · obtain ⟨hleft, hright⟩ := le_nearest_of_le_div habove
      exact iff_of_false (Nat.not_lt.mpr hleft) (Nat.not_lt.mpr hright)

-- the largest number is itself below halfway
theorem nearest_fits {a d top : Nat} (h : nearest p a d < 2 ^ (p + 1 + top)) :
    2 * nearest p a d < (2 ^ (p + 2) - 1) * 2 ^ top := by
  have hdouble : 2 ^ (p + 2) * 2 ^ top = 2 * 2 ^ (p + 1 + top) := by ring
  have hpow : 2 ^ (p + 1 + top) = 2 ^ (p + 1) * 2 ^ top := Nat.pow_add 2 (p + 1) top
  have htop : 2 ^ top ≤ 2 ^ (p + top) := Nat.pow_le_pow_right (by decide) (Nat.le_add_left _ _)
  have hhalf : 2 ^ (p + 1 + top) = 2 * 2 ^ (p + top) := by ring
  rw [Nat.sub_mul, Nat.one_mul, hdouble]
  rcases Nat.lt_trichotomy (a / d).log2 (p + top) with hlt | heq | hgt
  · have hle := (nearest_le_two_pow (p := p) a d).trans (Nat.pow_le_pow_right (by decide) hlt)
    have hpos := Nat.two_pow_pos (p + top)
    omega
  · rw [nearest, unit, heq, Nat.add_sub_cancel_left] at h ⊢
    rw [hpow, Nat.mul_lt_mul_right (Nat.two_pow_pos top)] at h
    have hstep := Nat.mul_le_mul_right (2 ^ top) (Nat.succ_le_of_lt h)
    rw [Nat.succ_mul] at hstep
    have hpos := Nat.two_pow_pos top
    omega
  · have hne : a / d ≠ 0 := by
      rintro h0
      rw [h0] at hgt
      exact absurd hgt (Nat.not_lt_zero _)
    have hexp : p + 1 + top ≤ (a / d).log2 := by omega
    have hge : 2 ^ (p + 1 + top) ≤ nearest p a d :=
      (Nat.pow_le_pow_right (by decide) hexp).trans (two_pow_le_nearest hne)
    exact absurd h (Nat.not_lt.mpr hge)

end Nearest

-- the unit of the doubles is 2 ^ -scale, and their largest last place is 2 ^ top units
@[irreducible] def scale : Nat := 1074

@[irreducible] def top : Nat := 2045

-- a whole number of units, or an infinity
inductive Double where
  | finite (units : Int)
  | infinity (negative : Bool)
deriving DecidableEq

inductive ArithmeticError where
  | overflow
  | zeroDivision
deriving DecidableEq

def one : Nat := 2 ^ scale

theorem one_pos : 0 < one := Nat.two_pow_pos scale

-- a / d units stay below the point from which they round to an infinity: 2 ^ 1024 - 2 ^ 970
def InRange (a d : Nat) : Prop := 2 * a < (2 ^ (52 + 2) - 1) * (d * 2 ^ top)

theorem inRange_of_le {a d : Nat} (hd : 0 < d) (h : a ≤ d * (2 ^ 64 * one)) : InRange a d := by
  have hexp : 64 + scale + 1 ≤ top := by
    rw [scale, top]
    decide
  have htop : 2 * (2 ^ 64 * one) ≤ 2 ^ top := by
    calc 2 * (2 ^ 64 * one) = 2 ^ (64 + scale + 1) := by rw [one]; ring
      _ ≤ 2 ^ top := Nat.pow_le_pow_right (by decide) hexp
  have hpos : 0 < d * 2 ^ top := Nat.mul_pos hd (Nat.two_pow_pos _)
  calc 2 * a ≤ 2 * (d * (2 ^ 64 * one)) := Nat.mul_le_mul_left 2 h
    _ = d * (2 * (2 ^ 64 * one)) := Nat.mul_left_comm _ _ _
    _ ≤ d * 2 ^ top := Nat.mul_le_mul_left d htop
    _ < (2 ^ (52 + 2) - 1) * (d * 2 ^ top) := by omega

def signed (negative : Bool) (m : Nat) : Int := if negative then -m else m

-- num / den units as they round where that gives no infinity
def rounded (num : Int) (den : Nat) : Int := signed (num < 0) (nearest 52 num.natAbs den)

def Double.ofUnits (num : Int) (den : Nat) : Double :=
  if nearest 52 num.natAbs den < 2 ^ (52 + 1 + top) then .finite (rounded num den)
  else .infinity (num < 0)

-- the root of a double: between two halves of a unit it rounds as the middle of the two
def Double.sqrt (units : Nat) : Double :=
  let root := Nat.sqrt (4 * units * one)
  let quarters := if root ^ 2 = 4 * units * one then 2 * root else 2 * root + 1
  .ofUnits quarters 4

def Double.toFinite : Double → Except ArithmeticError Int
  | .finite units => .ok units
  | .infinity _ => .error .overflow

-- the conversion of an integer
def ofNat (n : Nat) : Except ArithmeticError Int := (Double.ofUnits (n * one) 1).toFinite

def Double.quotient : Double → Int → Double
  | .finite units, y => .ofUnits (units * one * y.sign) y.natAbs
  | .infinity negative, y => .infinity (negative ≠ (y < 0))

-- division by a finite double
def Double.div (x : Double) (y : Int) : Except ArithmeticError Double :=
  if y = 0 then .error .zeroDivision else .ok (x.quotient y)

-- `round(x)`
def Double.round : Double → Except ArithmeticError Int
  | .finite units => .ok (signed (units < 0) (halfEven units.natAbs one))
  | .infinity _ => .error .overflow

theorem natAbs_signed (negative : Bool) (m : Nat) : (signed negative m).natAbs = m := by
  cases negative
  · rfl
  · exact Int.natAbs_neg m

@[simp] theorem natAbs_rounded (num : Int) (den : Nat) :
    (rounded num den).natAbs = nearest 52 num.natAbs den := natAbs_signed _ _

theorem rounded_eq_zero_iff (num : Int) : rounded num 1 = 0 ↔ num = 0 := by
  rw [← Int.natAbs_eq_zero, natAbs_rounded, nearest_eq_zero_iff Nat.one_pos (Nat.one_dvd _),
    Int.natAbs_eq_zero]

theorem natAbs_rounded_le (num : Int) (den : Nat) :
    (rounded num den).natAbs ≤ 2 * (num.natAbs / den) + 1 := by
  rw [natAbs_rounded]
  exact nearest_le _ _

theorem Double.ofUnits_of_inRange {num : Int} {den : Nat} (hden : 0 < den)
    (h : InRange num.natAbs den) : Double.ofUnits num den = .finite (rounded num den) :=
  if_pos ((nearest_lt_iff hden top).mpr h)

theorem one_le_rounded {n : Nat} (hn : n ≠ 0) : one ≤ (rounded (n * one) 1).natAbs := by
  have hunits : ((n : Int) * (one : Int)).natAbs = n * one := by
    rw [Int.natAbs_mul, Int.natAbs_natCast, Int.natAbs_natCast]
  have hone : one ≤ n * one / 1 := by
    rw [Nat.div_one]
    exact Nat.le_mul_of_pos_left one (Nat.pos_of_ne_zero hn)
  have hquot : n * one / 1 ≠ 0 := Nat.ne_of_gt (one_pos.trans_le hone)
  have hlog : scale ≤ (n * one / 1).log2 := (Nat.le_log2 hquot).mpr hone
  rw [natAbs_rounded, hunits]
  calc one ≤ 2 ^ (n * one / 1).log2 := Nat.pow_le_pow_right (by decide) hlog
    _ ≤ nearest 52 (n * one) 1 := two_pow_le_nearest hquot

namespace Double

def IsFinite (x : Double) : Prop := ∃ units, x = .finite units

def get : (x : Double) → x.IsFinite → Int
  | .finite units, _ => units
  | .infinity _, h => absurd h (by rintro ⟨units, ⟨⟩⟩)

theorem round_ok_iff (x : Double) : (∃ n, x.round = .ok n) ↔ x.IsFinite := by
  cases x with
  | finite units => exact iff_of_true ⟨_, rfl⟩ ⟨units, rfl⟩
  | infinity negative =>
    refine iff_of_false ?_ ?_
    · rintro ⟨n, ⟨⟩⟩
    · rintro ⟨units, ⟨⟩⟩

theorem ofUnits_finite_iff {num : Int} {den : Nat} (hden : 0 < den) :
    (ofUnits num den).IsFinite ↔ InRange num.natAbs den := by
  rw [InRange, ← nearest_lt_iff hden top, ofUnits]
  split
  · rename_i h
    exact iff_of_true ⟨_, rfl⟩ h
  · rename_i h
    refine iff_of_false ?_ h
    rintro ⟨units, ⟨⟩⟩

theorem eq_of_ofUnits {num units : Int} {den : Nat} (h : ofUnits num den = .finite units) :
    units = rounded num den ∧ nearest 52 num.natAbs den < 2 ^ (52 + 1 + top) := by
  rw [ofUnits] at h
  split at h
  · rename_i hlt
    cases h
    exact ⟨rfl, hlt⟩
  · cases h

theorem round_ofUnits_nonneg {num n : Int} {den : Nat} (h : 0 ≤ num)
    (hround : (ofUnits num den).round = .ok n) : 0 ≤ n := by
  have hsign : decide (num < 0) = false := decide_eq_false (Int.not_lt.mpr h)
  rw [ofUnits, rounded, hsign] at hround
  split at hround
  · cases hround
    exact Int.natCast_nonneg _
  · cases hround

theorem round_sqrt_nonneg {n : Int} {units : Nat} (hround : (sqrt units).round = .ok n) : 0 ≤ n :=
  round_ofUnits_nonneg (Int.natCast_nonneg _) hround

theorem get_ofUnits {num : Int} {den : Nat} (h : (ofUnits num den).IsFinite) :
    (ofUnits num den).get h = rounded num den := by
  have hget (x : Double) (hx : x.IsFinite) {units : Int} (hu : x = .finite units) :
      x.get hx = units := by
    subst hu
    rfl
  have ⟨units, hu⟩ := h
  exact (hget _ h hu).trans (eq_of_ofUnits hu).1

theorem natAbs_quotient (units y : Int) (hy : y ≠ 0) :
    (units * one * y.sign).natAbs = units.natAbs * one := by
  rw [Int.natAbs_mul, Int.natAbs_mul, Int.natAbs_natCast, Int.natAbs_sign_of_ne_zero hy, mul_one]

theorem quotient_finite_iff (units : Int) {y : Int} (hy : y ≠ 0) :
    ((finite units).quotient y).IsFinite ↔ InRange (units.natAbs * one) y.natAbs := by
  rw [quotient, ofUnits_finite_iff (Int.natAbs_pos.mpr hy), natAbs_quotient units y hy]

-- a quotient that is in range stays so when it is divided by one or more
theorem quotient_quotient_finite_iff (units : Int) {y z : Int}
    (hz : one ≤ z.natAbs) : (((finite units).quotient y).quotient z).IsFinite ↔
      ((finite units).quotient y).IsFinite := by
  have hz0 : z ≠ 0 := by
    rintro rfl
    exact absurd hz (Nat.not_le.mpr one_pos)
  cases hx : (finite units).quotient y with
  | infinity negative =>
    refine iff_of_false ?_ ?_
    · rintro ⟨u, ⟨⟩⟩
    · rintro ⟨u, ⟨⟩⟩
  | finite u =>
    refine iff_of_true ?_ ⟨u, rfl⟩
    rw [quotient_finite_iff u hz0]
    obtain ⟨rfl, hlt⟩ := eq_of_ofUnits hx
    have hfits := nearest_fits hlt
    rw [← natAbs_rounded] at hfits
    rw [InRange, ← Nat.mul_assoc]
    calc 2 * (rounded (units * one * y.sign) y.natAbs).natAbs * one
        < (2 ^ (52 + 2) - 1) * 2 ^ top * one :=
          Nat.mul_lt_mul_of_pos_right hfits one_pos
      _ ≤ (2 ^ (52 + 2) - 1) * 2 ^ top * z.natAbs := Nat.mul_le_mul_left _ hz
      _ = (2 ^ (52 + 2) - 1) * (z.natAbs * 2 ^ top) := by rw [Nat.mul_assoc, mul_comm z.natAbs]

theorem div_ok_iff {x z : Double} {y : Int} : x.div y = .ok z ↔ y ≠ 0 ∧ x.quotient y = z := by
  rw [div]
  split
  · rename_i h
    simp [h]
  · rename_i h
    simp [h]

end Double

theorem ofNat_ok_iff {n : Nat} {units : Int} :
    ofNat n = .ok units ↔ InRange (n * one) 1 ∧ rounded (n * one) 1 = units := by
  have hunits : ((n : Int) * (one : Int)).natAbs = n * one := by
    rw [Int.natAbs_mul, Int.natAbs_natCast, Int.natAbs_natCast]
  have hfinite := @Double.ofUnits_finite_iff (n * one) 1 Nat.one_pos
  rw [hunits] at hfinite
  rw [ofNat, ← hfinite]
  cases hx : Double.ofUnits (n * one) 1 with
  | finite u =>
    obtain ⟨rfl, -⟩ := Double.eq_of_ofUnits hx
    have hfin : (Double.finite (rounded (n * one) 1)).IsFinite := ⟨_, rfl⟩
    simp [Double.toFinite, hfin]
  | infinity negative =>
    have hinf : ¬ (Double.infinity negative).IsFinite := by
      rintro ⟨u, ⟨⟩⟩
    simp [Double.toFinite, hinf]

end Binary64
