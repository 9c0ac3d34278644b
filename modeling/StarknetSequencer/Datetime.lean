import Mathlib.Algebra.Order.BigOperators.Group.List
import StarknetSequencer.Binary64
import StarknetSequencer.Wire.Digits

namespace Datetime

open Wire

def isLeap (year : Nat) : Bool := year % 4 = 0 && (year % 100 ≠ 0 || year % 400 = 0)

def daysInMonth (year month : Nat) : Nat :=
  if month = 2 then if isLeap year then 29 else 28
  else if month ∈ [4, 6, 9, 11] then 30 else 31

def daysBeforeYear (year : Nat) : Nat :=
  (year - 1) * 365 + (year - 1) / 4 - (year - 1) / 100 + (year - 1) / 400

def daysBeforeMonth (year month : Nat) : Nat :=
  ((List.range' 1 (month - 1)).map (daysInMonth year)).sum

structure Civil where
  year : Nat
  month : Nat
  day : Nat
  hour : Nat
  minute : Nat
  second : Nat
  micros : Nat
  year_range : 1 ≤ year ∧ year ≤ 9999
  month_range : 1 ≤ month ∧ month ≤ 12
  day_range : 1 ≤ day ∧ day ≤ daysInMonth year month
  time_range : hour < 24 ∧ minute < 60 ∧ second < 60 ∧ micros < 1000000

namespace Civil

def ordinal (c : Civil) : Nat := daysBeforeYear c.year + daysBeforeMonth c.year c.month + c.day

-- the day of the epoch has the ordinal 719163
def seconds (c : Civil) : Int :=
  ((c.ordinal : Int) - 719163) * 86400 + c.hour * 3600 + c.minute * 60 + c.second

def sinceEpoch (c : Civil) : Int := c.seconds * 1000000 + c.micros

def ofFields (year month day hour minute second micros : Nat) : Option Civil :=
  if h : (1 ≤ year ∧ year ≤ 9999) ∧ (1 ≤ month ∧ month ≤ 12) ∧
      (1 ≤ day ∧ day ≤ daysInMonth year month) ∧
      hour < 24 ∧ minute < 60 ∧ second < 60 ∧ micros < 1000000 then
    some ⟨year, month, day, hour, minute, second, micros, h.1, h.2.1, h.2.2.1, h.2.2.2⟩
  else none

end Civil

theorem daysInMonth_le (year month : Nat) : daysInMonth year month ≤ 31 := by
  rw [daysInMonth]
  split
  · split <;> decide
  · split <;> decide

theorem daysBeforeMonth_le (year month : Nat) : daysBeforeMonth year month ≤ (month - 1) * 31 := by
  have hsum := List.sum_le_card_nsmul ((List.range' 1 (month - 1)).map (daysInMonth year)) 31 (by
    intro days hdays
    obtain ⟨m, -, rfl⟩ := List.mem_map.mp hdays
    exact daysInMonth_le year m)
  rw [List.length_map, List.length_range'] at hsum
  exact hsum

theorem daysBeforeYear_le (year : Nat) : daysBeforeYear year ≤ (year - 1) * 366 := by
  rw [daysBeforeYear]
  omega

theorem Civil.natAbs_sinceEpoch_le (c : Civil) : c.sinceEpoch.natAbs ≤ 2 ^ 38 * 1000000 := by
  have hyear := daysBeforeYear_le c.year
  have hmonth := daysBeforeMonth_le c.year c.month
  have hday := daysInMonth_le c.year c.month
  obtain ⟨-, hyear'⟩ := c.year_range
  obtain ⟨-, hmonth'⟩ := c.month_range
  obtain ⟨-, hday'⟩ := c.day_range
  obtain ⟨hhour, hminute, hsecond, hmicros⟩ := c.time_range
  have hordinal : c.ordinal ≤ 3660000 := by
    rw [Civil.ordinal]
    omega
  rw [Civil.sinceEpoch, Civil.seconds]
  omega

section Parse

def readDigits (n : Nat) (cs : List Char) : Option (Nat × List Char) :=
  if (cs.take n).length = n ∧ (cs.take n).all Char.isDigit then
    some (readInt (cs.take n), cs.drop n)
  else none

def readChar (c : Char) : List Char → Option (List Char)
  | [] => none
  | d :: cs => if d = c then some cs else none

-- `.fff[fff]`, in microseconds
def readFraction (cs : List Char) : Option (Nat × List Char) :=
  match readDigits 6 cs with
  | some part => some part
  | none => (readDigits 3 cs).map fun part => (part.1 * 1000, part.2)

-- `HH[:MM[:SS[.fff[fff]]]]`
def readTime (cs : List Char) : Option ((Nat × Nat × Nat × Nat) × List Char) := do
  let (hour, cs) ← readDigits 2 cs
  match readChar ':' cs with
  | none => some ((hour, 0, 0, 0), cs)
  | some cs =>
    let (minute, cs) ← readDigits 2 cs
    match readChar ':' cs with
    | none => some ((hour, minute, 0, 0), cs)
    | some cs =>
      let (second, cs) ← readDigits 2 cs
      match readChar '.' cs with
      | none => some ((hour, minute, second, 0), cs)
      | some cs =>
        let (micros, cs) ← readFraction cs
        some ((hour, minute, second, micros), cs)

-- in microseconds, less than a day
abbrev Offset := {micros : Int // micros.natAbs < 86400000000}

def Offset.ofMicros (micros : Int) : Option Offset :=
  if h : micros.natAbs < 86400000000 then some ⟨micros, h⟩ else none

-- `+HH:MM[:SS[.ffffff]]`
def readOffset : List Char → Option Offset
  | [] => none
  | sign :: cs =>
    if (sign = '+' ∨ sign = '-') ∧ cs.length ∈ [5, 8, 15] then
      match readTime cs with
      | some ((hour, minute, second, micros), []) =>
        let offset : Int := ((hour * 3600 + minute * 60 + second) * 1000000 + micros : Nat)
        Offset.ofMicros (if sign = '-' then -offset else offset)
      | _ => none
    else none

-- `YYYY-MM-DD[*HH[:MM[:SS[.fff[fff]]]][+HH:MM[:SS[.ffffff]]]]`
def fromisoformat (cs : List Char) : Option (Civil × Option Offset) := do
  let (year, cs) ← readDigits 4 cs
  let cs ← readChar '-' cs
  let (month, cs) ← readDigits 2 cs
  let cs ← readChar '-' cs
  let (day, cs) ← readDigits 2 cs
  match cs with
  | [] => (Civil.ofFields year month day 0 0 0 0).map fun c => (c, none)
  | _ :: cs =>
    let ((hour, minute, second, micros), cs) ← readTime cs
    let civil ← Civil.ofFields year month day hour minute second micros
    match cs with
    | [] => some (civil, none)
    | _ => (readOffset cs).map fun offset => (civil, some offset)

end Parse

end Datetime
