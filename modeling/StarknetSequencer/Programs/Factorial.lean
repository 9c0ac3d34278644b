import Mathlib.Data.Nat.Factorial.Basic
import StarknetSequencer.Cairo.Contract

namespace Programs

open Cairo Machine

def factorial (n : Felt) : Felt := if n = 1 then n else n * factorial (n - 1)
termination_by (n - 1).val
decreasing_by exact Nat.lt_of_succ_le (Felt.val_sub_one (sub_ne_zero.mpr ‹_›)).le

def factorialProgram : Program where
  data := [0x482680017ffd8000, 0x800000000000011000000000000000000000000000000000000000000000000,
    0x20680017fff7fff, 0x4, 0x480a7ffd7fff8000, 0x208b7fff7fff7ffe, 0x482680017ffd8000,
    0x800000000000011000000000000000000000000000000000000000000000000, 0x1104800180018000,
    0x800000000000010fffffffffffffffffffffffffffffffffffffffffffffff9, 0x48527fff7ffd8000,
    0x208b7fff7fff7ffe, 0x480680017fff8000, 0xa, 0x1104800180018000,
    0x800000000000010fffffffffffffffffffffffffffffffffffffffffffffff3, 0x400680017fff7fff,
    0x375f00, 0x208b7fff7fff7ffe]
  hints := []

theorem factorial_eq {n : Felt} (hn : n ≠ 0) : factorial n = n.val.factorial := by
  induction hk : (n - 1).val generalizing n with
  | zero =>
    have hone : n = 1 := sub_eq_zero.mp ((ZMod.val_eq_zero _).mp hk)
    rw [factorial, if_pos hone, hone]
    decide
  | succ k ih =>
    have hval := Felt.val_sub_one hn
    have hne : n ≠ 1 := by
      rintro rfl
      rw [sub_self, ZMod.val_zero] at hk
      omega
    have hpred := Felt.val_sub_one (sub_ne_zero.mpr hne)
    rw [factorial, if_neg hne, ih (sub_ne_zero.mpr hne) (by omega), ← hval, Nat.factorial_succ,
      hval, Nat.cast_mul, ZMod.natCast_zmod_val]

namespace Factorial

theorem targets_else : Targets factorialProgram 2 6 := ⟨4, rfl, by decide, by decide⟩

theorem targets_again : Targets factorialProgram 8 0 := ⟨_, rfl, by decide, by decide⟩

theorem targets_main : Targets factorialProgram 14 0 := ⟨_, rfl, by decide, by decide⟩

section

variable {m : Machine} {base : Nat} {fp pc : Address} {n : Felt}

theorem factorial_finishes_base (hroom : m.ap + 2 < maxOffset)
    (h : Reaches factorialProgram m ⟨base, [.felt 1], fp, pc⟩ 0 0 0 []) :
    m.Finishes factorialProgram ⟨base, [.felt 1], fp, pc⟩ 4 2 [.felt 1] := by
  have h2 : Reaches factorialProgram m _ 1 1 2 [.felt 0] := h.push rfl rfl rfl (by omega)
  have h4 := h2.jnz rfl rfl targets_else rfl
  have h5 : Reaches factorialProgram m _ 3 2 5 [.felt 0, .felt 1] :=
    h4.push rfl rfl rfl (by omega)
  exact h5.ret [.felt 0] rfl rfl

theorem factorial_finishes_step {steps cells : Nat} {a : Felt} (hn : n ≠ 1)
    (hreturns : Returns factorialProgram 0 [.felt (n - 1)] [.felt a] steps cells)
    (hroom : m.ap + (cells + 5) < maxOffset)
    (h : Reaches factorialProgram m ⟨base, [.felt n], fp, pc⟩ 0 0 0 []) :
    m.Finishes factorialProgram ⟨base, [.felt n], fp, pc⟩ (steps + 6) (cells + 5)
      [.felt (n * a)] := by
  have h2 : Reaches factorialProgram m _ 1 1 2 [.felt (n + (prime - 1 : Nat))] :=
    h.push rfl rfl rfl (by omega)
  rw [Felt.natCast_prime_sub_one, ← sub_eq_add_neg] at h2
  have hzero : (Value.felt (n - 1)).isZero = false := decide_eq_false (sub_ne_zero.mpr hn)
  have h6 := h2.jnz rfl rfl targets_else rfl
  rw [hzero] at h6
  have h8 : Reaches factorialProgram m _ 3 2 8 [.felt (n - 1), .felt (n + (prime - 1 : Nat))] :=
    h6.push rfl rfl rfl (by omega)
  rw [Felt.natCast_prime_sub_one, ← sub_eq_add_neg] at h8
  have h10 : Reaches factorialProgram m _ (4 + steps) (4 + cells) 10 [.felt a] :=
    h8.call [_] rfl rfl targets_again hreturns (by omega)
  have h11 : Reaches factorialProgram m _ (4 + steps + 1) (4 + cells + 1) 11
      [.felt a, .felt (n * a)] := h10.push rfl rfl rfl (by omega)
  have hsteps : steps + 6 = 4 + steps + 1 + 1 := by omega
  have hcells : cells + 5 = 4 + cells + 1 := by omega
  rw [hsteps, hcells]
  exact h11.ret [.felt a] rfl rfl

end

theorem factorial_returns (n : Felt) : Returns factorialProgram 0 [.felt n] [.felt (factorial n)]
    (6 * (n - 1).val + 4) (5 * (n - 1).val + 2) := by
  induction hk : (n - 1).val generalizing n with
  | zero =>
    have hone : n = 1 := sub_eq_zero.mp ((ZMod.val_eq_zero _).mp hk)
    rw [hone, factorial, if_pos rfl]
    exact .intro fun m base fp pc hroom h => factorial_finishes_base hroom h
  | succ k ih =>
    have hne : n ≠ 1 := by
      rintro rfl
      rw [sub_self, ZMod.val_zero] at hk
      omega
    have hpred : (n - 1 - 1).val = k := by
      have hval := Felt.val_sub_one (sub_ne_zero.mpr hne)
      omega
    rw [factorial, if_neg hne]
    exact .intro fun m base fp pc hroom h =>
      factorial_finishes_step hne (ih (n - 1) hpred) hroom h

-- `main` asserts that the factorial of 10 is 3628800
theorem main_returns : Returns factorialProgram 12 [] [] 62 50 := by
  refine .intro fun m base fp pc hroom h => ?_
  have h14 : Reaches factorialProgram m _ 1 1 14 [.felt (10 : Nat)] :=
    h.push rfl rfl rfl (by omega)
  have h16 : Reaches factorialProgram m _ 60 50 16 [.felt (factorial 10)] :=
    h14.call [] rfl rfl targets_main (factorial_returns 10) hroom
  have hten : factorial 10 = (0x375f00 : Nat) := by
    rw [factorial_eq (by decide)]
    decide
  rw [hten] at h16
  have h18 : Reaches factorialProgram m _ 61 50 18 [.felt (0x375f00 : Nat)] :=
    h16.assertEq rfl rfl rfl rfl rfl rfl rfl
  exact h18.ret [_] rfl rfl

-- at 0 the source recurses through the whole field, for which no memory has room
theorem factorial_compiled {n : Felt} (hn : n ≠ 0) :
    Returns factorialProgram 0 [.felt n] [.felt (factorial n)] (6 * (n.val - 1) + 4)
        (5 * (n.val - 1) + 2) ∧
      factorial n = n.val.factorial ∧ Returns factorialProgram 12 [] [] 62 50 := by
  have hval : (n - 1).val = n.val - 1 := by
    have hsucc := Felt.val_sub_one hn
    omega
  have hreturns := factorial_returns n
  rw [hval] at hreturns
  exact ⟨hreturns, factorial_eq hn, main_returns⟩

theorem factorial_compiled_thirty :
    Returns factorialProgram 0 [.felt 30] [.felt (factorial 30)] 178 147 ∧
      factorial 30 = Nat.factorial 30 ∧ Returns factorialProgram 12 [] [] 62 50 :=
  factorial_compiled (n := 30) (by decide)

end Factorial

end Programs
