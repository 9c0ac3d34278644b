import Mathlib.Data.Nat.Fib.Basic
import StarknetSequencer.Cairo.EntryPoint

namespace Programs

open Cairo Machine

def fib (firstElement secondElement n : Felt) : Felt :=
  if n ≠ 0 then
    let y := firstElement + secondElement
    fib secondElement y (n - 1)
  else secondElement
termination_by n.val
decreasing_by exact Nat.lt_of_succ_le (Felt.val_sub_one ‹_›).le

def fibonacci : Program where
  data := [0x480680017fff8000, 0x1, 0x480680017fff8000, 0x1, 0x480680017fff8000, 0x1f4,
    0x1104800180018000, 0xe, 0x208b7fff7fff7ffe, 0x402b7ffd7ffc7ffd, 0x1104800180018000,
    0x800000000000010fffffffffffffffffffffffffffffffffffffffffffffff7, 0x40780017fff7fff, 0x1,
    0x480280007ffb8000, 0x480280017ffb8000, 0x480680017fff8000, 0x0, 0x48127ffc7fff8000,
    0x208b7fff7fff7ffe, 0x20780017fff7ffd, 0x5, 0x480a7ffc7fff8000, 0x480a7ffc7fff8000,
    0x208b7fff7fff7ffe, 0x482a7ffc7ffb8000, 0x480a7ffc7fff8000, 0x48127ffe7fff8000,
    0x482680017ffd8000, 0x800000000000011000000000000000000000000000000000000000000000000,
    0x1104800180018000, 0x800000000000010fffffffffffffffffffffffffffffffffffffffffffffff7,
    0x208b7fff7fff7ffe]
  hints := [(12, .addSegmentAtAp)]

theorem fib_eq (firstElement secondElement n : Felt) : fib firstElement secondElement n =
    Nat.fib n.val * firstElement + Nat.fib (n.val + 1) * secondElement := by
  induction hn : n.val generalizing firstElement secondElement n with
  | zero =>
    have hzero : n = 0 := (ZMod.val_eq_zero n).mp hn
    rw [fib, if_neg (not_not_intro hzero)]
    simp
  | succ k ih =>
    have hne : n ≠ 0 := by
      rintro rfl
      rw [ZMod.val_zero] at hn
      omega
    have hpred : (n - 1).val = k := by
      have hval := Felt.val_sub_one hne
      omega
    rw [fib, if_pos hne, ih _ _ _ hpred, Nat.fib_add_two]
    push_cast
    ring

namespace Fibonacci

theorem targets_fib_body : Targets fibonacci 20 25 := ⟨5, rfl, by decide, by decide⟩

theorem targets_fib_again : Targets fibonacci 30 20 := ⟨_, rfl, by decide, by decide⟩

section

variable {m : Machine} {base : Nat} {fp pc : Address} {x y n : Felt}

theorem fib_finishes_base (hroom : m.ap + 2 < maxOffset)
    (h : Reaches fibonacci m ⟨base, [.felt x, .felt y, .felt 0], fp, pc⟩ 0 0 20 []) :
    m.Finishes fibonacci ⟨base, [.felt x, .felt y, .felt 0], fp, pc⟩ 4 2 [.felt y] := by
  have h22 := h.jnz rfl rfl targets_fib_body rfl
  have h23 : Reaches fibonacci m _ 2 1 23 [.felt y] := h22.push rfl rfl rfl (by omega)
  have h24 : Reaches fibonacci m _ 3 2 24 [.felt y, .felt y] := h23.push rfl rfl rfl (by omega)
  exact h24.ret [.felt y] rfl rfl

theorem fib_finishes_step {steps cells : Nat} {result : Value} (hn : n ≠ 0)
    (hreturns : Returns fibonacci 20 [.felt y, .felt (x + y), .felt (n - 1)] [result] steps cells)
    (hroom : m.ap + (cells + 6) < maxOffset)
    (h : Reaches fibonacci m ⟨base, [.felt x, .felt y, .felt n], fp, pc⟩ 0 0 20 []) :
    m.Finishes fibonacci ⟨base, [.felt x, .felt y, .felt n], fp, pc⟩ (steps + 7) (cells + 6)
      [result] := by
  have hzero : (Value.felt n).isZero = false := decide_eq_false hn
  have h25 := h.jnz rfl rfl targets_fib_body rfl
  rw [hzero] at h25
  have h26 : Reaches fibonacci m _ 2 1 26 [.felt (x + y)] := h25.push rfl rfl rfl (by omega)
  have h27 : Reaches fibonacci m _ 3 2 27 [.felt (x + y), .felt y] :=
    h26.push rfl rfl rfl (by omega)
  have h28 : Reaches fibonacci m _ 4 3 28 [.felt (x + y), .felt y, .felt (x + y)] :=
    h27.push rfl rfl rfl (by omega)
  have h30 : Reaches fibonacci m _ 5 4 30
      [.felt (x + y), .felt y, .felt (x + y), .felt (n + (prime - 1 : Nat))] :=
    h28.push rfl rfl rfl (by omega)
  rw [Felt.natCast_prime_sub_one, ← sub_eq_add_neg] at h30
  have h32 : Reaches fibonacci m _ (6 + steps) (6 + cells) 32 [result] :=
    h30.call [.felt (x + y)] rfl rfl targets_fib_again hreturns (by omega)
  have hsteps : steps + 7 = 6 + steps + 1 := by omega
  rw [hsteps, Nat.add_comm cells 6]
  exact h32.ret [] rfl rfl

end

theorem fib_returns (x y n : Felt) :
    Returns fibonacci 20 [.felt x, .felt y, .felt n] [.felt (fib x y n)] (7 * n.val + 4)
      (6 * n.val + 2) := by
  induction hn : n.val generalizing x y n with
  | zero =>
    have hzero : n = 0 := (ZMod.val_eq_zero n).mp hn
    rw [hzero, fib, if_neg (not_not_intro rfl)]
    exact .intro fun m base fp pc hroom h => fib_finishes_base hroom h
  | succ k ih =>
    have hne : n ≠ 0 := by
      rintro rfl
      rw [ZMod.val_zero] at hn
      omega
    have hpred : (n - 1).val = k := by
      have hval := Felt.val_sub_one hne
      omega
    rw [fib, if_pos hne]
    exact .intro fun m base fp pc hroom h =>
      fib_finishes_step hne (ih y (x + y) (n - 1) hpred) hroom h

-- the compiled function is the source one, which is a Fibonacci sequence started at `x` and `y`;
-- a level takes four pushed values and the two cells of a call, and the last one two values
theorem fib_compiled (x y n : Felt) :
    Returns fibonacci 20 [.felt x, .felt y, .felt n] [.felt (fib x y n)] (7 * n.val + 4)
        (6 * n.val + 2) ∧
      fib x y n = Nat.fib n.val * x + Nat.fib (n.val + 1) * y :=
  ⟨fib_returns x y n, fib_eq x y n⟩

theorem targets_main : Targets fibonacci 10 0 := ⟨_, rfl, by decide, by decide⟩

theorem targets_fib : Targets fibonacci 6 20 := ⟨_, rfl, by decide, by decide⟩

theorem main_returns : Returns fibonacci 0 [] [] 3509 3007 := by
  refine .intro fun m base fp pc hroom h => ?_
  have h2 : Reaches fibonacci m _ 1 1 2 [.felt (1 : Nat)] := h.push rfl rfl rfl (by omega)
  have h4 : Reaches fibonacci m _ 2 2 4 [.felt (1 : Nat), .felt (1 : Nat)] :=
    h2.push rfl rfl rfl (by omega)
  have h6 : Reaches fibonacci m _ 3 3 6 [.felt (1 : Nat), .felt (1 : Nat), .felt (500 : Nat)] :=
    h4.push rfl rfl rfl (by omega)
  have h8 : Reaches fibonacci m _ 3508 3007 8 [.felt (fib 1 1 500)] :=
    h6.call [] rfl rfl targets_fib (fib_returns 1 1 500) hroom
  exact h8.ret [_] rfl rfl

def mainSelector : Felt := 0xe2054f8a912367e38a22ce773328ff8aabf8082c4120bad9ef085e1dbf29a7

def contractClass : ContractClass where
  program := fibonacci
  external := [⟨mainSelector, 9⟩]

def startOfMain (calldata : List Felt) : Machine := contractClass.start 9 mainSelector calldata

def assertNoCalldata : Instruction where
  offDst := -3
  offOp0 := -4
  offOp1 := -3
  dstRegister := .fp
  op0Register := .fp
  op1Source := .fp
  res := .add
  pcUpdate := .regular
  apUpdate := .regular
  opcode := .assertEq

theorem main_reaches (calldata : List Felt) : Reaches fibonacci (startOfMain calldata)
    (ContractClass.frame mainSelector calldata) 0 0 9 [] :=
  contractClass.start_reaches 9 mainSelector calldata

theorem main_finishes : ∃ s, (startOfMain []).Finishes fibonacci
    (ContractClass.frame mainSelector []) 3517 3014
    [.address ContractClass.syscallPtr, .address ContractClass.rangeCheckPtr, .felt 0,
      .address ⟨s, 0⟩] := by
  have h10 : Reaches fibonacci (startOfMain []) _ 1 0 10 [] :=
    (main_reaches []).assertEq rfl rfl rfl rfl rfl rfl rfl
  have h12 : Reaches fibonacci (startOfMain []) _ 3511 3009 12 [] :=
    h10.call [] rfl rfl targets_main main_returns (by decide)
  obtain ⟨s, -, h14⟩ := h12.alloc rfl rfl rfl (by decide)
  have h15 : Reaches fibonacci (startOfMain []) _ 3513 3011 15 _ :=
    h14.push rfl rfl rfl (by decide)
  have h16 : Reaches fibonacci (startOfMain []) _ 3514 3012 16 _ :=
    h15.push rfl rfl rfl (by decide)
  have h18 : Reaches fibonacci (startOfMain []) _ 3515 3013 18 _ :=
    h16.push rfl rfl rfl (by decide)
  have h19 : Reaches fibonacci (startOfMain []) _ 3516 3014 19 _ :=
    h18.push rfl rfl rfl (by decide)
  exact ⟨s, h19.ret [_] rfl rfl⟩

-- the wrapper asserts that the end of the call data is its start
theorem main_fails {calldata : List Felt} (hne : calldata ≠ []) (hlt : calldata.length < maxOffset) :
    (startOfMain calldata).Fails fibonacci 0 .diffAssertValues := by
  have hmove : ContractClass.calldataPtr.move calldata.length =
      .ok ⟨ContractClass.calldataPtr.segment, calldata.length⟩ :=
    Address.move_eq (by rw [Nat.cast_zero, zero_add]) hlt
  have hres : computed fibonacci (startOfMain calldata)
      (ContractClass.frame mainSelector calldata) [] 9 assertNoCalldata =
        some (.address ⟨ContractClass.calldataPtr.segment, calldata.length⟩) := by
    change (some <$> Value.address <$> ContractClass.calldataPtr.move calldata.length).toOption.bind
      id = _
    rw [hmove]
    rfl
  refine (main_reaches calldata).assertEq_fails rfl rfl rfl rfl hres ?_
  intro heq
  injection heq with heq
  injection heq with _ heq
  exact hne (List.length_eq_zero_iff.mp heq)

theorem execute_unknown {selector : Felt} (hne : selector ≠ mainSelector) (calldata : List Felt)
    (steps : Nat) : contractClass.execute selector calldata steps = .error .entryPointNotFound := by
  have hfind : (contractClass.external.find? fun entry => entry.selector = selector) = none :=
    List.find?_eq_none.mpr (by simp [contractClass, Ne.symm hne])
  rw [ContractClass.execute, hfind]

theorem find_main : (contractClass.external.find? fun entry => entry.selector = mainSelector) =
    some ⟨mainSelector, 9⟩ := by
  simp [contractClass]

theorem execute_main (steps : Nat) : contractClass.execute mainSelector [] steps =
    if 3517 ≤ steps then .ok [] else .error .outOfSteps := by
  obtain ⟨s, hfinishes⟩ := main_finishes
  exact ContractClass.execute_finishes find_main hfinishes

theorem entry_point_outcomes (selector : Felt) (calldata : List Felt) (steps : Nat)
    (hlt : calldata.length < maxOffset) : contractClass.execute selector calldata steps =
      if selector ≠ mainSelector then .error .entryPointNotFound
      else if calldata ≠ [] then .error (if 0 < steps then .diffAssertValues else .outOfSteps)
      else if 3517 ≤ steps then .ok [] else .error .outOfSteps := by
  by_cases hselector : selector = mainSelector
  · subst hselector
    rw [if_neg (not_not_intro rfl)]
    by_cases hnil : calldata = []
    · rw [hnil, if_neg (not_not_intro rfl), execute_main]
    · rw [if_pos hnil]
      exact ContractClass.execute_fails find_main (main_fails hnil hlt)
  · rw [if_pos hselector, execute_unknown hselector]

theorem entry_point_outcomes_calldata : contractClass.execute mainSelector [1] 10 =
    .error .diffAssertValues :=
  (entry_point_outcomes mainSelector [1] 10 (by decide)).trans (by simp)

end Fibonacci

end Programs
