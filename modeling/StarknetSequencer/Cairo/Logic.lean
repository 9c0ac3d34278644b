import StarknetSequencer.Cairo.Machine
import StarknetSequencer.Effect.Except

namespace Cairo

theorem Address.shift_eq {a : Address} {k : Int} {n : Nat} (h : a.offset + k = n)
    (hn : n < maxOffset) : a.shift k = .ok ⟨a.segment, n⟩ := by
  have hrange : (0 : Int) ≤ a.offset + k ∧ (a.offset + k).toNat < maxOffset := by omega
  rw [Address.shift, if_pos hrange, h]
  rfl

theorem Address.move_eq {a : Address} {x : Felt} {n : Nat} (h : (a.offset : Felt) + x = n)
    (hn : n < maxOffset) : a.move x = .ok ⟨a.segment, n⟩ := by
  have hval : ((a.offset : Felt) + x).val = n := by
    rw [h]
    exact ZMod.val_natCast_of_lt (hn.trans (by decide))
  rw [Address.move, hval]
  exact if_pos hn

namespace Instruction

def callRel : Instruction where
  offDst := 0
  offOp0 := 1
  offOp1 := 1
  dstRegister := .ap
  op0Register := .ap
  op1Source := .imm
  res := .op1
  pcUpdate := .jumpRel
  apUpdate := .add2
  opcode := .call

def ret : Instruction where
  offDst := -2
  offOp0 := -1
  offOp1 := -1
  dstRegister := .fp
  op0Register := .fp
  op1Source := .fp
  res := .op1
  pcUpdate := .jump
  apUpdate := .regular
  opcode := .ret

def jnz (register : Register) (off : Int) : Instruction where
  offDst := off
  offOp0 := -1
  offOp1 := 1
  dstRegister := register
  op0Register := .fp
  op1Source := .imm
  res := .unconstrained
  pcUpdate := .jnz
  apUpdate := .regular
  opcode := .nop

def addAp : Instruction where
  offDst := -1
  offOp0 := -1
  offOp1 := 1
  dstRegister := .fp
  op0Register := .fp
  op1Source := .imm
  res := .op1
  pcUpdate := .regular
  apUpdate := .add
  opcode := .nop

-- `[ap] = ...; ap++` for the forms of the right-hand side
def push (op0 : Register × Int) (op1Source : Op1Source) (offOp1 : Int) (res : Res) :
    Instruction where
  offDst := 0
  offOp0 := op0.2
  offOp1 := offOp1
  dstRegister := .ap
  op0Register := op0.1
  op1Source := op1Source
  res := res
  pcUpdate := .regular
  apUpdate := .add1
  opcode := .assertEq

end Instruction

def Program.instruction (program : Program) (k : Nat) : Option Instruction :=
  program.data[k]?.bind decode

namespace Machine

variable {program : Program} {m t : Machine} {i : Instruction}

section Range

structure InRange (m : Machine) : Prop where
  ap : m.ap < maxOffset
  fp : m.fp < maxOffset

theorem register_ok {offset n : Nat} (h : register offset = .ok n) :
    n = offset ∧ n < maxOffset := by
  rw [register] at h
  split at h
  · rename_i hlt
    cases h
    exact ⟨rfl, hlt⟩
  · cases h

theorem register_eq {offset : Nat} (h : offset < maxOffset) : register offset = .ok offset :=
  if_pos h

theorem move_lt {a : Address} {x : Felt} {n : Nat}
    (h : (Address.offset <$> a.move x : Except VmError Nat) = .ok n) : n < maxOffset := by
  rw [Address.move] at h
  split at h
  · rename_i hlt
    cases h
    exact hlt
  · cases h

theorem nextFp_lt (hm : m.fp < maxOffset) {dst : Value} {fp : Nat}
    (h : m.nextFp i dst = .ok fp) : fp < maxOffset := by
  unfold nextFp at h
  split at h
  · exact (register_ok h).2
  · split at h
    · exact (register_ok h).2
    · exact move_lt h
  · cases h
    exact hm

theorem nextAp_lt (hm : m.ap < maxOffset) {res : Option Value}
    {ap : Nat} (h : m.nextAp i res = .ok ap) : ap < maxOffset := by
  unfold nextAp at h
  split at h
  · cases h
    exact hm
  · exact (register_ok h).2
  · exact (register_ok h).2
  · split at h
    · exact move_lt h
    · cases h

theorem execute_inRange (hm : m.InRange) {i : Instruction}
    (h : m.execute i = .ok t) : t.InRange := by
  simp only [execute, Effect.bind_ok_iff] at h
  obtain ⟨_, -, _, -, _, -, _, -, _, -, _, -, _, -, _, -, fp, hfp, ap, hap, pc, -, ht⟩ := h
  cases ht
  exact ⟨nextAp_lt hm.ap hap, nextFp_lt hm.fp hfp⟩

theorem insert_registers {a : Address} {v : Value} (h : m.insert a v = .ok t) :
    t.ap = m.ap ∧ t.fp = m.fp := by
  rw [insert] at h
  split at h
  · split at h
    · cases h
      exact ⟨rfl, rfl⟩
    · cases h
  · split at h
    · cases h
      exact ⟨rfl, rfl⟩
    · cases h

theorem runHints_registers (h : m.runHints program = .ok t) : t.ap = m.ap ∧ t.fp = m.fp := by
  rw [runHints] at h
  split at h
  · rename_i hint _
    cases hint
    have hinsert : m.addSegment.1.insert ⟨executionSegment, m.ap⟩ (.address m.addSegment.2) =
        .ok t := h
    have hregisters := insert_registers hinsert
    exact hregisters
  · cases h
    exact ⟨rfl, rfl⟩

theorem step_inRange (hm : m.InRange)
    (h : m.step program = .ok t) : t.InRange := by
  simp only [step, Effect.bind_ok_iff] at h
  obtain ⟨u, hu, i, -, hexec⟩ := h
  obtain ⟨hap, hfp⟩ := runHints_registers hu
  exact execute_inRange ⟨hap ▸ hm.ap, hfp ▸ hm.fp⟩ hexec

end Range

-- `m` with one more cell of the execution segment
def push (m : Machine) (v : Value) : Machine :=
  { m with ap := m.ap + 1, memory := Function.update m.memory ⟨executionSegment, m.ap⟩ (some v) }

def jump (m : Machine) (pc : Address) : Machine := { m with pc }

@[simp] theorem push_ap (v : Value) : (m.push v).ap = m.ap + 1 := rfl

@[simp] theorem jump_pc (pc : Address) : (m.jump pc).pc = pc := rfl

@[simp] theorem jump_ap (pc : Address) : (m.jump pc).ap = m.ap := rfl

theorem push_memory_top (v : Value) {k : Nat} (h : k = m.ap) :
    (m.push v).memory ⟨executionSegment, k⟩ = some v := by
  rw [h]
  exact Function.update_self ..

theorem push_memory_of_ne (v : Value) {a : Address} (h : a ≠ ⟨executionSegment, m.ap⟩) :
    (m.push v).memory a = m.memory a := Function.update_of_ne h ..

-- the cells of the execution segment from `ap` on are empty
structure Fresh (m : Machine) : Prop where
  allocated : executionSegment < m.segments
  empty : ∀ k, m.ap ≤ k → m.memory ⟨executionSegment, k⟩ = none

theorem Fresh.push (h : m.Fresh) (v : Value) : (m.push v).Fresh where
  allocated := h.allocated
  empty k hk := by
    have hne : (⟨executionSegment, k⟩ : Address) ≠ ⟨executionSegment, m.ap⟩ := by
      intro heq
      cases heq
      exact absurd hk (Nat.not_succ_le_self _)
    rw [push_memory_of_ne v hne]
    exact h.empty k (Nat.le_of_succ_le hk)

theorem Fresh.jump (h : m.Fresh) (pc : Address) : (m.jump pc).Fresh where
  allocated := h.allocated
  empty := h.empty

-- all that `t` adds to `m` are segments and cells of the execution segment that were empty in it
structure Extends (m t : Machine) : Prop where
  segments : m.segments ≤ t.segments
  ap : m.ap ≤ t.ap
  memory : ∀ a : Address, a.segment ≠ executionSegment ∨ a.offset < m.ap →
    t.memory a = m.memory a

theorem Extends.refl (m : Machine) : m.Extends m where
  segments := le_rfl
  ap := le_rfl
  memory _ _ := rfl

theorem Extends.trans {u : Machine} (h : m.Extends t) (h' : t.Extends u) : m.Extends u where
  segments := h.segments.trans h'.segments
  ap := h.ap.trans h'.ap
  memory a ha := by
    have hlt : a.segment ≠ executionSegment ∨ a.offset < t.ap :=
      ha.imp_right fun hlt => hlt.trans_le h.ap
    rw [h'.memory a hlt, h.memory a ha]

theorem Extends.push (h : m.Extends t) (v : Value) : m.Extends (t.push v) where
  segments := h.segments
  ap := h.ap.trans (Nat.le_succ _)
  memory a ha := by
    have hne : a ≠ ⟨executionSegment, t.ap⟩ := by
      rintro rfl
      rcases ha with ha | ha
      · exact ha rfl
      · exact absurd h.ap (Nat.not_le.mpr ha)
    rw [push_memory_of_ne v hne, h.memory a ha]

theorem Extends.jump (h : m.Extends t) (pc : Address) : m.Extends (t.jump pc) where
  segments := h.segments
  ap := h.ap
  memory := h.memory

theorem Extends.cell (h : m.Extends t) {k : Nat} (hk : k < m.ap) :
    t.memory ⟨executionSegment, k⟩ = m.memory ⟨executionSegment, k⟩ := h.memory _ (.inr hk)

def Loaded (program : Program) (m : Machine) : Prop :=
  ∀ (k word : Nat), program.data[k]? = some word →
    m.memory ⟨programSegment, k⟩ = some (.felt word)

theorem Extends.loaded (h : m.Extends t) (hm : m.Loaded program) : t.Loaded program := by
  intro k word hword
  rw [h.memory _ (.inl Nat.zero_ne_one), hm k word hword]

theorem fetch_eq (hm : m.Loaded program) {k : Nat} (hpc : m.pc = ⟨programSegment, k⟩)
    (hi : program.instruction k = some i) : m.fetch = .ok i := by
  obtain ⟨word, hword, hdecode⟩ := Option.bind_eq_some_iff.mp hi
  have hlt : word < prime := by
    rw [decode] at hdecode
    split at hdecode
    · rename_i hlt
      exact hlt.trans (by decide)
    · cases hdecode
  rw [fetch, hpc, hm k word hword]
  simp only [ZMod.val_natCast_of_lt hlt, hdecode]

theorem step_eq (hm : m.Loaded program) {k : Nat} (hpc : m.pc = ⟨programSegment, k⟩)
    (hhint : program.hints.lookup k = none) (hi : program.instruction k = some i) :
    m.step program = m.execute i := by
  have hhints : m.runHints program = .ok m := by
    rw [runHints, hpc]
    simp only [if_true, hhint]
  simp only [step, hhints, bind, Except.bind, fetch_eq hm hpc hi]

theorem insert_known {a : Address} {v : Value} (h : m.memory a = some v) :
    m.insert a v = .ok m := by
  rw [insert, h]
  exact if_pos rfl

theorem Fresh.insert (h : m.Fresh) (v : Value) :
    m.insert ⟨executionSegment, m.ap⟩ v =
      .ok { m with memory := Function.update m.memory ⟨executionSegment, m.ap⟩ (some v) } := by
  rw [Machine.insert, h.empty m.ap le_rfl]
  exact if_pos h.allocated

-- the two operands of an instruction and what it makes of them
structure Computes (m : Machine) (i : Instruction) (op0 op1 : Value) (res : Option Value) :
    Prop where
  cell0 : ∃ a, m.cell i.op0Register i.offOp0 = .ok a ∧ m.memory a = some op0
  cell1 : ∃ a, m.op1Address i (some op0) = .ok a ∧ m.memory a = some op1
  value : computeRes i op0 op1 = .ok res

theorem execute_push {register : Register} {off0 : Int} {source : Op1Source} {off1 : Int} {r : Res}
    {op0 op1 res : Value} (h : m.Fresh) (hap : m.ap + 1 < maxOffset)
    (hi : m.Computes (.push (register, off0) source off1 r) op0 op1 (some res)) :
    m.execute (.push (register, off0) source off1 r) =
      .ok ((m.push res).jump (m.next (Instruction.push (register, off0) source off1 r).size)) := by
  obtain ⟨⟨a0, ha0, hop0⟩, ⟨a1, ha1, hop1⟩, hres⟩ := hi
  have hempty := h.empty m.ap le_rfl
  have hdst : m.cell .ap 0 = .ok ⟨executionSegment, m.ap⟩ :=
    @Address.shift_eq ⟨executionSegment, m.ap⟩ 0 m.ap (Int.add_zero _) (Nat.lt_of_succ_lt hap)
  have hne {a : Address} {v : Value} (hv : m.memory a = some v) :
      a ≠ ⟨executionSegment, m.ap⟩ := by
    rintro rfl
    rw [hempty] at hv
    cases hv
  have hknown {a : Address} {v : Value} (hv : m.memory a = some v) :
      Machine.insert { m with memory := Function.update m.memory ⟨executionSegment, m.ap⟩ (some res) }
        a v = .ok { m with memory := Function.update m.memory ⟨executionSegment, m.ap⟩ (some res) } :=
    insert_known ((Function.update_of_ne (hne hv) ..).trans hv)
  simp only [Instruction.push] at ha0 ha1 hres
  simp only [execute, Instruction.push, hdst, ha0, hop0, ha1, hop1, hempty, operands, hres,
    deduceDst, bind, Except.bind, pure, Except.pure, h.insert, hknown hop0, hknown hop1, check,
    if_true, nextFp, nextAp, register_eq hap, nextPc]
  rfl

theorem execute_assert {op0 op1 res : Value} (hi : m.Computes i op0 op1 (some res))
    {a : Address} (hdst : m.cell i.dstRegister i.offDst = .ok a) (ha : m.memory a = some res)
    (hopcode : i.opcode = .assertEq) (hap : i.apUpdate = .regular) (hpc : i.pcUpdate = .regular) :
    m.execute i = .ok (m.jump (m.next i.size)) := by
  obtain ⟨⟨a0, ha0, hop0⟩, ⟨a1, ha1, hop1⟩, hres⟩ := hi
  simp only [execute, hdst, ha, ha0, hop0, ha1, hop1, operands, hres, hopcode, bind, Except.bind,
    pure, Except.pure, insert_known ha, insert_known hop0, insert_known hop1, check, if_true,
    nextFp, nextAp, hap, nextPc, hpc]
  rfl

theorem execute_assert_fails {op0 op1 res v : Value} (hi : m.Computes i op0 op1 (some res))
    {a : Address} (hdst : m.cell i.dstRegister i.offDst = .ok a) (ha : m.memory a = some v)
    (hne : res ≠ v) (hopcode : i.opcode = .assertEq) :
    m.execute i = .error .diffAssertValues := by
  obtain ⟨⟨a0, ha0, hop0⟩, ⟨a1, ha1, hop1⟩, hres⟩ := hi
  simp only [execute, hdst, ha, ha0, hop0, ha1, hop1, operands, hres, hopcode, bind, Except.bind,
    pure, Except.pure, insert_known ha, insert_known hop0, insert_known hop1, check, if_neg hne]

theorem execute_call {x : Felt} {pc : Address} (h : m.Fresh) (hap : m.ap + 2 < maxOffset)
    (hx : m.memory (m.next 1) = some (.felt x)) (htarget : m.pc.move x = .ok pc) :
    m.execute .callRel = .ok { (m.push (.address ⟨executionSegment, m.fp⟩)).push
      (.address (m.next 2)) with pc, fp := m.ap + 2 } := by
  have hempty0 := h.empty m.ap le_rfl
  have hempty1 := h.empty (m.ap + 1) (Nat.le_succ _)
  have hcell0 : m.cell .ap 0 = .ok ⟨executionSegment, m.ap⟩ :=
    @Address.shift_eq ⟨executionSegment, m.ap⟩ 0 m.ap (Int.add_zero _) (by omega)
  have hcell1 : m.cell .ap 1 = .ok ⟨executionSegment, m.ap + 1⟩ :=
    @Address.shift_eq ⟨executionSegment, m.ap⟩ 1 (m.ap + 1) rfl (Nat.lt_of_succ_lt hap)
  have hne {k : Nat} (hk : m.memory ⟨executionSegment, k⟩ = none) :
      m.next 1 ≠ ⟨executionSegment, k⟩ := by
    intro heq
    rw [heq, hk] at hx
    cases hx
  let v : Value := .address ⟨executionSegment, m.fp⟩
  let w : Value := .address (m.next 2)
  let m' : Machine := { m with memory := (m.push v).memory }
  let m'' : Machine := { m with memory := ((m.push v).push w).memory }
  have hfirst : m.insert ⟨executionSegment, m.ap⟩ v = .ok m' := h.insert v
  have hsecond : m'.insert ⟨executionSegment, m.ap + 1⟩ w = .ok m'' := by
    have hnone : m'.memory ⟨executionSegment, m.ap + 1⟩ = none :=
      (h.push v).empty (m.ap + 1) le_rfl
    rw [Machine.insert, hnone]
    exact if_pos h.allocated
  have hthird : m''.insert (m.next 1) (.felt x) = .ok m'' := by
    apply insert_known
    have hmem : m''.memory (m.next 1) = m.memory (m.next 1) :=
      (push_memory_of_ne w (hne hempty1)).trans (push_memory_of_ne v (hne hempty0))
    rw [hmem, hx]
  simp only [v, w] at hfirst hsecond hthird
  simp only [execute, Instruction.callRel, Instruction.size, hcell0, hcell1, hempty0, hempty1,
    op1Address, hx, operands, deduceOp0, known, computeRes, deduceDst, bind, Except.bind, pure,
    Except.pure, check, and_self, if_true, nextFp, nextAp, register_eq hap, nextPc, htarget, hfirst,
    hsecond, hthird]
  rfl

theorem execute_ret {k : Nat} {fp pc : Address} (hk : m.fp = k + 2) (hrange : m.fp < maxOffset)
    (hlt : fp.offset < maxOffset)
    (hfp : m.memory ⟨executionSegment, k⟩ = some (.address fp))
    (hpc : m.memory ⟨executionSegment, k + 1⟩ = some (.address pc)) :
    m.execute .ret = .ok { m with pc, fp := fp.offset } := by
  have hcell0 : m.cell .fp (-2) = .ok ⟨executionSegment, k⟩ :=
    @Address.shift_eq ⟨executionSegment, m.fp⟩ (-2) k (by simp only [hk]; omega) (by omega)
  have hcell1 : m.cell .fp (-1) = .ok ⟨executionSegment, k + 1⟩ :=
    @Address.shift_eq ⟨executionSegment, m.fp⟩ (-1) (k + 1) (by simp only [hk]; omega) (by omega)
  simp only [execute, Instruction.ret, hcell0, hcell1, op1Address, hfp, hpc, operands, computeRes,
    bind, Except.bind, pure, Except.pure, insert_known hfp, insert_known hpc, check, nextFp,
    register_eq hlt, nextAp, nextPc]

theorem execute_jnz {register : Register} {off : Int} {v op0 : Value} {x : Felt} {pc : Address}
    (hdst : ∃ a, m.cell register off = .ok a ∧ m.memory a = some v)
    (hop0 : ∃ a, m.cell .fp (-1) = .ok a ∧ m.memory a = some op0)
    (hx : m.memory (m.next 1) = some (.felt x)) (htarget : m.pc.move x = .ok pc) :
    m.execute (.jnz register off) = .ok (m.jump (if v.isZero then m.next 2 else pc)) := by
  obtain ⟨a, ha, hv⟩ := hdst
  obtain ⟨a0, ha0, hop0⟩ := hop0
  simp only [execute, Instruction.jnz, Instruction.size, ha, hv, ha0, hop0, op1Address, hx,
    operands, computeRes, bind, Except.bind, pure, Except.pure, insert_known hv, insert_known hop0,
    insert_known hx, check, nextFp, nextAp, nextPc, htarget, if_true]
  cases v.isZero <;> rfl

theorem execute_addAp {v : Value} {x : Felt} {n : Nat}
    (hv : ∃ a, m.cell .fp (-1) = .ok a ∧ m.memory a = some v)
    (hx : m.memory (m.next 1) = some (.felt x)) (hn : (m.ap : Felt) + x = n)
    (hlt : n < maxOffset) : m.execute .addAp = .ok { m with pc := m.next 2, ap := n } := by
  obtain ⟨a, ha, hv⟩ := hv
  have hmove : Address.move ⟨executionSegment, m.ap⟩ x = .ok ⟨executionSegment, n⟩ :=
    Address.move_eq hn hlt
  simp only [execute, Instruction.addAp, Instruction.size, ha, hv, op1Address, hx, operands,
    computeRes, bind, Except.bind, pure, Except.pure, insert_known hv, insert_known hx, check,
    nextFp, nextAp, nextPc, hmove, if_true]
  rfl

-- the cell above `ap` gets the base of a new segment
def alloc (m : Machine) (pc : Address) : Machine :=
  { m.push (.address ⟨m.segments, 0⟩) with pc, segments := m.segments + 1 }

theorem Fresh.alloc (h : m.Fresh) (pc : Address) : (m.alloc pc).Fresh where
  allocated := h.allocated.trans (Nat.lt_succ_self _)
  empty := (h.push _).empty

theorem Extends.alloc (h : m.Extends t) (pc : Address) : m.Extends (t.alloc pc) where
  segments := h.segments.trans (Nat.le_succ _)
  ap := h.ap.trans (Nat.le_succ _)
  memory := (h.push _).memory

theorem step_alloc (hm : m.Loaded program) (hf : m.Fresh) {k : Nat}
    (hpc : m.pc = ⟨programSegment, k⟩) (hhint : program.hints.lookup k = some .addSegmentAtAp)
    (hi : program.instruction k = some .addAp) (himm : program.data[k + 1]? = some 1) {v : Value}
    (hv : ∃ a, m.cell .fp (-1) = .ok a ∧ m.memory a = some v) (hap : m.ap + 1 < maxOffset) :
    m.step program = .ok (m.alloc ⟨programSegment, k + 2⟩) := by
  let a : Value := .address ⟨m.segments, 0⟩
  let u : Machine := { m with segments := m.segments + 1, memory := (m.push a).memory }
  have hhints : m.runHints program = .ok u := by
    have hfresh : Fresh { m with segments := m.segments + 1 } :=
      ⟨hf.allocated.trans (Nat.lt_succ_self _), hf.empty⟩
    rw [runHints, hpc]
    simp only [if_true, hhint]
    exact hfresh.insert a
  have hext : m.Extends u := ⟨Nat.le_succ _, le_rfl, ((Extends.refl m).push a).memory⟩
  have hload := hext.loaded hm
  have hnext (size : Nat) : u.next size = ⟨programSegment, k + size⟩ :=
    congrArg (fun pc : Address => (⟨pc.segment, pc.offset + size⟩ : Address)) hpc
  have hcell : ∃ b, u.cell .fp (-1) = .ok b ∧ u.memory b = some v := by
    obtain ⟨b, hb, hv⟩ := hv
    refine ⟨b, hb, ?_⟩
    have hne : b ≠ ⟨executionSegment, m.ap⟩ := by
      rintro rfl
      rw [hf.empty m.ap le_rfl] at hv
      cases hv
    exact (push_memory_of_ne a hne).trans hv
  have hone : u.memory (u.next 1) = some (.felt (1 : Nat)) := by
    rw [hnext]
    exact hload _ _ himm
  have hexec := execute_addAp hcell hone (Nat.cast_add m.ap 1).symm hap
  simp only [Machine.step, hhints, bind, Except.bind, fetch_eq hload hpc hi, hexec, hnext]
  rfl

-- `k` instructions of the program, the last of which may leave it
inductive Runs (program : Program) : Nat → Machine → Machine → Prop
  | refl (m : Machine) : Runs program 0 m m
  | step {k : Nat} {m m' t : Machine} (hpc : m.pc.segment = programSegment)
    (hstep : m.step program = .ok m') (h : Runs program k m' t) : Runs program (k + 1) m t

namespace Runs

variable {u : Machine} {k l : Nat}

theorem one (hpc : m.pc.segment = programSegment) (hstep : m.step program = .ok t) :
    Runs program 1 m t := .step hpc hstep (.refl t)

theorem trans (h : Runs program k m t) (h' : Runs program l t u) : Runs program (k + l) m u := by
  induction h with
  | refl m =>
    rw [Nat.zero_add]
    exact h'
  | step hpc hstep h ih =>
    rw [Nat.add_right_comm]
    exact .step hpc hstep (ih h')

theorem inRange (h : Runs program k m t) (hm : m.InRange) : t.InRange := by
  induction h with
  | refl m => exact hm
  | step hpc hstep h ih => exact ih (step_inRange hm hstep)

theorem runUntil {stop : Address} (h : Runs program k m t) (hstop : t.pc = stop)
    (houtside : stop.segment ≠ programSegment) {steps : Nat} (hsteps : k ≤ steps) :
    m.runUntil program stop steps = .ok t := by
  induction h generalizing steps with
  | refl m => cases steps <;> exact if_pos hstop
  | @step k m m' t hpc hstep h ih =>
    cases steps with
    | zero => exact absurd hsteps (Nat.not_succ_le_zero k)
    | succ steps =>
      have hne : m.pc ≠ stop := by
        rintro rfl
        exact houtside hpc
      rw [Machine.runUntil, if_neg hne, hstep]
      exact ih hstop (Nat.le_of_succ_le_succ hsteps)

theorem runUntil_error {stop : Address} (h : Runs program k m t)
    (hpc : t.pc.segment = programSegment) {e : VmError} (hstep : t.step program = .error e)
    (houtside : stop.segment ≠ programSegment) (steps : Nat) :
    m.runUntil program stop steps = .error (if k < steps then e else .outOfSteps) := by
  induction h generalizing steps with
  | refl m =>
    have hne : m.pc ≠ stop := by
      rintro rfl
      exact houtside hpc
    cases steps with
    | zero => exact if_neg hne
    | succ steps =>
      rw [Machine.runUntil, if_neg hne, hstep, if_pos (Nat.succ_pos steps)]
      rfl
  | @step k m m' t hpc' hstep' h ih =>
    have hne : m.pc ≠ stop := by
      rintro rfl
      exact houtside hpc'
    cases steps with
    | zero => exact if_neg hne
    | succ steps =>
      rw [Machine.runUntil, if_neg hne, hstep']
      simp only [Nat.succ_lt_succ_iff]
      exact ih hpc hstep steps

theorem outOfSteps {stop : Address} (h : Runs program k m t)
    (houtside : stop.segment ≠ programSegment) {steps : Nat} (hsteps : steps < k) :
    m.runUntil program stop steps = .error .outOfSteps := by
  induction h generalizing steps with
  | refl m => exact absurd hsteps (Nat.not_lt_zero _)
  | @step k m m' t hpc hstep h ih =>
    have hne : m.pc ≠ stop := by
      rintro rfl
      exact houtside hpc
    cases steps with
    | zero => exact if_neg hne
    | succ steps =>
      rw [Machine.runUntil, if_neg hne, hstep]
      exact ih (Nat.lt_of_succ_lt_succ hsteps)

end Runs

end Machine

end Cairo
