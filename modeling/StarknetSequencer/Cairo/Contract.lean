import StarknetSequencer.Cairo.Logic

namespace Cairo

-- the value at the offset `off` from the end of a stack
def below (vs : List Value) (off : Int) : Option Value :=
  if 0 ≤ vs.length + off then vs[(vs.length + off).toNat]? else none

-- what a called function finds below `fp`
structure Frame where
  base : Nat
  args : List Value
  fp : Address
  pc : Address

def Frame.cells (frame : Frame) : List Value :=
  frame.args ++ [.address frame.fp, .address frame.pc]

def Frame.value (frame : Frame) (temps : List Value) : Register → Int → Option Value
  | .fp, off => below frame.cells off
  | .ap, off => below temps off

theorem Frame.value_pc (frame : Frame) (temps : List Value) :
    frame.value temps .fp (-1) = some (.address frame.pc) := by
  have hlength : (frame.cells.length : Int) + -1 = (frame.args.length + 1 : Nat) := by
    rw [cells, List.length_append]
    push_cast
    simp
    omega
  rw [value, below, hlength, if_pos (Int.natCast_nonneg _), Int.toNat_natCast, cells,
    List.getElem?_append_right (Nat.le_add_right ..), Nat.add_sub_cancel_left]
  rfl

namespace Machine

variable {program : Program} {m m' t : Machine}

def Holds (m : Machine) (base : Nat) (vs : List Value) : Prop :=
  ∀ (j : Nat) (v : Value), vs[j]? = some v → m.memory ⟨executionSegment, base + j⟩ = some v

namespace Holds

variable {base : Nat} {vs ws : List Value}

theorem nil (m : Machine) (base : Nat) : m.Holds base [] := fun _ _ hv => by cases hv

theorem right (h : m.Holds base (vs ++ ws)) : m.Holds (base + vs.length) ws := by
  intro j v hv
  rw [Nat.add_assoc]
  apply h
  rw [List.getElem?_append_right (Nat.le_add_right ..), Nat.add_sub_cancel_left, hv]

theorem extends' (h : m.Holds base vs) (hext : m.Extends t) (hle : base + vs.length ≤ m.ap) :
    t.Holds base vs := by
  intro j v hv
  have hj := (List.getElem?_eq_some_iff.mp hv).1
  rw [hext.cell (by omega), h j v hv]

theorem push (h : m.Holds base vs) (hap : m.ap = base + vs.length) (v : Value) :
    (m.push v).Holds base (vs ++ [v]) := by
  intro j w hw
  rcases Nat.lt_or_ge j vs.length with hj | hj
  · have hne : (⟨executionSegment, base + j⟩ : Address) ≠ ⟨executionSegment, m.ap⟩ := by
      intro heq
      have hoff := congrArg Address.offset heq
      simp only [hap] at hoff
      omega
    rw [List.getElem?_append_left hj] at hw
    rw [push_memory_of_ne v hne, h j w hw]
  · rw [List.getElem?_append_right hj, List.getElem?_singleton] at hw
    split at hw
    · have htop : base + j = m.ap := by omega
      rw [push_memory_top v htop, hw]
    · cases hw

theorem cell (h : m.Holds base vs) (hlt : base + vs.length < maxOffset) {off : Int} {v : Value}
    (hv : below vs off = some v) :
    ∃ a, Address.shift ⟨executionSegment, base + vs.length⟩ off = .ok a ∧ m.memory a = some v := by
  rw [below] at hv
  split at hv
  · have hoff := (List.getElem?_eq_some_iff.mp hv).1
    refine ⟨⟨executionSegment, base + (vs.length + off).toNat⟩, Address.shift_eq ?_ ?_, h _ _ hv⟩
    · push_cast
      omega
    · omega
  · cases hv

end Holds

structure Called (m : Machine) (frame : Frame) : Prop where
  fp : m.fp = frame.base + frame.cells.length
  ap : m.ap = m.fp
  cells : m.Holds frame.base frame.cells
  ap_lt : m.ap < maxOffset
  fp_lt : frame.fp.offset < maxOffset

-- `vs` are the values just below `ap`
structure Top (m : Machine) (base : Nat) (vs : List Value) : Prop where
  ap : m.ap = base + vs.length
  cells : m.Holds base vs

theorem Top.value {base : Nat} {vs : List Value} (h : m.Top base vs) (hlt : m.ap < maxOffset)
    {off : Int} {v : Value} (hv : below vs off = some v) :
    ∃ a, m.cell .ap off = .ok a ∧ m.memory a = some v := by
  rw [h.ap] at hlt
  rw [cell, h.ap]
  exact h.cells.cell hlt hv

structure Returned (m t : Machine) (frame : Frame) (results : List Value) : Prop where
  pc : t.pc = frame.pc
  fp : t.fp = frame.fp.offset
  fresh : t.Fresh
  extends' : m.Extends t
  results : ∃ base, m.ap ≤ base ∧ t.Top base results

-- after `steps` instructions the next one is an error
def Fails (program : Program) (m : Machine) (steps : Nat) (e : VmError) : Prop :=
  ∃ t, Runs program steps m t ∧ t.pc.segment = programSegment ∧ t.step program = .error e

def Finishes (program : Program) (m : Machine) (frame : Frame) (steps cells : Nat)
    (results : List Value) : Prop :=
  ∃ t, Runs program steps m t ∧ m.Returned t frame results ∧ t.ap ≤ m.ap + cells

-- the contract of the function at `entry`, which needs room for `cells` more cells above `ap`
def Returns (program : Program) (entry : Nat) (args results : List Value) (steps cells : Nat) :
    Prop :=
  ∀ (m : Machine) (base : Nat) (fp pc : Address), m.Loaded program → m.Fresh →
    m.pc = ⟨programSegment, entry⟩ → m.Called ⟨base, args, fp, pc⟩ → m.ap + cells < maxOffset →
    m.Finishes program ⟨base, args, fp, pc⟩ steps cells results

-- the jump or call at `k` leads to `target`
def Targets (program : Program) (k target : Nat) : Prop :=
  ∃ word : Nat, program.data[k + 1]? = some word ∧ (k : Felt) + word = target ∧ target < maxOffset

-- a state of the function entered at `m'`, after `n` instructions that took up at most `c` cells
-- and before the one at `k`
structure Body (program : Program) (m' : Machine) (frame : Frame) (n c k : Nat)
    (temps : List Value) (m : Machine) : Prop where
  runs : Runs program n m' m
  loaded : m.Loaded program
  fresh : m.Fresh
  called : m'.Called frame
  extends' : m'.Extends m
  fp : m.fp = m'.fp
  pc : m.pc = ⟨programSegment, k⟩
  room : m.ap ≤ m'.ap + c
  temps : ∃ base, m'.ap ≤ base ∧ m.Top base temps

def Reaches (program : Program) (m' : Machine) (frame : Frame) (n c k : Nat)
    (temps : List Value) : Prop := ∃ m, Body program m' frame n c k temps m

def secondOperand (program : Program) (m' : Machine) (frame : Frame) (temps : List Value) (k : Nat)
    (i : Instruction) (op0 : Value) : Option Value :=
  match i.op1Source with
  | .imm => if i.offOp1 = 1 then program.data[k + 1]?.map fun word : Nat => .felt word else none
  | .fp => frame.value temps .fp i.offOp1
  | .ap => frame.value temps .ap i.offOp1
  | .op0 =>
    match op0 with
    | .address a =>
      if a.segment = executionSegment then none else (a.shift i.offOp1).toOption.bind m'.memory
    | .felt _ => none

-- what the instruction at `k` computes, in terms of the frame and of the values below `ap`
def computed (program : Program) (m' : Machine) (frame : Frame) (temps : List Value) (k : Nat)
    (i : Instruction) : Option Value := do
  let op0 ← frame.value temps i.op0Register i.offOp0
  let op1 ← secondOperand program m' frame temps k i op0
  (← (computeRes i op0 op1).toOption)

namespace Body

variable {frame : Frame} {n c k : Nat} {temps : List Value} {i : Instruction}

theorem next (h : Body program m' frame n c k temps m) (size : Nat) :
    m.next size = ⟨programSegment, k + size⟩ := by
  rw [Machine.next, h.pc]

theorem imm (h : Body program m' frame n c k temps m) {word : Nat}
    (hword : program.data[k + 1]? = some word) : m.memory (m.next 1) = some (.felt word) := by
  rw [h.next]
  exact h.loaded _ _ hword

theorem cells (h : Body program m' frame n c k temps m) : m.Holds frame.base frame.cells := by
  apply h.called.cells.extends' h.extends'
  rw [h.called.ap, h.called.fp]

theorem inRange (h : Body program m' frame n c k temps m) : m.InRange := by
  have hlt := h.called.ap_lt
  exact h.runs.inRange ⟨hlt, h.called.ap ▸ hlt⟩

theorem value (h : Body program m' frame n c k temps m) {register : Register} {off : Int} {v : Value}
    (hv : frame.value temps register off = some v) :
    ∃ a, m.cell register off = .ok a ∧ m.memory a = some v := by
  cases register with
  | fp =>
    have hlt := h.inRange.fp
    rw [h.fp, h.called.fp] at hlt
    rw [cell, h.fp, h.called.fp]
    exact h.cells.cell hlt hv
  | ap =>
    obtain ⟨base, -, htop⟩ := h.temps
    exact htop.value h.inRange.ap hv

theorem second (h : Body program m' frame n c k temps m) {op0 op1 : Value}
    (hop1 : secondOperand program m' frame temps k i op0 = some op1) :
    ∃ a, m.op1Address i (some op0) = .ok a ∧ m.memory a = some op1 := by
  unfold secondOperand at hop1
  unfold op1Address
  cases hsource : i.op1Source with
  | imm =>
    simp only [hsource] at hop1 ⊢
    split at hop1
    · rename_i hoff
      obtain ⟨word, hword, rfl⟩ := Option.map_eq_some_iff.mp hop1
      exact ⟨m.next 1, if_pos hoff, h.imm hword⟩
    · cases hop1
  | fp =>
    simp only [hsource] at hop1 ⊢
    exact h.value hop1
  | ap =>
    simp only [hsource] at hop1 ⊢
    exact h.value hop1
  | op0 =>
    cases op0 with
    | felt x =>
      simp only [hsource] at hop1
      cases hop1
    | address a =>
      simp only [hsource] at hop1 ⊢
      split at hop1
      · cases hop1
      · rename_i hseg
        obtain ⟨b, hb, hmem⟩ := Option.bind_eq_some_iff.mp hop1
        have hshift : a.shift i.offOp1 = .ok b := by
          cases hs : a.shift i.offOp1 with
          | ok c =>
            rw [hs] at hb
            exact congrArg Except.ok (Option.some.inj hb)
          | error e =>
            rw [hs] at hb
            cases hb
        have hsegment : b.segment = a.segment := by
          rw [Address.shift] at hshift
          split at hshift
          · cases hshift
            rfl
          · cases hshift
        refine ⟨b, hshift, ?_⟩
        rw [h.extends'.memory b (.inl (hsegment ▸ hseg)), hmem]

theorem computes (h : Body program m' frame n c k temps m) {res : Value}
    (hres : computed program m' frame temps k i = some res) :
    ∃ op0 op1, m.Computes i op0 op1 (some res) := by
  obtain ⟨op0, hop0, hres⟩ := Option.bind_eq_some_iff.mp hres
  obtain ⟨op1, hop1, hres⟩ := Option.bind_eq_some_iff.mp hres
  refine ⟨op0, op1, h.value hop0, h.second hop1, ?_⟩
  cases hr : computeRes i op0 op1 with
  | error e =>
    rw [hr] at hres
    cases hres
  | ok r =>
    rw [hr] at hres
    exact congrArg Except.ok hres

theorem executed (h : Body program m' frame n c k temps m) (hhint : program.hints.lookup k = none)
    (hi : program.instruction k = some i) (hexec : m.execute i = .ok t) :
    Runs program (n + 1) m' t :=
  h.runs.trans (.one (congrArg Address.segment h.pc)
    ((step_eq h.loaded h.pc hhint hi).trans hexec))

end Body

namespace Reaches

variable {frame : Frame} {n c k : Nat} {temps : List Value} {i : Instruction}

theorem push (h : Reaches program m' frame n c k temps) (hhint : program.hints.lookup k = none)
    {register : Register} {off0 : Int} {source : Op1Source} {off1 : Int} {r : Res}
    (hi : program.instruction k = some (.push (register, off0) source off1 r)) {res : Value}
    (hres : computed program m' frame temps k (.push (register, off0) source off1 r) = some res)
    (hroom : m'.ap + c + 1 < maxOffset) :
    Reaches program m' frame (n + 1) (c + 1)
      (k + (Instruction.push (register, off0) source off1 r).size) (temps ++ [res]) := by
  obtain ⟨m, h⟩ := h
  have hm := h.room
  obtain ⟨op0, op1, hcomputes⟩ := h.computes hres
  obtain ⟨base, hbase, htop⟩ := h.temps
  have hexec := execute_push h.fresh (by omega) hcomputes
  rw [h.next] at hexec
  refine ⟨_, h.executed hhint hi hexec, ?_, (h.fresh.push res).jump _, h.called,
    (h.extends'.push res).jump _, h.fp, rfl, ?_, base, hbase, ?_, ?_⟩
  · exact (((Extends.refl m).push res).jump _).loaded h.loaded
  · rw [jump_ap, push_ap]
    omega
  · rw [jump_ap, push_ap, htop.ap, List.length_append, List.length_singleton, Nat.add_assoc]
  · exact htop.cells.push htop.ap res

theorem assertEq (h : Reaches program m' frame n c k temps) (hhint : program.hints.lookup k = none)
    (hi : program.instruction k = some i) (hopcode : i.opcode = .assertEq)
    (hap : i.apUpdate = .regular) (hpc : i.pcUpdate = .regular) {res : Value}
    (hdst : frame.value temps i.dstRegister i.offDst = some res)
    (hres : computed program m' frame temps k i = some res) :
    Reaches program m' frame (n + 1) c (k + i.size) temps := by
  obtain ⟨m, h⟩ := h
  obtain ⟨op0, op1, hcomputes⟩ := h.computes hres
  obtain ⟨base, hbase, htop⟩ := h.temps
  obtain ⟨a, ha, hv⟩ := h.value hdst
  have hexec := execute_assert hcomputes ha hv hopcode hap hpc
  rw [h.next] at hexec
  exact ⟨_, h.executed hhint hi hexec, h.loaded, h.fresh.jump _, h.called, h.extends'.jump _, h.fp,
    rfl, h.room, base, hbase, htop.ap, htop.cells⟩

theorem assertEq_fails (h : Reaches program m' frame n c k temps)
    (hhint : program.hints.lookup k = none) (hi : program.instruction k = some i)
    (hopcode : i.opcode = .assertEq) {v res : Value}
    (hdst : frame.value temps i.dstRegister i.offDst = some v)
    (hres : computed program m' frame temps k i = some res) (hne : res ≠ v) :
    m'.Fails program n .diffAssertValues := by
  obtain ⟨m, h⟩ := h
  obtain ⟨op0, op1, hcomputes⟩ := h.computes hres
  obtain ⟨a, ha, hv⟩ := h.value hdst
  have hexec := execute_assert_fails hcomputes ha hv hne hopcode
  exact ⟨m, h.runs, congrArg Address.segment h.pc, (step_eq h.loaded h.pc hhint hi).trans hexec⟩

theorem jnz (h : Reaches program m' frame n c k temps) (hhint : program.hints.lookup k = none)
    {register : Register} {off : Int} (hi : program.instruction k = some (.jnz register off))
    {target : Nat} (htarget : Targets program k target) {v : Value}
    (hv : frame.value temps register off = some v) :
    Reaches program m' frame (n + 1) c (if v.isZero then k + 2 else target) temps := by
  obtain ⟨m, h⟩ := h
  obtain ⟨word, hword, htarget, hlt⟩ := htarget
  obtain ⟨base, hbase, htop⟩ := h.temps
  have hmove : m.pc.move word = .ok ⟨programSegment, target⟩ := by
    rw [h.pc]
    exact Address.move_eq htarget hlt
  have hexec := execute_jnz (h.value hv) (h.value (frame.value_pc temps)) (h.imm hword) hmove
  refine ⟨_, h.executed hhint hi hexec, h.loaded, h.fresh.jump _, h.called, h.extends'.jump _, h.fp,
    ?_, h.room, base, hbase, htop.ap, htop.cells⟩
  rw [jump_pc, h.next]
  cases v.isZero <;> rfl

-- a call with its arguments just below `ap`
theorem call (pre : List Value) {args results : List Value}
    (h : Reaches program m' frame n c k (pre ++ args)) (hhint : program.hints.lookup k = none)
    (hi : program.instruction k = some .callRel) {entry : Nat}
    (htarget : Targets program k entry) {steps cells : Nat}
    (hreturns : Returns program entry args results steps cells)
    (hroom : m'.ap + c + 2 + cells < maxOffset) :
    Reaches program m' frame (n + 1 + steps) (c + 2 + cells) (k + 2) results := by
  obtain ⟨m, h⟩ := h
  have hm := h.room
  obtain ⟨word, hword, htarget, hlt⟩ := htarget
  obtain ⟨base, hbase, htop⟩ := h.temps
  have hap := htop.ap
  rw [List.length_append] at hap
  have hmove : m.pc.move word = .ok ⟨programSegment, entry⟩ := by
    rw [h.pc]
    exact Address.move_eq htarget hlt
  have hexec := execute_call h.fresh (by omega) (h.imm hword) hmove
  let v : Value := .address ⟨executionSegment, m.fp⟩
  let w : Value := .address (m.next 2)
  let u : Machine := { (m.push v).push w with pc := ⟨programSegment, entry⟩, fp := m.ap + 2 }
  have hextends : m.Extends u := by
    have hpushed := ((Extends.refl m).push v).push w
    exact ⟨hpushed.segments, hpushed.ap, hpushed.memory⟩
  have hfresh : u.Fresh := by
    have hpushed := (h.fresh.push v).push w
    exact ⟨hpushed.allocated, hpushed.empty⟩
  have hcells : u.Holds (base + pre.length) (args ++ [v, w]) := by
    have hargs : m.Holds (base + pre.length) args := htop.cells.right
    have hone := hargs.push (by omega) v
    have htwo := hone.push (by rw [push_ap, List.length_append, List.length_singleton]; omega) w
    rw [List.append_assoc] at htwo
    exact htwo
  have hu : u.ap = m.ap + 2 := rfl
  have hcalled : u.Called ⟨base + pre.length, args, ⟨executionSegment, m.fp⟩, m.next 2⟩ := by
    refine ⟨?_, rfl, hcells, by omega, h.inRange.fp⟩
    simp only [u, Frame.cells, List.length_append, List.length_cons, List.length_nil]
    omega
  obtain ⟨t, hruns, hreturned, ht⟩ :=
    hreturns u _ _ _ (hextends.loaded h.loaded) hfresh rfl hcalled (by omega)
  obtain ⟨top, hle, hresults⟩ := hreturned.results
  have hext := hextends.trans hreturned.extends'
  refine ⟨t, (h.executed hhint hi hexec).trans hruns, hext.loaded h.loaded, hreturned.fresh,
    h.called, h.extends'.trans hext, ?_, ?_, ?_, top, ?_, hresults⟩
  · rw [hreturned.fp]
    exact h.fp
  · rw [hreturned.pc, h.next]
  · omega
  · exact (h.extends'.ap.trans hextends.ap).trans hle

theorem alloc (h : Reaches program m' frame n c k temps)
    (hhint : program.hints.lookup k = some .addSegmentAtAp)
    (hi : program.instruction k = some .addAp) (himm : program.data[k + 1]? = some 1)
    (hroom : m'.ap + c + 1 < maxOffset) :
    ∃ s, m'.segments ≤ s ∧
      Reaches program m' frame (n + 1) (c + 1) (k + 2) (temps ++ [.address ⟨s, 0⟩]) := by
  obtain ⟨m, h⟩ := h
  obtain ⟨base, hbase, htop⟩ := h.temps
  have hm := h.room
  have hstep := step_alloc h.loaded h.fresh h.pc hhint hi himm (h.value (frame.value_pc temps))
    (by omega)
  have hext := (Extends.refl m).alloc ⟨programSegment, k + 2⟩
  have hap : (m.alloc ⟨programSegment, k + 2⟩).ap = m.ap + 1 := rfl
  refine ⟨m.segments, h.extends'.segments, m.alloc ⟨programSegment, k + 2⟩,
    h.runs.trans (.one (congrArg Address.segment h.pc) hstep), hext.loaded h.loaded,
    h.fresh.alloc _, h.called, h.extends'.trans hext, h.fp, rfl, ?_, base, hbase, ?_, ?_⟩
  · omega
  · rw [hap, htop.ap, List.length_append, List.length_singleton, Nat.add_assoc]
  · exact htop.cells.push htop.ap _

theorem ret (pre : List Value) {results : List Value}
    (h : Reaches program m' frame n c k (pre ++ results)) (hhint : program.hints.lookup k = none)
    (hi : program.instruction k = some .ret) : m'.Finishes program frame (n + 1) c results := by
  obtain ⟨m, h⟩ := h
  obtain ⟨base, hbase, htop⟩ := h.temps
  have hap := htop.ap
  rw [List.length_append] at hap
  have hcells : m.Holds (frame.base + frame.args.length)
    [.address frame.fp, .address frame.pc] := h.cells.right
  have hfp : m.fp = frame.base + frame.args.length + 2 := by
    rw [h.fp, h.called.fp, Frame.cells, List.length_append, Nat.add_assoc]
    rfl
  have hexec := execute_ret hfp h.inRange.fp h.called.fp_lt (hcells 0 _ rfl) (hcells 1 _ rfl)
  refine ⟨_, h.executed hhint hi hexec, ⟨rfl, rfl, ?_, ?_, base + pre.length, ?_, ?_, ?_⟩,
    h.room⟩
  · exact ⟨h.fresh.allocated, h.fresh.empty⟩
  · exact ⟨h.extends'.segments, h.extends'.ap, h.extends'.memory⟩
  · exact hbase.trans (Nat.le_add_right ..)
  · rw [Nat.add_assoc]
    exact hap
  · exact htop.cells.right

end Reaches

-- a function body followed from its entry to its `ret`
theorem Returns.intro {entry steps cells : Nat} {args results : List Value}
    (h : ∀ (m : Machine) (base : Nat) (fp pc : Address), m.ap + cells < maxOffset →
      Reaches program m ⟨base, args, fp, pc⟩ 0 0 entry [] →
      m.Finishes program ⟨base, args, fp, pc⟩ steps cells results) :
    Returns program entry args results steps cells := by
  intro m base fp pc hm hf hpc hc hroom
  apply h m base fp pc hroom
  exact ⟨m, .refl m, hm, hf, hc, .refl m, rfl, hpc, le_rfl, m.ap, le_rfl, rfl, .nil m _⟩

end Machine

end Cairo
