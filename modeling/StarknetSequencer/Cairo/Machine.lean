import Mathlib.Logic.Function.Basic
import StarknetSequencer.Cairo.Instruction

namespace Cairo

structure Address where
  segment : Nat
  offset : Nat
deriving DecidableEq

inductive Value where
  | felt (x : Felt)
  | address (a : Address)
deriving DecidableEq

inductive VmError where
  | outOfSteps
  | invalidInstruction
  | offset
  | immShouldBe1
  | unknownOperand
  | noDst
  | arithmetic
  | inconsistentMemory
  | unallocatedSegment
  | diffAssertValues
  | unconstrainedResAssertEq
  | cantWriteReturn
  | notAddress
  | notFelt
  | entryPointNotFound
deriving DecidableEq

def maxOffset : Nat := 2 ^ 64

def Address.shift (a : Address) (k : Int) : Except VmError Address :=
  let offset := a.offset + k
  if 0 ≤ offset ∧ offset.toNat < maxOffset then .ok ⟨a.segment, offset.toNat⟩ else .error .offset

def Address.move (a : Address) (x : Felt) : Except VmError Address :=
  let offset := ((a.offset : Felt) + x).val
  if offset < maxOffset then .ok ⟨a.segment, offset⟩ else .error .offset

namespace Value

def isZero : Value → Bool
  | felt x => x = 0
  | address _ => false

def add : Value → Value → Except VmError Value
  | felt x, felt y => .ok (felt (x + y))
  | address a, felt x => address <$> a.move x
  | felt x, address a => address <$> a.move x
  | address _, address _ => .error .arithmetic

def sub : Value → Value → Except VmError Value
  | felt x, felt y => .ok (felt (x - y))
  | address a, felt x => address <$> a.move (-x)
  | address a, address b =>
    if a.segment = b.segment ∧ b.offset ≤ a.offset then .ok (felt (a.offset - b.offset : Nat))
    else .error .arithmetic
  | felt _, address _ => .error .arithmetic

def mul : Value → Value → Except VmError Value
  | felt x, felt y => .ok (felt (x * y))
  | _, _ => .error .arithmetic

-- the other factor of a product of felts, where it is determined
def div? : Option Value → Option Value → Option Value
  | some (felt x), some (felt y) => if y = 0 then none else some (felt (x * y⁻¹))
  | _, _ => none

end Value

-- registers and the cells written so far; `ap` and `fp` are offsets in the execution segment, which
-- no instruction takes past the last one
structure Machine where
  pc : Address
  ap : Nat
  fp : Nat
  memory : Address → Option Value
  segments : Nat

-- what a hint of the program does before its instruction
inductive Hint where
  | addSegmentAtAp
deriving DecidableEq

structure Program where
  data : List Nat
  hints : List (Nat × Hint)

abbrev programSegment : Nat := 0

abbrev executionSegment : Nat := 1

structure Operands where
  dst : Value
  op0 : Value
  op1 : Value
  res : Option Value

namespace Machine

def next (m : Machine) (size : Nat) : Address := ⟨m.pc.segment, m.pc.offset + size⟩

-- a cell is written once
def insert (m : Machine) (a : Address) (v : Value) : Except VmError Machine :=
  match m.memory a with
  | some w => if w = v then .ok m else .error .inconsistentMemory
  | none =>
    if a.segment < m.segments then
      .ok { m with memory := Function.update m.memory a (some v) }
    else .error .unallocatedSegment

def addSegment (m : Machine) : Machine × Address :=
  ({ m with segments := m.segments + 1 }, ⟨m.segments, 0⟩)

def runHint (m : Machine) : Hint → Except VmError Machine
  | .addSegmentAtAp =>
    let (m, a) := m.addSegment
    m.insert ⟨executionSegment, m.ap⟩ (.address a)

def runHints (program : Program) (m : Machine) : Except VmError Machine :=
  match if m.pc.segment = programSegment then program.hints.lookup m.pc.offset else none with
  | some hint => m.runHint hint
  | none => .ok m

def fetch (m : Machine) : Except VmError Instruction :=
  match m.memory m.pc with
  | some (.felt word) =>
    match decode word.val with
    | some i => .ok i
    | none => .error .invalidInstruction
  | _ => .error .invalidInstruction

def cell (m : Machine) (r : Register) (offset : Int) : Except VmError Address :=
  match r with
  | .ap => Address.shift ⟨executionSegment, m.ap⟩ offset
  | .fp => Address.shift ⟨executionSegment, m.fp⟩ offset

def op1Address (m : Machine) (i : Instruction) (op0 : Option Value) : Except VmError Address :=
  match i.op1Source with
  | .imm => if i.offOp1 = 1 then .ok (m.next 1) else .error .immShouldBe1
  | .fp => m.cell .fp i.offOp1
  | .ap => m.cell .ap i.offOp1
  | .op0 =>
    match op0 with
    | some (.address a) => a.shift i.offOp1
    | some (.felt _) => .error .notAddress
    | none => .error .unknownOperand

def deduceOp0 (m : Machine) (i : Instruction) (dst op1 : Option Value) :
    Except VmError (Option Value) :=
  match i.opcode, i.res with
  | .call, _ => .ok (some (.address (m.next i.size)))
  | .assertEq, .add =>
    match dst, op1 with
    | some dst, some op1 => some <$> dst.sub op1
    | _, _ => .ok none
  | .assertEq, .mul => .ok (Value.div? dst op1)
  | _, _ => .ok none

def deduceOp1 (i : Instruction) (dst : Option Value) (op0 : Value) : Option Value :=
  match i.opcode, i.res with
  | .assertEq, .op1 => dst
  | .assertEq, .add => dst.bind fun dst => (dst.sub op0).toOption
  | .assertEq, .mul => Value.div? dst (some op0)
  | _, _ => none

def computeRes (i : Instruction) (op0 op1 : Value) : Except VmError (Option Value) :=
  match i.res with
  | .op1 => .ok (some op1)
  | .add => some <$> op0.add op1
  | .mul => some <$> op0.mul op1
  | .unconstrained => .ok none

def deduceDst (m : Machine) (i : Instruction) (res : Option Value) : Except VmError Value :=
  match i.opcode, res with
  | .assertEq, some res => .ok res
  | .call, _ => .ok (.address ⟨executionSegment, m.fp⟩)
  | _, _ => .error .noDst

def known (deduced : Option Value) : Except VmError Value :=
  match deduced with
  | some v => .ok v
  | none => .error .unknownOperand

-- where a cell is still empty its value is the one the instruction forces
def operands (m : Machine) (i : Instruction) (dst op0 op1 : Option Value) :
    Except VmError Operands := do
  let op0 ← match op0 with
    | some v => pure v
    | none => do known (← m.deduceOp0 i dst op1)
  let op1 ← match op1 with
    | some v => pure v
    | none => known (deduceOp1 i dst op0)
  let res ← computeRes i op0 op1
  let dst ← match dst with
    | some v => pure v
    | none => m.deduceDst i res
  return { dst, op0, op1, res }

def check (m : Machine) (i : Instruction) (o : Operands) : Except VmError Unit :=
  match i.opcode with
  | .assertEq =>
    match o.res with
    | some res => if res = o.dst then .ok () else .error .diffAssertValues
    | none => .error .unconstrainedResAssertEq
  | .call =>
    if o.op0 = .address (m.next i.size) ∧ o.dst = .address ⟨executionSegment, m.fp⟩ then .ok ()
    else .error .cantWriteReturn
  | _ => .ok ()

def register (offset : Nat) : Except VmError Nat :=
  if offset < maxOffset then .ok offset else .error .offset

def nextFp (m : Machine) (i : Instruction) (dst : Value) : Except VmError Nat :=
  match i.opcode with
  | .call => register (m.ap + 2)
  | .ret =>
    match dst with
    | .address a => register a.offset
    | .felt x => Address.offset <$> Address.move ⟨executionSegment, m.fp⟩ x
  | _ => .ok m.fp

def nextAp (m : Machine) (i : Instruction) (res : Option Value) : Except VmError Nat :=
  match i.apUpdate with
  | .regular => .ok m.ap
  | .add1 => register (m.ap + 1)
  | .add2 => register (m.ap + 2)
  | .add =>
    match res with
    | some (.felt x) => Address.offset <$> Address.move ⟨executionSegment, m.ap⟩ x
    | _ => .error .notFelt

def nextPc (m : Machine) (i : Instruction) (o : Operands) : Except VmError Address :=
  match i.pcUpdate with
  | .regular => .ok (m.next i.size)
  | .jump =>
    match o.res with
    | some (.address a) => .ok a
    | _ => .error .notAddress
  | .jumpRel =>
    match o.res with
    | some (.felt x) => m.pc.move x
    | _ => .error .notFelt
  | .jnz =>
    if o.dst.isZero then .ok (m.next i.size)
    else
      match o.op1 with
      | .felt x => m.pc.move x
      | .address _ => .error .notFelt

def execute (m : Machine) (i : Instruction) : Except VmError Machine := do
  let dst ← m.cell i.dstRegister i.offDst
  let op0 ← m.cell i.op0Register i.offOp0
  let op1 ← m.op1Address i (m.memory op0)
  let o ← m.operands i (m.memory dst) (m.memory op0) (m.memory op1)
  let written ← m.insert dst o.dst
  let written ← written.insert op0 o.op0
  let written ← written.insert op1 o.op1
  m.check i o
  let fp ← m.nextFp i o.dst
  let ap ← m.nextAp i o.res
  let pc ← m.nextPc i o
  return { written with pc, ap, fp }

def step (program : Program) (m : Machine) : Except VmError Machine := do
  let m ← m.runHints program
  m.execute (← m.fetch)

-- at most `steps` instructions, until `pc` reaches the place to stop at
def runUntil (program : Program) (stop : Address) : Nat → Machine → Except VmError Machine
  | 0, m => if m.pc = stop then .ok m else .error .outOfSteps
  | steps + 1, m =>
    if m.pc = stop then .ok m
    else do runUntil program stop steps (← m.step program)

end Machine

end Cairo
