import StarknetSequencer.Cairo.Contract

namespace Cairo

structure EntryPoint where
  selector : Felt
  offset : Nat

structure ContractClass where
  program : Program
  external : List EntryPoint

namespace ContractClass

abbrev syscallPtr : Address := ⟨2, 0⟩

abbrev rangeCheckPtr : Address := ⟨3, 0⟩

abbrev osContext : Address := ⟨4, 0⟩

abbrev calldataPtr : Address := ⟨5, 0⟩

abbrev returnFp : Address := ⟨6, 0⟩

abbrev returnPc : Address := ⟨7, 0⟩

def arguments (selector : Felt) (calldata : List Felt) : List Value :=
  [.felt selector, .address osContext, .felt calldata.length, .address calldataPtr]

def frame (selector : Felt) (calldata : List Felt) : Frame where
  base := 0
  args := arguments selector calldata
  fp := returnFp
  pc := returnPc

variable (c : ContractClass)

def segments (selector : Felt) (calldata : List Felt) : List (List Value) :=
  [c.program.data.map fun word : Nat => .felt word,
    (frame selector calldata).cells,
    [],
    [],
    [.address syscallPtr, .address rangeCheckPtr],
    calldata.map .felt,
    [],
    []]

-- what the operating system sets up before it runs an external function
def start (offset : Nat) (selector : Felt) (calldata : List Felt) : Machine where
  pc := ⟨programSegment, offset⟩
  ap := (frame selector calldata).cells.length
  fp := (frame selector calldata).cells.length
  memory a := (c.segments selector calldata)[a.segment]?.bind fun cells => cells[a.offset]?
  segments := (c.segments selector calldata).length

def feltAt (m : Machine) (a : Address) : Except VmError Felt :=
  match m.memory a with
  | some (.felt x) => .ok x
  | _ => .error .notFelt

-- an external function leaves the size and the place of what it returns just below `ap`
def retdata (m : Machine) : Except VmError (List Felt) := do
  let size ← feltAt m (← m.cell .ap (-2))
  match m.memory (← m.cell .ap (-1)) with
  | some (.address a) =>
    (List.range size.val).mapM fun j => feltAt m ⟨a.segment, a.offset + j⟩
  | _ => .error .notAddress

def execute (selector : Felt) (calldata : List Felt) (steps : Nat) :
    Except VmError (List Felt) :=
  match c.external.find? fun entry => entry.selector = selector with
  | some entry => do
    retdata (← (c.start entry.offset selector calldata).runUntil c.program returnPc steps)
  | none => .error .entryPointNotFound

variable {c} {selector : Felt} {calldata : List Felt} {offset : Nat}

open Machine

theorem start_ap_lt (c : ContractClass) (offset : Nat) (selector : Felt) (calldata : List Felt) :
    (c.start offset selector calldata).ap < maxOffset := by
  have hap : (c.start offset selector calldata).ap = 6 := rfl
  rw [hap]
  decide

theorem start_reaches (c : ContractClass) (offset : Nat) (selector : Felt)
    (calldata : List Felt) : Reaches c.program (c.start offset selector calldata)
      (frame selector calldata) 0 0 offset [] := by
  have hload : (c.start offset selector calldata).Loaded c.program := by
    intro k word hword
    have hmap : (c.program.data.map fun word : Nat => Value.felt word)[k]? = some (.felt word) := by
      rw [List.getElem?_map, hword]
      rfl
    exact hmap
  have hfresh : (c.start offset selector calldata).Fresh := by
    refine ⟨Nat.one_lt_succ_succ 6, fun k hk => ?_⟩
    exact List.getElem?_eq_none hk
  have hcalled : (c.start offset selector calldata).Called (frame selector calldata) := by
    refine ⟨(Nat.zero_add _).symm, rfl, fun j v hv => ?_, start_ap_lt .., Nat.two_pow_pos 64⟩
    rw [frame, Nat.zero_add]
    exact hv
  exact ⟨_, .refl _, hload, hfresh, hcalled, .refl _, rfl, rfl, le_rfl, _, le_rfl, rfl, .nil _ _⟩

theorem execute_eq {entry : EntryPoint}
    (hentry : (c.external.find? fun entry => entry.selector = selector) = some entry)
    (steps : Nat) : c.execute selector calldata steps =
      ((c.start entry.offset selector calldata).runUntil c.program returnPc steps).bind retdata := by
  rw [execute, hentry]
  rfl

theorem returnPc_outside : returnPc.segment ≠ programSegment := by decide

theorem execute_finishes {steps k cells : Nat} {entry : EntryPoint}
    (hentry : (c.external.find? fun entry => entry.selector = selector) = some entry)
    {syscall range : Value} {a : Address}
    (h : (c.start entry.offset selector calldata).Finishes c.program (frame selector calldata) k
      cells [syscall, range, .felt 0, .address a]) :
    c.execute selector calldata steps = if k ≤ steps then .ok [] else .error .outOfSteps := by
  obtain ⟨t, hruns, hreturned, -⟩ := h
  obtain ⟨base, -, htop⟩ := hreturned.results
  have hstart := start_ap_lt c entry.offset selector calldata
  have hlt := (hruns.inRange ⟨hstart, hstart⟩).ap
  rw [execute_eq hentry]
  split_ifs with hsteps
  · have hrun : (c.start entry.offset selector calldata).runUntil c.program returnPc steps = .ok t :=
      hruns.runUntil hreturned.pc returnPc_outside hsteps
    have hvalues : below [syscall, range, .felt 0, .address a] (-2) = some (.felt 0) ∧
        below [syscall, range, .felt 0, .address a] (-1) = some (.address a) := ⟨rfl, rfl⟩
    obtain ⟨b, hsize, hb⟩ := htop.value hlt hvalues.1
    obtain ⟨d, hplace, hd⟩ := htop.value hlt hvalues.2
    simp only [hrun, bind, Except.bind, retdata, hsize, hplace, feltAt, hb, hd, ZMod.val_zero]
    rfl
  · rw [hruns.outOfSteps returnPc_outside (Nat.lt_of_not_le hsteps)]
    rfl

theorem execute_fails {steps k : Nat} {entry : EntryPoint}
    (hentry : (c.external.find? fun entry => entry.selector = selector) = some entry) {e : VmError}
    (h : (c.start entry.offset selector calldata).Fails c.program k e) :
    c.execute selector calldata steps = .error (if k < steps then e else .outOfSteps) := by
  obtain ⟨t, hruns, hpc, hstep⟩ := h
  rw [execute_eq hentry, hruns.runUntil_error hpc hstep returnPc_outside steps]
  rfl

end ContractClass

end Cairo
