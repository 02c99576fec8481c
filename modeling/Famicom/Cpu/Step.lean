import Famicom.Cpu.Action
import Famicom.Cpu.OpcodeMatrix
import Famicom.Cpu.Operand
import Famicom.Cpu.Stack

namespace Famicom

open AddressSpace

variable {μ : Type} [AddressSpace μ]

structure UnknownOpcode where
  opcode : UInt8
  pc : UInt16
  deriving DecidableEq, Repr

def UnknownOpcode.message (e : UnknownOpcode) : String :=
  s!"unimplemented opcode ${hexByte e.opcode} at ${hexWord e.pc}"

structure Cpu where
  registers : Registers := {}
  cycles : UInt64 := 0
  -- Instructions retired. An opcode without an instruction counts as one.
  instructions : UInt64 := 0
  deriving DecidableEq, Repr

def nmiVector : UInt16 := 0xFFFA
def resetVector : UInt16 := 0xFFFC
def irqVector : UInt16 := 0xFFFE

def interruptCycles : UInt64 := 7
def unknownOpcodeCycles : UInt64 := 2

structure Performed (μ : Type) where
  registers : Registers
  memory : μ
  extra : UInt32 := 0

@[specialize] def Action.perform (action : Action) (operand : Operand) (r : Registers) (m : μ) : Performed μ :=
  match action with
  | .load update =>
    let (v,m) := operand.load r m
    {registers := update r v,memory := m}
  | .store value =>
    let (r,m) := operand.store (value r) r m
    {registers := r,memory := m}
  | .modify result =>
    let (v,m) := operand.load r m
    let (v,carry) := result r.p.carry v
    let (r,m) := operand.store v r m
    {registers := {r with p := {r.p with carry := carry}.judging v},memory := m}
  | .internal update => {registers := update r,memory := m}
  | .push value =>
    let (r,m) := Stack.push (value r) r m
    {registers := r,memory := m}
  | .pull update =>
    let (v,r,m) := Stack.pull r m
    {registers := update r v,memory := m}
  | .branch taken =>
    match operand with
    | .memory target =>
      if taken r.p then
        {registers := {r with pc := target},memory := m,extra := if crossesPage r.pc target then 2 else 1}
      else {registers := r,memory := m}
    | _ => {registers := r,memory := m}
  | .jump =>
    match operand with
    | .memory target => {registers := {r with pc := target},memory := m}
    | _ => {registers := r,memory := m}
  | .call =>
    match operand with
    | .memory target =>
      -- What is saved is the address of the call's own last byte.
      let (r,m) := Stack.pushWord (r.pc - 1) r m
      {registers := {r with pc := target},memory := m}
    | _ => {registers := r,memory := m}
  | .returnCall =>
    let (pc,r,m) := Stack.pullWord r m
    {registers := {r with pc := pc + 1},memory := m}
  | .returnInterrupt =>
    let (p,r,m) := Stack.pull r m
    let (pc,r,m) := Stack.pullWord r m
    {registers := {r with p := .restored p,pc := pc},memory := m}

structure Stepped (μ : Type) where
  outcome : Except UnknownOpcode UInt32
  cpu : Cpu
  memory : μ

namespace Cpu

@[specialize] def reset (m : μ) : Cpu × μ :=
  let (pc,m) := readWord m resetVector
  ({registers := {pc := pc}},m)

-- An opcode without an instruction is stepped over. It leaves a pending stall pending.
@[specialize] def step (cpu : Cpu) (m : μ) : Stepped μ :=
  let pc := cpu.registers.pc
  let (opcode,r,m) := fetch cpu.registers m
  match decode opcode with
  | none =>
    ⟨.error ⟨opcode,pc⟩,
     {registers := r,cycles := cpu.cycles + unknownOpcodeCycles,instructions := cpu.instructions + 1},m⟩
  | some instruction =>
    let located := instruction.mode.locate r m
    let penalty : UInt32 := if instruction.pagePenalty && located.crossed then 1 else 0
    let done := instruction.mnemonic.action.perform located.operand located.registers located.memory
    let (stall,m) := takeStall done.memory
    let spent := instruction.cycles + penalty + done.extra + stall
    ⟨.ok spent,
     {registers := done.registers,cycles := cpu.cycles + spent.toUInt64,instructions := cpu.instructions + 1},m⟩

@[specialize] def interrupt (vector : UInt16) (cpu : Cpu) (m : μ) : Cpu × μ :=
  let (r,m) := Stack.pushWord cpu.registers.pc cpu.registers m
  let (r,m) := Stack.push r.p.savedByInterrupt r m
  let (pc,m) := readWord m vector
  ({cpu with
     registers := {r with p := {r.p with interruptDisable := true},pc := pc}
     cycles := cpu.cycles + interruptCycles},m)

@[specialize] def nmi (cpu : Cpu) (m : μ) : Cpu × μ := cpu.interrupt nmiVector m

@[specialize] def irq (cpu : Cpu) (m : μ) : Bool × Cpu × μ :=
  if cpu.registers.p.interruptDisable then (false,cpu,m) else (true,cpu.interrupt irqVector m)

end Cpu

structure Ran (μ : Type) where
  fault : Option UnknownOpcode
  cpu : Cpu
  memory : μ

@[specialize] def Cpu.run (cpu : Cpu) (m : μ) : Nat → Ran μ
  | 0 => ⟨none,cpu,m⟩
  | budget + 1 =>
    match cpu.step m with
    | ⟨.ok _,cpu,m⟩ => cpu.run m budget
    | ⟨.error e,cpu,m⟩ => ⟨some e,cpu,m⟩

theorem Cpu.step_instructions (cpu : Cpu) (m : μ) : (cpu.step m).cpu.instructions = cpu.instructions + 1 := by
  unfold Cpu.step
  simp only
  split <;> rfl

-- A fault retires at least the instruction that failed, so resuming after it gets nearer to the end.
theorem Cpu.run_fault_retires (cpu : Cpu) (m : μ) (budget : Nat) (e : UnknownOpcode)
    (faulted : (cpu.run m budget).fault = some e) :
    ∃ n, 0 < n ∧ n ≤ budget ∧ (cpu.run m budget).cpu.instructions = cpu.instructions + UInt64.ofNat n := by
  induction budget generalizing cpu m with
  | zero => simp [Cpu.run] at faulted
  | succ budget ih =>
    have retired := cpu.step_instructions m
    unfold Cpu.run at faulted ⊢
    split
    · rename_i cpu' m' stepped
      rw [stepped] at faulted retired
      obtain ⟨n,_,within,total⟩ := ih cpu' m' faulted
      refine ⟨n + 1,Nat.succ_pos n,Nat.succ_le_succ within,?_⟩
      rw [total,retired,UInt64.ofNat_add]
      grind
    · rename_i cpu' m' stepped
      rw [stepped] at retired
      exact ⟨1,Nat.one_pos,Nat.succ_le_succ (Nat.zero_le budget),retired⟩

theorem missing_retired (target count : UInt64) (n : Nat) (within : n ≤ (target - count).toNat) :
    (target - (count + UInt64.ofNat n)).toNat = (target - count).toNat - n := by
  have left : target - (count + UInt64.ofNat n) = target - count - UInt64.ofNat n := by
    grind
  have small := (target - count).toNat_lt
  have same : (UInt64.ofNat n).toNat = n := UInt64.toNat_ofNat_of_lt' (Nat.lt_of_le_of_lt within small)
  rw [left,UInt64.toNat_sub_of_le,same]
  rw [UInt64.le_iff_toNat_le,same]
  exact within

theorem Cpu.run_fault_nears (cpu : Cpu) (m : μ) (target : UInt64) (e : UnknownOpcode)
    (faulted : (cpu.run m (target - cpu.instructions).toNat).fault = some e) :
    (target - (cpu.run m (target - cpu.instructions).toNat).cpu.instructions).toNat <
      (target - cpu.instructions).toNat := by
  obtain ⟨n,positive,within,retired⟩ := cpu.run_fault_retires m _ e faulted
  rw [retired,missing_retired target cpu.instructions n within]
  omega

end Famicom
