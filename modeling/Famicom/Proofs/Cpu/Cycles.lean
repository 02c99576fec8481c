import Famicom.Proofs.Cpu.Decoding
import Famicom.Proofs.Cpu.Faithful

namespace Famicom

def page (a : UInt16) : Nat := a.toNat / 256

def bytesRead (seen : List Access) : List UInt8 :=
  seen.reverse.filterMap fun access =>
    match access with
    | .read _ v => some v
    | .write .. => none

-- The base address and what is added to it, in the modes that add to an address of two bytes. The opcode is the
-- first byte that is read, and a pointer's cell comes before the word it points to.
def indexing? (mode : Mode) (r : Registers) (bytes : List UInt8) : Option (UInt16 × UInt8) :=
  match mode,bytes with
  | .absoluteX,_ :: lo :: hi :: _ => some (word lo hi,r.x)
  | .absoluteY,_ :: lo :: hi :: _ => some (word lo hi,r.y)
  | .indirectY,_ :: _ :: lo :: hi :: _ => some (word lo hi,r.y)
  | _,_ => none

def leavesPage (mode : Mode) (r : Registers) (bytes : List UInt8) : Bool :=
  match indexing? mode r bytes with
  | some (base,index) => page (base + index.toUInt16) != page base
  | none => false

def Mnemonic.branches (mnemonic : Mnemonic) (p : Status) : Bool :=
  match mnemonic with
  | .bcc => !p.carry
  | .bcs => p.carry
  | .bne => !p.zero
  | .beq => p.zero
  | .bpl => !p.negative
  | .bmi => p.negative
  | .bvc => !p.overflow
  | .bvs => p.overflow
  | _ => false

def branchCycles (r : Registers) (bytes : List UInt8) : Nat :=
  match bytes with
  | _ :: distance :: _ =>
    let next := r.pc + 2
    if page (next + UInt16.ofInt distance.toInt8.toInt) = page next then 1 else 2
  | _ => 0

def Instruction.cost (i : Instruction) (r : Registers) (bytes : List UInt8) : Nat :=
  i.cycles.toNat + (if i.pagePenalty && leavesPage i.mode r bytes then 1 else 0) +
    if i.mnemonic.branches r.p then branchCycles r bytes else 0

theorem highByte_page (a : UInt16) : (highByte a).toNat = page a := by
  have := a.toNat_lt
  simp only [highByte,page,UInt16.toNat_toUInt8,UInt16.toNat_div,UInt16.reduceToNat]
  omega

theorem crossesPage_pages (a b : UInt16) : crossesPage a b = (page b != page a) := by
  have same : highByte a = highByte b ↔ page b = page a := by
    rw [← UInt8.toNat_inj,highByte_page,highByte_page]
    exact eq_comm
  rw [crossesPage,Bool.eq_iff_iff,bne_iff_ne,bne_iff_ne]
  exact not_congr same

theorem displacement_signed (distance : UInt8) : displacement distance = UInt16.ofInt distance.toInt8.toInt := by
  have all : ∀ n : Fin 256,
      displacement (UInt8.ofFin n) = UInt16.ofInt (UInt8.ofFin n).toInt8.toInt := by decide +kernel
  exact all distance.toFin

-- No instruction of the matrix costs more, so that its penalties and a stall can be added to it.
theorem decode_cycles (opcode : UInt8) (i : Instruction) (decoded : decode opcode = some i) :
    i.cycles.toNat ≤ 7 := by
  have all : ∀ n : Fin 256, (decode (UInt8.ofFin n)).all (fun i => i.cycles.toNat ≤ 7) = true := by decide +kernel
  have here : (decode opcode).all (fun i => i.cycles.toNat ≤ 7) = true := all opcode.toFin
  rw [decoded] at here
  exact of_decide_eq_true here

variable {μ : Type} [AddressSpace μ]

theorem recorded_kept (seen : List Access) : Kept fun n : Recorded μ => ∃ later, n.accesses = later ++ seen where
  read _ _ := fun ⟨later,whole⟩ => ⟨_ :: later,congrArg (_ :: ·) whole⟩
  write _ a v := fun ⟨later,whole⟩ => ⟨.write a v :: later,congrArg (_ :: ·) whole⟩

theorem locate_crossed (mode : Mode) (r : Registers) (m : μ) (a : UInt16) (opcode : UInt8) (later : List Access) :
    (mode.locate r (⟨m,[.read a opcode]⟩ : Recorded μ)).crossed =
      leavesPage mode r
        (bytesRead (later ++ (mode.locate r (⟨m,[.read a opcode]⟩ : Recorded μ)).memory.accesses)) := by
  -- The cases are the modes. Whatever is read afterwards, the bytes that were read to find the operand come first.
  cases mode <;>
    simp [Mode.locate,fetch,fetchWord,indexed,AddressSpace.readZeroPageWord,AddressSpace.read,bytesRead,leavesPage,
      indexing?,crossesPage_pages]

theorem branches_action (mnemonic : Mnemonic) (p : Status) :
    mnemonic.branches p = match mnemonic.action with | .branch taken => taken p | _ => false := by
  cases mnemonic <;> rfl

theorem perform_extra (action : Action) (o : Operand) (r : Registers) (m : μ)
    (plain : ∀ taken, action ≠ .branch taken) : (action.perform o r m).extra = 0 := by
  cases action with
  | branch taken => exact absurd rfl (plain taken)
  | load | store | modify | internal | push | pull | returnCall | returnInterrupt => rfl
  | jump | call => cases o <;> rfl

theorem branchCycles_le (r : Registers) (bytes : List UInt8) : branchCycles r bytes ≤ 2 := by
  unfold branchCycles
  split
  · dsimp only
    split <;> omega
  · omega

namespace Cpu

variable (cpu : Cpu) (m : μ) (i : Instruction)

def recording : List Access := (cpu.performed (⟨m,[]⟩ : Recorded μ) i).memory.accesses

theorem located_recording :
    ∃ later, cpu.recording m i = later ++ (cpu.located (⟨m,[]⟩ : Recorded μ) i).memory.accesses :=
  (recorded_kept _).perform _ _ _ ⟨[],rfl⟩

theorem located_crossed :
    (cpu.located (⟨m,[]⟩ : Recorded μ) i).crossed =
      leavesPage i.mode cpu.registers (bytesRead (cpu.recording m i)) := by
  obtain ⟨later,whole⟩ := cpu.located_recording m i
  rw [whole]
  exact locate_crossed i.mode {cpu.registers with pc := cpu.registers.pc + 1} _ _ _ later

theorem performed_extra (takes : i.mnemonic.action.takes i.mode = true) :
    (cpu.performed (⟨m,[]⟩ : Recorded μ) i).extra.toNat =
      if i.mnemonic.branches cpu.registers.p then branchCycles cpu.registers (bytesRead (cpu.recording m i))
      else 0 := by
  rw [branches_action]
  cases acts : i.mnemonic.action with
  | branch taken =>
      rw [acts] at takes
      have relative : i.mode = .relative := eq_of_beq takes
      have next : cpu.registers.pc + 1 + 1 = cpu.registers.pc + 2 := UInt16.add_assoc ..
      cases jumps : taken cpu.registers.p with
      | false => simp [performed,located,acts,relative,Mode.locate,fetch,Action.perform,jumps]
      | true =>
          simp [recording,performed,located,acts,relative,Mode.locate,fetch,Action.perform,jumps,bytesRead,branchCycles,
            AddressSpace.read,crossesPage_pages,displacement_signed,next]
          split <;> rfl
  | load | store | modify | internal | push | pull | jump | call | returnCall | returnInterrupt =>
      rw [performed,acts,perform_extra]
      · rfl
      · intro taken same
        cases same

theorem cost_recording (known : decode (AddressSpace.read m cpu.registers.pc).1 = some i) :
    (cpu.cost (⟨m,[]⟩ : Recorded μ) i).toNat = i.cost cpu.registers (bytesRead (cpu.recording m i)) := by
  have table := decode_cycles _ _ known
  have taken := branchCycles_le cpu.registers (bytesRead (cpu.recording m i))
  rw [cost,UInt32.toNat_add,UInt32.toNat_add,cpu.performed_extra m i (decode_takes _ _ known),cpu.located_crossed m i,
    Instruction.cost]
  split <;> split <;> simp only [UInt32.reduceToNat] <;> omega

theorem cost_le (r : Registers) (bytes : List UInt8) (opcode : UInt8) (known : decode opcode = some i) :
    i.cost r bytes ≤ 10 := by
  have table := decode_cycles _ _ known
  have taken := branchCycles_le r bytes
  rw [Instruction.cost]
  split <;> split <;> omega

end Cpu

def writesTo (a : UInt16) (seen : List Access) : Nat :=
  seen.countP fun access =>
    match access with
    | .read .. => false
    | .write b _ => b == a

@[simp] theorem writesTo_read (a b : UInt16) (v : UInt8) (seen : List Access) :
    writesTo a (.read b v :: seen) = writesTo a seen := by
  simp [writesTo]

@[simp] theorem writesTo_write (a b : UInt16) (v : UInt8) (seen : List Access) :
    writesTo a (.write b v :: seen) = writesTo a seen + if b = a then 1 else 0 := by
  simp [writesTo,List.countP_cons]

theorem locate_writesTo (a : UInt16) (mode : Mode) (r : Registers) (n : Recorded μ) :
    writesTo a (mode.locate r n).memory.accesses = writesTo a n.accesses := by
  cases mode <;>
    simp [Mode.locate,fetch,fetchWord,indexed,AddressSpace.readPointerWord,AddressSpace.readZeroPageWord,
      AddressSpace.read]

-- Data is written at most once, and everything else goes to the stack.
theorem perform_writesTo (a : UInt16) (outside : ∀ r : Registers, r.stackTop ≠ a) (action : Action) (o : Operand)
    (r : Registers) (n : Recorded μ) :
    writesTo a (action.perform o r n).memory.accesses ≤ writesTo a n.accesses + 1 := by
  cases action <;> cases o <;>
    simp [Action.perform,Operand.load,Operand.store,Stack.push,Stack.pull,Stack.pushWord,Stack.pullWord,
      AddressSpace.read,AddressSpace.write,outside]
  all_goals split <;> simp

theorem interrupt_writesTo (a : UInt16) (outside : ∀ r : Registers, r.stackTop ≠ a) (vector : UInt16) (cpu : Cpu)
    (n : Recorded μ) : writesTo a (cpu.interrupt vector n).2.accesses = writesTo a n.accesses := by
  simp [Cpu.interrupt,Stack.pushWord,Stack.push,AddressSpace.readWord,AddressSpace.read,AddressSpace.write,outside]

end Famicom
