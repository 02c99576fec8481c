import Famicom.Cpu.Step

namespace Famicom

open AddressSpace

def Mode.addressed : Mode → Bool
  | implied | accumulator | immediate | indirect | relative => false
  | zeroPage | zeroPageX | zeroPageY | absolute | absoluteX | absoluteY | indirectX | indirectY => true

def Action.takes (action : Action) (mode : Mode) : Bool :=
  match action with
  | .load _ => mode.addressed || mode == .immediate
  | .store _ => mode.addressed
  | .modify _ => mode.addressed || mode == .accumulator
  | .branch _ => mode == .relative
  | .jump => mode == .absolute || mode == .indirect
  | .call => mode == .absolute
  | .internal _ | .push _ | .pull _ | .returnCall | .returnInterrupt => mode == .implied

theorem decode_takes (opcode : UInt8) (i : Instruction) (decoded : decode opcode = some i) :
    i.mnemonic.action.takes i.mode = true := by
  have all : ∀ n : Fin 256,
      (decode (UInt8.ofFin n)).all (fun i => i.mnemonic.action.takes i.mode) = true := by decide +kernel
  have here : (decode opcode).all (fun i => i.mnemonic.action.takes i.mode) = true := all opcode.toFin
  rw [decoded] at here
  exact here

variable {μ : Type} [AddressSpace μ]

theorem locate_registers (mode : Mode) (r : Registers) (m : μ) :
    (mode.locate r m).registers = {r with pc := r.pc + UInt16.ofNat mode.operandLength} := by
  cases mode <;> simp [Mode.locate,Mode.operandLength,fetch,fetchWord,indexed,UInt16.add_assoc]

theorem locate_operand (mode : Mode) (r : Registers) (m : μ) :
    mode = .implied ∧ (mode.locate r m).operand = .nothing ∨
      mode = .accumulator ∧ (mode.locate r m).operand = .accumulator ∨
      mode ≠ .implied ∧ mode ≠ .accumulator ∧ ∃ a, (mode.locate r m).operand = .memory a := by
  cases mode <;> simp [Mode.locate,indexed]

namespace Cpu

def located (cpu : Cpu) (m : μ) (i : Instruction) : Located μ :=
  i.mode.locate {cpu.registers with pc := cpu.registers.pc + 1} (AddressSpace.read m cpu.registers.pc).2

def performed (cpu : Cpu) (m : μ) (i : Instruction) : Performed μ :=
  i.mnemonic.action.perform (cpu.located m i).operand (cpu.located m i).registers (cpu.located m i).memory

-- The cycles of a step beside those that the memory holds it up for.
def cost (cpu : Cpu) (m : μ) (i : Instruction) : UInt32 :=
  i.cycles + (if i.pagePenalty && (cpu.located m i).crossed then 1 else 0) + (cpu.performed m i).extra

theorem step_unknown (cpu : Cpu) (m : μ)
    (unknown : decode (AddressSpace.read m cpu.registers.pc).1 = none) :
    cpu.step m = ⟨.error ⟨(AddressSpace.read m cpu.registers.pc).1,cpu.registers.pc⟩,
      {registers := {cpu.registers with pc := cpu.registers.pc + 1}
       cycles := cpu.cycles + unknownOpcodeCycles
       instructions := cpu.instructions + 1},
      (AddressSpace.read m cpu.registers.pc).2⟩ := by
  simp only [step,fetch,unknown]

theorem step_known (cpu : Cpu) (m : μ) (i : Instruction)
    (known : decode (AddressSpace.read m cpu.registers.pc).1 = some i) :
    cpu.step m =
      ⟨.ok (cpu.cost m i + (takeStall (cpu.performed m i).memory).1),
       {registers := (cpu.performed m i).registers
        cycles := cpu.cycles + (cpu.cost m i + (takeStall (cpu.performed m i).memory).1).toUInt64
        instructions := cpu.instructions + 1},
       (takeStall (cpu.performed m i).memory).2⟩ := by
  simp only [step,fetch,known]
  rfl

theorem located_registers (cpu : Cpu) (m : μ) (i : Instruction) :
    (cpu.located m i).registers =
      {cpu.registers with pc := cpu.registers.pc + 1 + UInt16.ofNat i.mode.operandLength} :=
  locate_registers i.mode _ _

end Cpu
end Famicom
