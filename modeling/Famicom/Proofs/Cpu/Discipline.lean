import Famicom.Proofs.Cpu.Decoding
import Famicom.Proofs.Cpu.Faithful

namespace Famicom

def lastRead? (seen : List Access) : Option UInt8 :=
  match seen with
  | .read _ v :: _ => some v
  | _ => none

def lastWritten? (seen : List Access) : Option UInt8 :=
  match seen with
  | .write _ v :: _ => some v
  | _ => none

-- The byte that the zero and negative flags judge. Accesses stand newest first.
def result? (i : Instruction) (before after : Registers) (seen : List Access) : Option UInt8 :=
  match i.mnemonic with
  | .lda | .txa | .tya | .pla | .and | .eor | .ora | .adc | .sbc => some after.a
  | .ldx | .tax | .tsx | .inx | .dex => some after.x
  | .ldy | .tay | .iny | .dey => some after.y
  | .cmp => (lastRead? seen).map (before.a - ·)
  | .cpx => (lastRead? seen).map (before.x - ·)
  | .cpy => (lastRead? seen).map (before.y - ·)
  | .inc | .dec => lastWritten? seen
  | .asl | .lsr | .rol | .ror => if i.mode = .accumulator then some after.a else lastWritten? seen
  | _ => none

def statusPulled? (mnemonic : Mnemonic) (seen : List Access) : Option UInt8 :=
  match mnemonic with
  | .plp => lastRead? seen
  | .rti => lastRead? (seen.drop 2)
  | _ => none

def stackPointerAfter (mnemonic : Mnemonic) (r : Registers) : UInt8 :=
  match mnemonic with
  | .txs => r.x
  | .pha | .php => r.sp - 1
  | .pla | .plp => r.sp + 1
  | .jsr => r.sp - 2
  | .rts => r.sp + 2
  | .rti => r.sp + 3
  | _ => r.sp

structure Disciplined (i : Instruction) (r r' : Registers) (seen : List Access) : Prop where
  a : r'.a ≠ r.a → i.mnemonic ∈ [.lda,.txa,.tya,.pla,.and,.eor,.ora,.adc,.sbc] ∨
    i.mode = .accumulator ∧ i.mnemonic ∈ [.asl,.lsr,.rol,.ror]
  x : r'.x ≠ r.x → i.mnemonic ∈ [.ldx,.tax,.tsx,.inx,.dex]
  y : r'.y ≠ r.y → i.mnemonic ∈ [.ldy,.tay,.iny,.dey]
  sp : r'.sp = stackPointerAfter i.mnemonic r
  carry : r'.p.carry ≠ r.p.carry →
    i.mnemonic ∈ [.adc,.sbc,.cmp,.cpx,.cpy,.asl,.lsr,.rol,.ror,.clc,.sec,.plp,.rti]
  overflow : r'.p.overflow ≠ r.p.overflow → i.mnemonic ∈ [.adc,.sbc,.bit,.clv,.plp,.rti]
  decimal : r'.p.decimal ≠ r.p.decimal → i.mnemonic ∈ [.sed,.cld,.plp,.rti]
  interruptDisable : r'.p.interruptDisable ≠ r.p.interruptDisable → i.mnemonic ∈ [.sei,.cli,.plp,.rti]
  brk : r'.p.brk = match i.mnemonic with | .brk => true | .plp | .rti => false | _ => r.p.brk
  unused : r'.p.unused = match i.mnemonic with | .plp | .rti => true | _ => r.p.unused
  judged : ∀ v, result? i r r' seen = some v → r'.p.zero = (v == 0) ∧ r'.p.negative = hasBit v 0x80
  tested : i.mnemonic = .bit → ∃ v, lastRead? seen = some v ∧ r'.p.zero = (r.a &&& v == 0) ∧
    r'.p.negative = hasBit v 0x80 ∧ r'.p.overflow = hasBit v 0x40
  restored : i.mnemonic ∈ [.plp,.rti] → ∃ v, statusPulled? i.mnemonic seen = some v ∧
    r'.p = {Status.ofByte v with brk := false,unused := true}
  unjudged : result? i r r' seen = none → i.mnemonic ∉ [.bit,.plp,.rti] →
    r'.p.zero = r.p.zero ∧ r'.p.negative = r.p.negative

-- The accumulator is the operand of shifts only.
theorem decode_accumulator (opcode : UInt8) (i : Instruction) (decoded : decode opcode = some i)
    (accumulator : i.mode = .accumulator) : i.mnemonic ∈ [.asl,.lsr,.rol,.ror] := by
  have all : ∀ n : Fin 256, (decode (UInt8.ofFin n)).all
      (fun i => i.mode != .accumulator || [Mnemonic.asl,.lsr,.rol,.ror].contains i.mnemonic) = true := by
    decide +kernel
  have here : (decode opcode).all
      (fun i => i.mode != .accumulator || [Mnemonic.asl,.lsr,.rol,.ror].contains i.mnemonic) = true :=
    all opcode.toFin
  simpa [decoded,accumulator] using here

variable {μ : Type} [AddressSpace μ]

theorem perform_disciplined (mnemonic : Mnemonic) (mode : Mode) (cycles : UInt32) (paged : Bool)
    (o : Operand) (r : Registers) (m : Recorded μ) (takes : mnemonic.action.takes mode = true)
    (shifts : mode = .accumulator → mnemonic ∈ [.asl,.lsr,.rol,.ror])
    (shape : mode = .implied ∧ o = .nothing ∨ mode = .accumulator ∧ o = .accumulator ∨
      mode ≠ .implied ∧ mode ≠ .accumulator ∧ ∃ a, o = .memory a) :
    Disciplined ⟨mnemonic,mode,cycles,paged⟩ r (mnemonic.action.perform o r m).registers
      (mnemonic.action.perform o r m).memory.accesses := by
  -- The cases are the mnemonics, gathered by the way their actions reach registers and memory.
  cases mnemonic with
  | lda | ldx | ldy | and | eor | ora | bit | adc | sbc | cmp | cpx | cpy =>
      rcases shape with ⟨rfl,_⟩ | ⟨rfl,_⟩ | ⟨_,_,a,rfl⟩
      · cases takes
      · cases takes
      · simp only [Mnemonic.action,Action.perform,Operand.load,AddressSpace.read,Registers.setA,Registers.setX,
          Registers.setY,Registers.add,Registers.subtract,Registers.compare,Registers.testBits,Status.judging]
        constructor <;> simp [result?,lastRead?,stackPointerAfter]
  | sta | stx | sty =>
      rcases shape with ⟨rfl,_⟩ | ⟨rfl,_⟩ | ⟨_,_,a,rfl⟩
      · cases takes
      · cases takes
      · simp only [Mnemonic.action,Action.perform,Operand.store]
        constructor <;> simp [result?,stackPointerAfter]
  | asl | lsr | rol | ror =>
      rcases shape with ⟨rfl,_⟩ | ⟨rfl,rfl⟩ | ⟨_,outside,a,rfl⟩
      · cases takes
      · simp only [Mnemonic.action,Action.perform,Operand.load,Operand.store,Status.judging]
        constructor <;> simp [result?,stackPointerAfter]
      · simp only [Mnemonic.action,Action.perform,Operand.load,Operand.store,AddressSpace.read,
          AddressSpace.write,Status.judging]
        constructor <;> simp [result?,lastWritten?,stackPointerAfter,outside]
  | inc | dec =>
      rcases shape with ⟨rfl,_⟩ | ⟨rfl,_⟩ | ⟨_,_,a,rfl⟩
      · cases takes
      · exact absurd (shifts rfl) (by decide)
      · simp only [Mnemonic.action,Action.perform,Operand.load,Operand.store,AddressSpace.read,
          AddressSpace.write,Status.judging]
        constructor <;> simp [result?,lastWritten?,stackPointerAfter]
  | tax | tay | tsx | txa | tya | inx | iny | dex | dey =>
      simp only [Mnemonic.action,Action.perform,Registers.setA,Registers.setX,Registers.setY,Status.judging]
      constructor <;> simp [result?,stackPointerAfter]
  | txs | clc | cld | cli | clv | sec | sed | sei | brk | nop =>
      simp only [Mnemonic.action,Action.perform,id]
      constructor <;> simp [result?,stackPointerAfter]
  | pha | php =>
      simp only [Mnemonic.action,Action.perform,Stack.push]
      constructor <;> simp [result?,stackPointerAfter]
  | pla | plp | rts | rti =>
      simp only [Mnemonic.action,Action.perform,Stack.pull,Stack.pullWord,AddressSpace.read,Registers.setA,
        Status.judging,Status.restored]
      constructor <;> simp [result?,statusPulled?,lastRead?,stackPointerAfter,UInt8.add_assoc]
  | jsr =>
      rcases shape with ⟨rfl,_⟩ | ⟨rfl,_⟩ | ⟨_,_,a,rfl⟩
      · cases takes
      · cases takes
      · have twice : r.sp - 1 - 1 = r.sp - 2 := by grind
        simp only [Mnemonic.action,Action.perform,Stack.push,Stack.pushWord,twice]
        constructor <;> simp [result?,stackPointerAfter]
  | jmp =>
      rcases shape with ⟨rfl,_⟩ | ⟨rfl,_⟩ | ⟨_,_,a,rfl⟩
      · cases takes
      · cases takes
      · simp only [Mnemonic.action,Action.perform]
        constructor <;> simp [result?,stackPointerAfter]
  | bcc | bcs | beq | bmi | bne | bpl | bvc | bvs =>
      rcases shape with ⟨rfl,_⟩ | ⟨rfl,_⟩ | ⟨_,_,a,rfl⟩
      · cases takes
      · cases takes
      · simp only [Mnemonic.action,Action.perform]
        split <;> constructor <;> simp [result?,stackPointerAfter]

theorem performed_disciplined (cpu : Cpu) (m : Recorded μ) (i : Instruction)
    (known : decode (AddressSpace.read m cpu.registers.pc).1 = some i) :
    Disciplined i cpu.registers (cpu.performed m i).registers (cpu.performed m i).memory.accesses := by
  have done := perform_disciplined i.mnemonic i.mode i.cycles i.pagePenalty (cpu.located m i).operand
    (cpu.located m i).registers (cpu.located m i).memory (decode_takes _ _ known) (decode_accumulator _ _ known)
    (locate_operand _ _ _)
  rw [Cpu.located_registers] at done
  rw [Cpu.performed,Cpu.located_registers]
  exact ⟨done.a,done.x,done.y,done.sp,done.carry,done.overflow,done.decimal,done.interruptDisable,done.brk,
    done.unused,done.judged,done.tested,done.restored,done.unjudged⟩

theorem step_known_disciplined (cpu : Cpu) (m : μ) (i : Instruction)
    (known : decode (AddressSpace.read m cpu.registers.pc).1 = some i) :
    Disciplined i cpu.registers (cpu.step m).cpu.registers
      (cpu.step (⟨m,[]⟩ : Recorded μ)).memory.accesses := by
  have decoded : decode (AddressSpace.read (⟨m,[]⟩ : Recorded μ) cpu.registers.pc).1 = some i := known
  have same : (cpu.step m).cpu = (cpu.step (⟨m,[]⟩ : Recorded μ)).cpu :=
    (recorded_faithful.step cpu (⟨m,[]⟩ : Recorded μ)).2.1.symm
  rw [same,cpu.step_known (⟨m,[]⟩ : Recorded μ) i decoded]
  exact performed_disciplined cpu (⟨m,[]⟩ : Recorded μ) i decoded

end Famicom
