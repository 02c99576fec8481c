import Famicom.Proofs.Cpu.Decoding
import Famicom.Proofs.Cpu.Faithful

namespace Famicom.Accesses

open AddressSpace

def reads (m : FlatMemory) (cells : List UInt16) : List Access := cells.map fun a => .read a (m.get a)

section
variable (m : FlatMemory) (r : Registers)

def operandByte : UInt8 := m.get (r.pc + 1)

def operandWord : UInt16 := word (m.get (r.pc + 1)) (m.get (r.pc + 2))

-- An immediate operand is not read to find the data, because it is the data.
def operandCells (mode : Mode) : List UInt16 :=
  if mode = .immediate then [] else (List.range mode.operandLength).map fun k => r.pc + 1 + UInt16.ofNat k

-- The two cells of a pointer. No pointer crosses a page.
def pointerCells (mode : Mode) : List UInt16 :=
  match mode with
  | .indirect => [operandWord m r,operandWord m r / 256 * 256 + (operandWord m r + 1) % 256]
  | .indirectX => [(operandByte m r + r.x).toUInt16,(operandByte m r + r.x + 1).toUInt16]
  | .indirectY => [(operandByte m r).toUInt16,(operandByte m r + 1).toUInt16]
  | _ => []

def pointed (mode : Mode) : UInt16 :=
  match pointerCells m r mode with
  | [lo,hi] => word (m.get lo) (m.get hi)
  | _ => 0

def dataCell? (mode : Mode) : Option UInt16 :=
  match mode with
  | .immediate => some (r.pc + 1)
  | .zeroPage => some (operandByte m r).toUInt16
  | .zeroPageX => some (operandByte m r + r.x).toUInt16
  | .zeroPageY => some (operandByte m r + r.y).toUInt16
  | .absolute => some (operandWord m r)
  | .absoluteX => some (operandWord m r + r.x.toUInt16)
  | .absoluteY => some (operandWord m r + r.y.toUInt16)
  | .indirectX => some (pointed m r .indirectX)
  | .indirectY => some (pointed m r .indirectY + r.y.toUInt16)
  | .implied | .accumulator | .indirect | .relative => none

def dataAccesses (mnemonic : Mnemonic) (cell : UInt16) : List Access :=
  let v := m.get cell
  match mnemonic with
  | .lda | .ldx | .ldy | .and | .eor | .ora | .bit | .adc | .sbc | .cmp | .cpx | .cpy => [.read cell v]
  | .sta => [.write cell r.a]
  | .stx => [.write cell r.x]
  | .sty => [.write cell r.y]
  | .inc => [.read cell v,.write cell (v + 1)]
  | .dec => [.read cell v,.write cell (v - 1)]
  | .asl => [.read cell v,.write cell (v * 2)]
  | .lsr => [.read cell v,.write cell (v / 2)]
  | .rol => [.read cell v,.write cell (v * 2 + if r.p.carry then 1 else 0)]
  | .ror => [.read cell v,.write cell (v / 2 + if r.p.carry then 0x80 else 0)]
  | _ => []

def stackCell (sp : UInt8) : UInt16 := 0x0100 + sp.toUInt16

def stackAccesses (mnemonic : Mnemonic) : List Access :=
  match mnemonic with
  | .pha => [.write (stackCell r.sp) r.a]
  | .php => [.write (stackCell r.sp) (r.p.toByte ||| 0x30)]
  | .pla | .plp => reads m [stackCell (r.sp + 1)]
  | .jsr => [.write (stackCell r.sp) (highByte (r.pc + 2)),.write (stackCell (r.sp - 1)) (lowByte (r.pc + 2))]
  | .rts => reads m [stackCell (r.sp + 1),stackCell (r.sp + 2)]
  | .rti => reads m [stackCell (r.sp + 1),stackCell (r.sp + 2),stackCell (r.sp + 3)]
  | _ => []

def ofInstruction (i : Instruction) : List Access :=
  reads m (operandCells r i.mode) ++ reads m (pointerCells m r i.mode) ++
    ((dataCell? m r i.mode).map (dataAccesses m r i.mnemonic)).getD [] ++ stackAccesses m r i.mnemonic

def ofStep : List Access :=
  reads m [r.pc] ++ ((decode (m.get r.pc)).map (ofInstruction m r)).getD []

end

theorem pointer_wraps (lo hi : UInt8) :
    word (lowByte (word lo hi + 1)) hi = word lo hi / 256 * 256 + (word lo hi + 1) % 256 := by
  apply UInt16.toNat_inj.mp
  have := lo.toNat_lt
  have := hi.toNat_lt
  simp only [word_toNat,lowByte,UInt16.toNat_toUInt8,UInt16.toNat_add,UInt16.toNat_mul,UInt16.toNat_div,
    UInt16.toNat_mod,UInt16.reduceToNat]
  omega

theorem stackTop_eq (r : Registers) : r.stackTop = stackCell r.sp := by
  apply UInt16.toNat_inj.mp
  have := r.sp.toNat_lt
  simp only [Registers.stackTop,stackCell,word_toNat,UInt16.toNat_add,UInt8.toNat_toUInt16,
    UInt16.reduceToNat,UInt8.reduceToNat]
  omega

theorem saved_eq (p : Status) : p.saved = p.toByte ||| 0x30 := by
  obtain ⟨c,z,i,d,b,u,v,n⟩ := p
  revert c z i d b u v n
  decide

theorem bitIn_eq (carry : Bool) : carry.toUInt8 = if carry then 1 else 0 := by
  cases carry <;> rfl

theorem locate_recorded (m : FlatMemory) (r : Registers) (seen : List Access) (mode : Mode) :
    (mode.locate {r with pc := r.pc + 1} (⟨m,seen⟩ : Recorded FlatMemory)).memory =
      ⟨m,(reads m (operandCells r mode) ++ reads m (pointerCells m r mode)).reverse ++ seen⟩ ∧
    ∀ a, dataCell? m r mode = some a →
      (mode.locate {r with pc := r.pc + 1} (⟨m,seen⟩ : Recorded FlatMemory)).operand = .memory a := by
  have two : r.pc + 1 + 1 = r.pc + 2 := UInt16.add_assoc ..
  cases mode <;> simp [Mode.locate,fetch,fetchWord,indexed,readPointerWord,readZeroPageWord,operandCells,
    pointerCells,dataCell?,pointed,operandByte,operandWord,reads,AddressSpace.read,Mode.operandLength,two,
    pointer_wraps,List.range_succ]

-- A mode that an action with data takes has a cell for it, unless the data is the accumulator.
theorem dataCell?_addressed (m : FlatMemory) (r : Registers) (mode : Mode) (data : mode.addressed = true) :
    ∃ a, dataCell? m r mode = some a := by
  cases mode <;> simp [Mode.addressed,dataCell?] at data ⊢

theorem perform_recorded (m : FlatMemory) (r : Registers) (seen : List Access) (mnemonic : Mnemonic)
    (mode : Mode) (o : Operand) (takes : mnemonic.action.takes mode = true)
    (accumulator : mode = .accumulator → o = .accumulator)
    (data : ∀ a, dataCell? m r mode = some a → o = .memory a) :
    (mnemonic.action.perform o {r with pc := r.pc + 1 + UInt16.ofNat mode.operandLength}
      (⟨m,seen⟩ : Recorded FlatMemory)).memory.accesses =
      (((dataCell? m r mode).map (dataAccesses m r mnemonic)).getD [] ++ stackAccesses m r mnemonic).reverse ++
        seen := by
  -- The mnemonics that reach data in one way are one case, and so are those that use the stack alone.
  cases mnemonic with
  | lda | ldx | ldy | and | eor | ora | bit | adc | sbc | cmp | cpx | cpy =>
      have cell : ∃ a, dataCell? m r mode = some a := by
        rcases Bool.or_eq_true_iff.mp takes with addressed | immediate
        · exact dataCell?_addressed m r mode addressed
        · exact ⟨r.pc + 1,by rw [beq_iff_eq.mp immediate]; rfl⟩
      obtain ⟨a,cell⟩ := cell
      rw [data a cell,cell]
      rfl
  | sta | stx | sty =>
      obtain ⟨a,cell⟩ := dataCell?_addressed m r mode takes
      rw [data a cell,cell]
      rfl
  | inc | dec | asl | lsr | rol | ror =>
      rcases Bool.or_eq_true_iff.mp takes with addressed | inside
      · obtain ⟨a,cell⟩ := dataCell?_addressed m r mode addressed
        rw [data a cell,cell]
        simp [Mnemonic.action,Action.perform,Operand.load,Operand.store,AddressSpace.read,AddressSpace.write,
          dataAccesses,stackAccesses,shiftLeft,shiftRight,bitIn_eq]
      · have inside : mode = .accumulator := beq_iff_eq.mp inside
        rw [accumulator inside,inside]
        rfl
  | bcc | bcs | beq | bmi | bne | bpl | bvc | bvs =>
      have relative : mode = .relative := beq_iff_eq.mp takes
      subst relative
      cases o with
      | nothing => rfl
      | accumulator => rfl
      | memory target =>
          simp only [Mnemonic.action,Action.perform]
          split <;> rfl
  | jmp =>
      have nothing : ((dataCell? m r mode).map (dataAccesses m r .jmp)).getD [] = [] := by
        cases dataCell? m r mode <;> rfl
      rw [nothing]
      cases o <;> rfl
  | jsr =>
      have absolute : mode = .absolute := beq_iff_eq.mp takes
      subst absolute
      rw [data _ rfl]
      have last : r.pc + 1 + 2 - 1 = r.pc + 2 := by grind
      simp [Mnemonic.action,Action.perform,Stack.pushWord,Stack.push,AddressSpace.write,dataCell?,dataAccesses,
        stackAccesses,stackTop_eq,Mode.operandLength,last]
  | php | pha | pla | plp | rts | rti =>
      have implied : mode = .implied := beq_iff_eq.mp takes
      subst implied
      simp [Mnemonic.action,Action.perform,Stack.pullWord,Stack.pull,Stack.push,AddressSpace.write,
        AddressSpace.read,dataCell?,stackAccesses,stackTop_eq,saved_eq,reads,UInt8.add_assoc]
  | tax | tay | tsx | txa | txs | tya | inx | iny | dex | dey | clc | cld | cli | clv | sec | sed | sei | brk | nop =>
      have implied : mode = .implied := beq_iff_eq.mp takes
      subst implied
      rfl

theorem stall_accesses (m : Recorded FlatMemory) : (takeStall m).2.accesses = m.accesses := rfl

theorem located_recorded (cpu : Cpu) (m : FlatMemory) (seen : List Access) (i : Instruction) :
    cpu.located (⟨m,seen⟩ : Recorded FlatMemory) i =
      i.mode.locate {cpu.registers with pc := cpu.registers.pc + 1}
        (⟨m,.read cpu.registers.pc (m.get cpu.registers.pc) :: seen⟩ : Recorded FlatMemory) := rfl

theorem performed_recorded (cpu : Cpu) (m : FlatMemory) (seen : List Access) (i : Instruction)
    (takes : i.mnemonic.action.takes i.mode = true) :
    (cpu.performed (⟨m,seen⟩ : Recorded FlatMemory) i).memory.accesses =
      (ofInstruction m cpu.registers i).reverse ++ .read cpu.registers.pc (m.get cpu.registers.pc) :: seen := by
  obtain ⟨memory,cell⟩ := locate_recorded m cpu.registers
    (.read cpu.registers.pc (m.get cpu.registers.pc) :: seen) i.mode
  rw [← located_recorded cpu m seen i] at memory cell
  have inside : i.mode = .accumulator → (cpu.located (⟨m,seen⟩ : Recorded FlatMemory) i).operand = .accumulator := by
    intro accumulator
    rw [located_recorded,accumulator]
    rfl
  rw [Cpu.performed,Cpu.located_registers,memory,perform_recorded _ _ _ _ _ _ takes inside cell]
  simp only [ofInstruction,List.reverse_append,List.append_assoc]

theorem step_accesses (cpu : Cpu) (m : FlatMemory) (seen : List Access) :
    (cpu.step (⟨m,seen⟩ : Recorded FlatMemory)).memory.accesses = (ofStep m cpu.registers).reverse ++ seen := by
  have opcode : (AddressSpace.read (⟨m,seen⟩ : Recorded FlatMemory) cpu.registers.pc).1 = m.get cpu.registers.pc := rfl
  cases decoded : decode (m.get cpu.registers.pc) with
  | none =>
      rw [cpu.step_unknown (⟨m,seen⟩ : Recorded FlatMemory) (by rw [opcode,decoded])]
      simp only [ofStep,decoded]
      rfl
  | some i =>
      rw [cpu.step_known (⟨m,seen⟩ : Recorded FlatMemory) i (by rw [opcode,decoded])]
      simp only [ofStep,decoded,stall_accesses,performed_recorded cpu m seen i (decode_takes _ _ decoded)]
      simp [reads]

-- A step makes the accesses of its instruction, each once and in order. Recording them changes nothing else.
theorem step_trace (cpu : Cpu) (m : FlatMemory) :
    (cpu.step (⟨m,[]⟩ : Recorded FlatMemory)).memory.trace = ofStep m cpu.registers ∧
      (cpu.step (⟨m,[]⟩ : Recorded FlatMemory)).outcome = (cpu.step m).outcome ∧
      (cpu.step (⟨m,[]⟩ : Recorded FlatMemory)).cpu = (cpu.step m).cpu ∧
      (cpu.step (⟨m,[]⟩ : Recorded FlatMemory)).memory.memory = (cpu.step m).memory := by
  obtain ⟨outcome,registers,memory⟩ := recorded_faithful.step cpu (⟨m,[]⟩ : Recorded FlatMemory)
  refine ⟨?_,outcome,registers,memory⟩
  rw [Recorded.trace,step_accesses,List.append_nil,List.reverse_reverse]

end Famicom.Accesses
