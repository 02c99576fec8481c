import Famicom.Proofs.CommandLine.Lines
import Famicom.Proofs.Console.Peeking
import Famicom.Proofs.Cpu.Cycles
import Famicom.Proofs.Cpu.ProgramCounter

namespace Famicom

open AddressSpace

theorem lines_last {ls : List String} {l : String} (last : ls.getLast? = some l) :
    ∃ above, lines ls = above ++ (l ++ "\n") := by
  obtain ⟨before,rfl⟩ := List.getLast?_eq_some_iff.mp last
  refine ⟨lines before,?_⟩
  rw [lines,lines,List.map_append,String.join,List.foldl_append]
  rfl

theorem disassemble_unknown {b : Bus} {pc : UInt16} (unknown : decode (b.peek pc) = none) :
    disassemble b pc = unknownLine pc (b.peek pc) := by
  simp only [disassemble,unknown]
  rfl

theorem disassemble_known {b : Bus} {pc : UInt16} {i : Instruction} (known : decode (b.peek pc) = some i) :
    disassemble b pc = knownLine pc (instructionBytes b pc i) i := by
  simp only [disassemble,known]
  rfl

def readsFrom (b : Bus) (pc : UInt16) (n : Nat) : List Access :=
  (List.range n).map fun k => .read (pc + UInt16.ofNat k) (b.peek (pc + UInt16.ofNat k))

theorem readsFrom_some (b : Bus) (pc : UInt16) :
    readsFrom b pc 1 = [.read pc (b.peek pc)] ∧
      readsFrom b pc 2 = [.read pc (b.peek pc),.read (pc + 1) (b.peek (pc + 1))] ∧
      readsFrom b pc 3 =
        [.read pc (b.peek pc),.read (pc + 1) (b.peek (pc + 1)),.read (pc + 2) (b.peek (pc + 2))] := by
  simp [readsFrom,List.range_succ]

theorem instructionBytes_reads (b : Bus) (pc : UInt16) (i : Instruction) :
    (instructionBytes b pc i).mapIdx (fun k v => Access.read (pc + UInt16.ofNat k) v) =
      readsFrom b pc (i.mode.operandLength + 1) := by
  apply List.ext_getElem
  · simp [instructionBytes,readsFrom]
  · intro k first second
    simp [instructionBytes,readsFrom]

theorem instructionBytes_next (b : Bus) (pc : UInt16) (i : Instruction) :
    pc + UInt16.ofNat (instructionBytes b pc i).length = pc + 1 + UInt16.ofNat i.mode.operandLength := by
  rw [instructionBytes,List.length_map,List.length_range,UInt16.ofNat_add]
  grind

theorem Bus.read_quiet (b : Bus) {a : UInt16} (outside : ¬ (0x2000 ≤ a ∧ a < 0x4000)) : b.read a = (b.peek a,b) := by
  have report : ¬ Bus.ShowsReport a := fun shows => outside ⟨shows.1,shows.2.1⟩
  have data : ¬ Bus.ShowsData a := fun shows => outside ⟨shows.1,shows.2.1⟩
  have leaves : (b.read a).2 = b := by
    rw [b.read_leaves,Bus.afterRead,if_neg report,if_neg data]
  exact Prod.ext (b.read_peek a) leaves

theorem recorded_quiet (b : Bus) {a : UInt16} (outside : ¬ (0x2000 ≤ a ∧ a < 0x4000)) (seen : List Access) :
    AddressSpace.read (⟨b,seen⟩ : Recorded Bus) a = (b.peek a,⟨b,.read a (b.peek a) :: seen⟩) := by
  show ((b.read a).1,(⟨(b.read a).2,.read a (b.read a).1 :: seen⟩ : Recorded Bus)) = _
  rw [b.read_quiet outside]

theorem Mnemonic.steers_cases (mnemonic : Mnemonic) (steers : mnemonic.steers = true) :
    mnemonic ∈ [.jmp,.jsr,.rts,.rti] ∨ ∃ taken, mnemonic.action = .branch taken := by
  cases mnemonic with
  | jmp | jsr | rts | rti => exact .inl (by decide)
  | bcc | bcs | bne | beq | bpl | bmi | bvc | bvs => exact .inr ⟨_,rfl⟩
  | _ => cases steers

namespace Cpu

variable (cpu : Cpu) (b : Bus) (i : Instruction)

-- The bytes that an instruction can have lie outside of the picture processor's registers.
def Outside : Prop :=
  let pc := cpu.registers.pc
  ∀ a ∈ [pc,pc + 1,pc + 2], ¬ (0x2000 ≤ a ∧ a < 0x4000)

theorem located_reads (outside : cpu.Outside) (other : i.mode ≠ .immediate) :
    ∃ pointed, (cpu.located (⟨b,[]⟩ : Recorded Bus) i).memory.accesses =
      pointed ++ (readsFrom b cpu.registers.pc (i.mode.operandLength + 1)).reverse := by
  -- The cases are the modes, by the length of their operands. A pointer is read behind its own bytes.
  have opcode := recorded_quiet b (outside cpu.registers.pc (by simp))
  have first := recorded_quiet b (outside (cpu.registers.pc + 1) (by simp))
  have second := recorded_quiet b (outside (cpu.registers.pc + 2) (by simp))
  have next : cpu.registers.pc + 1 + 1 = cpu.registers.pc + 2 := UInt16.add_assoc ..
  obtain ⟨one,two,three⟩ := readsFrom_some b cpu.registers.pc
  cases mode : i.mode with
  | implied | accumulator =>
      simp only [located,mode,Mode.locate,Mode.operandLength,opcode,one]
      exact ⟨[],rfl⟩
  | immediate => exact absurd mode other
  | zeroPage | zeroPageX | zeroPageY | relative =>
      simp only [located,mode,Mode.locate,Mode.operandLength,fetch,opcode,first,two]
      exact ⟨[],rfl⟩
  | absolute | absoluteX | absoluteY =>
      simp only [located,mode,Mode.locate,Mode.operandLength,fetchWord,fetch,indexed,opcode,first,second,next,three]
      exact ⟨[],rfl⟩
  | indirectX | indirectY =>
      simp only [located,mode,Mode.locate,Mode.operandLength,fetch,readZeroPageWord,indexed,opcode,first,two]
      exact ⟨[_,_],rfl⟩
  | indirect =>
      simp only [located,mode,Mode.locate,Mode.operandLength,fetchWord,fetch,readPointerWord,opcode,first,second,next,
        three]
      exact ⟨[_,_],rfl⟩

-- An immediate operand is read by the action, which is a load.
theorem performed_reads (outside : cpu.Outside) (takes : i.mnemonic.action.takes i.mode = true) :
    ∃ rest, (cpu.performed (⟨b,[]⟩ : Recorded Bus) i).memory.accesses =
      rest ++ (readsFrom b cpu.registers.pc (i.mode.operandLength + 1)).reverse := by
  by_cases immediate : i.mode = .immediate
  · have opcode := recorded_quiet b (outside cpu.registers.pc (by simp))
    have first := recorded_quiet b (outside (cpu.registers.pc + 1) (by simp))
    rw [immediate] at takes ⊢
    cases acts : i.mnemonic.action with
    | load update =>
        simp only [performed,located,acts,immediate,Mode.locate,Mode.operandLength,Action.perform,Operand.load,opcode,
          first,(readsFrom_some b cpu.registers.pc).2.1]
        exact ⟨[],rfl⟩
    | _ =>
        rw [acts] at takes
        cases takes
  · exact (recorded_kept _).perform _ _ _ (cpu.located_reads b i outside immediate)

end Cpu

namespace Cpu

variable {cpu : Cpu} {b : Bus}

theorem step_printed (outside : cpu.Outside) {i : Instruction} (known : decode (b.peek cpu.registers.pc) = some i) :
    ∃ rest, (cpu.step (⟨b,[]⟩ : Recorded Bus)).memory.trace =
      readsFrom b cpu.registers.pc (i.mode.operandLength + 1) ++ rest := by
  have fetched : decode (AddressSpace.read (⟨b,[]⟩ : Recorded Bus) cpu.registers.pc).1 = some i := by
    rw [recorded_quiet b (outside cpu.registers.pc (by simp))]
    exact known
  obtain ⟨rest,reads⟩ := cpu.performed_reads b i outside (decode_takes _ _ known)
  have whole : (cpu.step (⟨b,[]⟩ : Recorded Bus)).memory.accesses =
      (cpu.performed (⟨b,[]⟩ : Recorded Bus) i).memory.accesses := by
    rw [cpu.step_known _ i fetched]
    rfl
  refine ⟨rest.reverse,?_⟩
  rw [Recorded.trace,whole,reads,List.reverse_append,List.reverse_reverse]

-- Of the instructions that can go elsewhere, a branch that is not taken goes on.
theorem performed_next (i : Instruction) (takes : i.mnemonic.action.takes i.mode = true)
    (stays : i.mnemonic ∉ [.jmp,.jsr,.rts,.rti]) (untaken : i.mnemonic.branches cpu.registers.p = false) :
    (cpu.performed b i).registers.pc = cpu.registers.pc + 1 + UInt16.ofNat i.mode.operandLength := by
  cases steers : i.mnemonic.steers with
  | false => exact cpu.performed_straight b i steers
  | true =>
      rcases i.mnemonic.steers_cases steers with far | ⟨taken,acts⟩
      · exact absurd far stays
      · rw [acts] at takes
        rw [branches_action,acts] at untaken
        have relative : i.mode = .relative := eq_of_beq takes
        simp only [performed,located,acts,relative,Mode.locate,fetch,Action.perform,untaken]
        rfl

end Cpu

namespace Machine

theorem peeks_answered (m : Machine) (addresses : List UInt16) :
    let asked := addresses.map fun a => Request.touch (.peek a)
    m.serveAll asked = m ∧ m.transcript asked = addresses.map fun a => (.byte (m.bus.peek a),[]) := by
  induction addresses with
  | nil => exact ⟨rfl,rfl⟩
  | cons a addresses ih => exact ⟨ih.1,congrArg (_ :: ·) ih.2⟩

theorem next_unknown (m : Machine) (opcode : UInt8) :
    Spells (unknownRow m.cpu.registers.pc opcode) (disassemble m.bus m.cpu.registers.pc) ↔
      (m.cpu.step m.bus).outcome = .error ⟨opcode,m.cpu.registers.pc⟩ := by
  have fetched : (AddressSpace.read m.bus m.cpu.registers.pc).1 = m.bus.peek m.cpu.registers.pc := m.bus.read_peek _
  have asked := unknownLine_spelled m.cpu.registers.pc opcode
  cases decoded : decode (m.bus.peek m.cpu.registers.pc) with
  | none =>
      have fault := m.cpu.step_unknown m.bus (by rw [fetched,decoded])
      rw [disassemble_unknown decoded,fault,fetched]
      constructor
      · intro spelled
        rw [unknownLine_injective (spelled.unique asked)]
      · rintro ⟨⟩
        exact asked
  | some i =>
      have goes := m.cpu.step_known m.bus i (by rw [fetched,decoded])
      rw [disassemble_known decoded,goes]
      constructor
      · intro spelled
        exact absurd (spelled.unique asked) (knownLine_other _ _ _ i opcode)
      · intro fault
        cases fault

theorem next_known (m : Machine) {spent : UInt32} (goes : (m.cpu.step m.bus).outcome = .ok spent) :
    ∃ i, decode (m.bus.peek m.cpu.registers.pc) = some i ∧
      (m.cpu.step m.bus).cpu.registers = (m.cpu.performed m.bus i).registers ∧
      (m.cpu.step m.bus).memory = (takeStall (m.cpu.performed m.bus i).memory).2 := by
  have fetched : (AddressSpace.read m.bus m.cpu.registers.pc).1 = m.bus.peek m.cpu.registers.pc := m.bus.read_peek _
  cases decoded : decode (m.bus.peek m.cpu.registers.pc) with
  | none =>
      rw [m.cpu.step_unknown m.bus (by rw [fetched,decoded])] at goes
      cases goes
  | some i =>
      have known := m.cpu.step_known m.bus i (by rw [fetched,decoded])
      refine ⟨i,rfl,?_,?_⟩
      · rw [known]
      · rw [known]

-- The line for the next instruction is what the next step does, and it is the line of no other instruction.
theorem next_told (m : Machine) (outside : m.cpu.Outside) :
    let pc := m.cpu.registers.pc
    let step := m.cpu.step m.bus
    let line := disassemble m.bus pc
    (∃ above, m.dumpCpu = above ++ ("  Next: " ++ line ++ "\n")) ∧
      (∀ addresses : List UInt16, let asked := addresses.map fun a => Request.touch (.peek a)
        m.serveAll asked = m ∧ m.transcript asked = addresses.map fun a => (.byte (m.bus.peek a),[])) ∧
      (∀ opcode, Spells (unknownRow pc opcode) line ↔ step.outcome = .error ⟨opcode,pc⟩) ∧
      ∀ spent, step.outcome = .ok spent → ∃ i bytes rest,
        Spells (knownRow pc bytes i) line ∧
          (∀ pc' bytes' i', Spells (knownRow pc' bytes' i') line →
            bytes' = bytes ∧ i'.mnemonic = i.mnemonic ∧ i'.mode = i.mode) ∧
          step.cpu.registers = (m.cpu.performed m.bus i).registers ∧
          step.memory = (takeStall (m.cpu.performed m.bus i).memory).2 ∧
          (m.cpu.step (⟨m.bus,[]⟩ : Recorded Bus)).memory.trace =
            bytes.mapIdx (fun k v => .read (pc + UInt16.ofNat k) v) ++ rest ∧
          (m.cpu.located m.bus i).registers.pc = pc + UInt16.ofNat bytes.length ∧
          (i.mnemonic ∉ [.jmp,.jsr,.rts,.rti] → i.mnemonic.branches m.cpu.registers.p = false →
            step.cpu.registers.pc = pc + UInt16.ofNat bytes.length) := by
  intro pc step line
  refine ⟨lines_last rfl,m.peeks_answered,m.next_unknown,?_⟩
  intro spent goes
  obtain ⟨i,decoded,registers,memory⟩ := m.next_known goes
  obtain ⟨rest,trace⟩ := Cpu.step_printed outside decoded
  have shown : line = knownLine pc (instructionBytes m.bus pc i) i := disassemble_known decoded
  refine ⟨i,instructionBytes m.bus pc i,rest,?_,?_,registers,memory,?_,?_,?_⟩
  · rw [shown]
    exact knownLine_spelled ..
  · intro pc' bytes' i' spelled
    -- Each row has one spelling, so that two rows of one line have equal spellings, and a spelling tells its row.
    rw [shown] at spelled
    exact knownLine_injective ((knownLine_spelled pc' bytes' i').unique spelled)
  · rw [instructionBytes_reads]
    exact trace
  · rw [instructionBytes_next,m.cpu.located_registers]
  · intro stays untaken
    rw [instructionBytes_next,show step.cpu.registers = _ from registers]
    exact Cpu.performed_next i (decode_takes _ _ decoded) stays untaken

-- An instruction behind the end of the address space has its operand at the start.
def wrapped : Machine where
  cpu := {registers := {pc := 0xFFFF}}
  bus := {Bus.around
    {header := ⟨1,1,0,0⟩,trainer := none,prg := #[0xAD],chr := #[0]
     chrWritable := false,ram := none,mapper := .nrom} with
    ram := ((Vector.replicate 0x800 0).setIfInBounds 0 0x34).setIfInBounds 1 0x12}

theorem wrapped_told :
    wrapped.cpu.Outside ∧ disassemble wrapped.bus 0xFFFF = "$FFFF  AD 34 12  LDA Absolute" ∧
      ∃ i rest, i.mnemonic = .lda ∧ i.mode = .absolute ∧
        (wrapped.cpu.step wrapped.bus).cpu.registers = (wrapped.cpu.performed wrapped.bus i).registers ∧
        (wrapped.cpu.step (⟨wrapped.bus,[]⟩ : Recorded Bus)).memory.trace =
          [.read 0xFFFF 0xAD,.read 0x0000 0x34,.read 0x0001 0x12] ++ rest := by
  have outside : wrapped.cpu.Outside := by
    simp only [Cpu.Outside,List.forall_mem_cons]
    exact ⟨by decide,by decide,by decide,nofun⟩
  have decoded : decode (wrapped.bus.read 0xFFFF).1 = some ⟨.lda,.absolute,4,false⟩ := by
    decide +kernel
  have goes := congrArg Stepped.outcome (wrapped.cpu.step_known wrapped.bus _ decoded)
  have line : disassemble wrapped.bus 0xFFFF = "$FFFF  AD 34 12  LDA Absolute" := by
    decide +kernel
  have spelled := knownLine_spelled 0xFFFF [0xAD,0x34,0x12] ⟨.lda,.absolute,4,false⟩
  rw [show knownLine _ _ _ = disassemble wrapped.bus 0xFFFF by rw [line]; decide +kernel] at spelled
  obtain ⟨i,bytes,rest,_,only,registers,_,trace,_⟩ := (next_told wrapped outside).2.2.2 _ goes
  obtain ⟨rfl,mnemonic,mode⟩ := only _ _ _ spelled
  exact ⟨outside,line,i,rest,mnemonic.symm,mode.symm,registers,trace⟩

end Machine
end Famicom
