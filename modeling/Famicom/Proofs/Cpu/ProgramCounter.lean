import Famicom.Proofs.Cpu.Accesses
import Famicom.Proofs.Cpu.Operations

namespace Famicom

open Accesses (stackCell)

variable {μ : Type} [AddressSpace μ]

-- Where an instruction leaves the program counter, told from the registers before it and from its accesses, oldest first.
def Lands (i : Instruction) (r : Registers) (trace : List Access) (pc : UInt16) : Prop :=
  match i.mnemonic with
  | .bcc | .bcs | .bne | .beq | .bpl | .bmi | .bvc | .bvs =>
    ∃ opcode distance, trace = [.read r.pc opcode,.read (r.pc + 1) distance] ∧
      pc = if i.mnemonic.branches r.p then r.pc + 2 + UInt16.ofInt distance.toInt8.toInt else r.pc + 2
  | .jmp =>
    ∃ opcode lo hi pointed, trace = .read r.pc opcode :: .read (r.pc + 1) lo :: .read (r.pc + 2) hi :: pointed ∧
      -- A pointer's high byte lies on the page of its low byte.
      if i.mode = .indirect then
        ∃ low high, pointed = [.read (word lo hi) low,.read (word (lo + 1) hi) high] ∧ pc = word low high
      else pointed = [] ∧ pc = word lo hi
  | .jsr =>
    ∃ opcode lo hi pushed, trace = .read r.pc opcode :: .read (r.pc + 1) lo :: .read (r.pc + 2) hi :: pushed ∧
      pc = word lo hi
  | .rts =>
    ∃ opcode lo hi, trace = [.read r.pc opcode,.read (stackCell (r.sp + 1)) lo,.read (stackCell (r.sp + 2)) hi] ∧
      pc = word lo hi + 1
  | .rti =>
    ∃ opcode status lo hi, trace = [.read r.pc opcode,.read (stackCell (r.sp + 1)) status,
      .read (stackCell (r.sp + 2)) lo,.read (stackCell (r.sp + 3)) hi] ∧ pc = word lo hi
  | .brk => pc = r.pc + 1
  | _ => pc = r.pc + 1 + UInt16.ofNat i.mode.operandLength

def opposites : List (Mnemonic × Mnemonic) := [(.bcc,.bcs),(.bne,.beq),(.bpl,.bmi),(.bvc,.bvs)]

theorem opposites_branch (p : Status) : ∀ pair ∈ opposites, pair.1.branches p = !pair.2.branches p := by
  intro pair among
  simp only [opposites,List.mem_cons,List.not_mem_nil,or_false] at among
  rcases among with rfl | rfl | rfl | rfl <;> simp [Mnemonic.branches]

theorem lowByte_next (lo hi : UInt8) : lowByte (word lo hi + 1) = lo + 1 := by
  apply UInt8.toNat_inj.mp
  simp only [lowByte,UInt16.toNat_toUInt8,UInt16.toNat_add,word_toNat,UInt8.toNat_add,UInt16.reduceToNat,
    UInt8.reduceToNat]
  omega

namespace Mnemonic

def steers (mnemonic : Mnemonic) : Bool :=
  match mnemonic with
  | .bcc | .bcs | .bne | .beq | .bpl | .bmi | .bvc | .bvs | .jmp | .jsr | .rts | .rti => true
  | _ => false

theorem perform_pc (mnemonic : Mnemonic) (straight : mnemonic.steers = false) (o : Operand) (r : Registers) (m : μ) :
    (mnemonic.action.perform o r m).registers.pc = r.pc := by
  cases mnemonic with
  | bcc | bcs | bne | beq | bpl | bmi | bvc | bvs | jmp | jsr | rts | rti => cases straight
  | sta | stx | sty | inc | dec | asl | lsr | rol | ror => cases o <;> rfl
  | lda | ldx | ldy | and | eor | ora | bit | adc | sbc | cmp | cpx | cpy => rfl
  | pha | php | pla | plp => rfl
  | tax | tay | tsx | txa | txs | tya | inx | iny | dex | dey => rfl
  | clc | cld | cli | clv | sec | sed | sei | brk | nop => rfl

end Mnemonic

namespace Cpu

variable (cpu : Cpu) (m : μ) (i : Instruction)

theorem performed_straight (straight : i.mnemonic.steers = false) :
    (cpu.performed m i).registers.pc = cpu.registers.pc + 1 + UInt16.ofNat i.mode.operandLength := by
  rw [performed,i.mnemonic.perform_pc straight,cpu.located_registers]

theorem performed_branch {taken : Status → Bool} (acts : i.mnemonic.action = .branch taken)
    (relative : i.mode = .relative) :
    let done := cpu.performed (⟨m,[]⟩ : Recorded μ) i
    ∃ opcode distance, done.memory.trace = [.read cpu.registers.pc opcode,.read (cpu.registers.pc + 1) distance] ∧
      done.registers.pc = if taken cpu.registers.p then cpu.registers.pc + 2 + UInt16.ofInt distance.toInt8.toInt
        else cpu.registers.pc + 2 := by
  have next : cpu.registers.pc + 1 + 1 = cpu.registers.pc + 2 := UInt16.add_assoc ..
  simp only [performed,located,acts,relative,Mode.locate,fetch,Action.perform,displacement_signed,next]
  cases taken cpu.registers.p with
  | true => exact ⟨_,_,rfl,rfl⟩
  | false => exact ⟨_,_,rfl,rfl⟩

theorem performed_jump (acts : i.mnemonic.action = .jump) (direct : i.mode = .absolute ∨ i.mode = .indirect) :
    let done := cpu.performed (⟨m,[]⟩ : Recorded μ) i
    ∃ opcode lo hi pointed, done.memory.trace = .read cpu.registers.pc opcode :: .read (cpu.registers.pc + 1) lo ::
        .read (cpu.registers.pc + 2) hi :: pointed ∧
      if i.mode = .indirect then
        ∃ low high, pointed = [.read (word lo hi) low,.read (word (lo + 1) hi) high] ∧
          done.registers.pc = word low high
      else pointed = [] ∧ done.registers.pc = word lo hi := by
  have next : cpu.registers.pc + 1 + 1 = cpu.registers.pc + 2 := UInt16.add_assoc ..
  rcases direct with absolute | indirect
  · simp only [performed,located,acts,absolute,Mode.locate,fetchWord,fetch,Action.perform,next]
    exact ⟨_,_,_,[],rfl,rfl,rfl⟩
  · simp only [performed,located,acts,indirect,Mode.locate,fetchWord,fetch,AddressSpace.readPointerWord,Action.perform,
      next,highByte_word,lowByte_next]
    exact ⟨_,_,_,_,rfl,_,_,rfl,rfl⟩

theorem performed_call (acts : i.mnemonic.action = .call) (absolute : i.mode = .absolute) :
    let done := cpu.performed (⟨m,[]⟩ : Recorded μ) i
    ∃ opcode lo hi pushed, done.memory.trace = .read cpu.registers.pc opcode :: .read (cpu.registers.pc + 1) lo ::
        .read (cpu.registers.pc + 2) hi :: pushed ∧ done.registers.pc = word lo hi := by
  have next : cpu.registers.pc + 1 + 1 = cpu.registers.pc + 2 := UInt16.add_assoc ..
  simp only [performed,located,acts,absolute,Mode.locate,fetchWord,fetch,Action.perform,next]
  exact ⟨_,_,_,_,rfl,rfl⟩

theorem performed_return (acts : i.mnemonic.action = .returnCall) (implied : i.mode = .implied) :
    let done := cpu.performed (⟨m,[]⟩ : Recorded μ) i
    ∃ opcode lo hi, done.memory.trace = [.read cpu.registers.pc opcode,.read (stackCell (cpu.registers.sp + 1)) lo,
        .read (stackCell (cpu.registers.sp + 2)) hi] ∧ done.registers.pc = word lo hi + 1 := by
  have second : cpu.registers.sp + 1 + 1 = cpu.registers.sp + 2 := UInt8.add_assoc ..
  simp only [performed,located,acts,implied,Mode.locate,Action.perform,Stack.pullWord,Stack.pull,
    Accesses.stackTop_eq,second]
  exact ⟨_,_,_,rfl,rfl⟩

theorem performed_interruptReturn (acts : i.mnemonic.action = .returnInterrupt) (implied : i.mode = .implied) :
    let done := cpu.performed (⟨m,[]⟩ : Recorded μ) i
    ∃ opcode status lo hi, done.memory.trace = [.read cpu.registers.pc opcode,
        .read (stackCell (cpu.registers.sp + 1)) status,.read (stackCell (cpu.registers.sp + 2)) lo,
        .read (stackCell (cpu.registers.sp + 3)) hi] ∧ done.registers.pc = word lo hi := by
  have second : cpu.registers.sp + 1 + 1 = cpu.registers.sp + 2 := UInt8.add_assoc ..
  have third : cpu.registers.sp + 2 + 1 = cpu.registers.sp + 3 := UInt8.add_assoc ..
  simp only [performed,located,acts,implied,Mode.locate,Action.perform,Stack.pullWord,Stack.pull,
    Accesses.stackTop_eq,second,third]
  exact ⟨_,_,_,_,rfl,rfl⟩

theorem performed_lands (takes : i.mnemonic.action.takes i.mode = true) :
    Lands i cpu.registers (cpu.performed (⟨m,[]⟩ : Recorded μ) i).memory.trace
      (cpu.performed (⟨m,[]⟩ : Recorded μ) i).registers.pc := by
  have straight := cpu.performed_straight (⟨m,[]⟩ : Recorded μ) i
  cases named : i.mnemonic with
  | bcc | bcs | bne | beq | bpl | bmi | bvc | bvs =>
      rw [named] at takes
      obtain ⟨opcode,distance,trace,pc⟩ := cpu.performed_branch m i (congrArg Mnemonic.action named) (eq_of_beq takes)
      simp only [Lands,named]
      exact ⟨opcode,distance,trace,pc⟩
  | jmp =>
      rw [named] at takes
      have direct : i.mode = .absolute ∨ i.mode = .indirect := by
        rcases Bool.or_eq_true_iff.mp takes with absolute | indirect
        · exact .inl (eq_of_beq absolute)
        · exact .inr (eq_of_beq indirect)
      simp only [Lands,named]
      exact cpu.performed_jump m i (congrArg Mnemonic.action named) direct
  | jsr =>
      rw [named] at takes
      simp only [Lands,named]
      exact cpu.performed_call m i (congrArg Mnemonic.action named) (eq_of_beq takes)
  | rts =>
      rw [named] at takes
      simp only [Lands,named]
      exact cpu.performed_return m i (congrArg Mnemonic.action named) (eq_of_beq takes)
  | rti =>
      rw [named] at takes
      simp only [Lands,named]
      exact cpu.performed_interruptReturn m i (congrArg Mnemonic.action named) (eq_of_beq takes)
  | brk =>
      rw [named] at takes straight
      have implied : i.mode = .implied := eq_of_beq takes
      have pc := straight rfl
      rw [implied] at pc
      simp only [Lands,named]
      exact pc.trans (UInt16.add_zero _)
  -- No other mnemonic steers.
  | _ =>
      rw [named] at straight
      simp only [Lands,named]
      exact straight rfl

theorem step_pc :
    match decode (AddressSpace.read m cpu.registers.pc).1 with
    | none => (cpu.step m).cpu.registers.pc = cpu.registers.pc + 1
    | some i => Lands i cpu.registers (cpu.step (⟨m,[]⟩ : Recorded μ)).memory.trace (cpu.step m).cpu.registers.pc := by
  cases decoded : decode (AddressSpace.read m cpu.registers.pc).1 with
  | none => rw [cpu.step_unknown m decoded]
  | some i =>
      have same : (cpu.step m).cpu = (cpu.step (⟨m,[]⟩ : Recorded μ)).cpu :=
        (recorded_faithful.step cpu (⟨m,[]⟩ : Recorded μ)).2.1.symm
      have recorded : decode (AddressSpace.read (⟨m,[]⟩ : Recorded μ) cpu.registers.pc).1 = some i := decoded
      rw [same,cpu.step_known (⟨m,[]⟩ : Recorded μ) i recorded]
      exact cpu.performed_lands m i (decode_takes _ _ decoded)

end Cpu

namespace Operation

def Result.Succeeds (result : Result) : Prop := ∃ spent, result = .stepped (.ok spent)

abbrev steps (n : Nat) : List Operation := List.replicate n .step

end Operation

open Operation (steps doneAll results)

namespace Cpu

-- A run of at most so many instructions has come to where some number of single steps comes to, which have succeeded
-- up to the last. It has ended early because that one failed, and otherwise has done them all.
structure RunsSteps (cpu : Cpu) (m : μ) (n k : Nat) : Prop where
  within : k ≤ n
  reaches : ((cpu.run m n).cpu,(cpu.run m n).memory) = doneAll cpu m (steps k)
  ends : match (cpu.run m n).fault with
    | none => k = n ∧ ∀ result ∈ results cpu m (steps k), result.Succeeds
    | some e => ∃ before, results cpu m (steps k) = before ++ [.stepped (.error e)] ∧
        ∀ result ∈ before, result.Succeeds

theorem run_steps (n : Nat) : ∀ (cpu : Cpu) (m : μ), ∃ k, cpu.RunsSteps m n k := by
  induction n with
  | zero =>
      intro cpu m
      exact ⟨0,Nat.le_refl 0,rfl,rfl,fun _ none => absurd none List.not_mem_nil⟩
  | succ n ih =>
      intro cpu m
      cases outcome : (cpu.step m).outcome with
      -- A failing step ends the run and counts as its last one.
      | error e =>
          have ran : cpu.run m (n + 1) = ⟨some e,(cpu.step m).cpu,(cpu.step m).memory⟩ := by
            rw [run_succ,outcome]
          have failed : results cpu m (steps 1) = [] ++ [.stepped (.error e)] :=
            congrArg (fun outcome => [Operation.Result.stepped outcome]) outcome
          refine ⟨1,Nat.succ_le_succ (Nat.zero_le n),?_,?_⟩
          · rw [ran]
            rfl
          · rw [ran]
            exact ⟨[],failed,fun _ none => absurd none List.not_mem_nil⟩
      | ok spent =>
          -- The rest of the run starts from where the first step has come to.
          obtain ⟨k,within,reaches,ends⟩ := ih (cpu.step m).cpu (cpu.step m).memory
          have ran : cpu.run m (n + 1) = (cpu.step m).cpu.run (cpu.step m).memory n := by
            rw [run_succ,outcome]
          have answered : results cpu m (steps (k + 1)) =
              .stepped (.ok spent) :: results (cpu.step m).cpu (cpu.step m).memory (steps k) :=
            congrArg (fun outcome => Operation.Result.stepped outcome ::
              results (cpu.step m).cpu (cpu.step m).memory (steps k)) outcome
          refine ⟨k + 1,Nat.succ_le_succ within,?_,?_⟩
          · rw [ran]
            exact reaches
          · rw [ran,answered]
            cases fault : ((cpu.step m).cpu.run (cpu.step m).memory n).fault with
            | none =>
                rw [fault] at ends
                obtain ⟨all,succeed⟩ := ends
                exact ⟨congrArg (· + 1) all,List.forall_mem_cons.mpr ⟨⟨spent,rfl⟩,succeed⟩⟩
            | some e =>
                rw [fault] at ends
                obtain ⟨before,failed,succeed⟩ := ends
                refine ⟨.stepped (.ok spent) :: before,?_,List.forall_mem_cons.mpr ⟨⟨spent,rfl⟩,succeed⟩⟩
                rw [failed,List.cons_append]

-- Where a step goes and how far a run gets, on any memory.
theorem step_lands (cpu : Cpu) (m : μ) :
    (match decode (AddressSpace.read m cpu.registers.pc).1 with
      | none => (cpu.step m).cpu.registers.pc = cpu.registers.pc + 1
      | some i => Lands i cpu.registers (cpu.step (⟨m,[]⟩ : Recorded μ)).memory.trace
          (cpu.step m).cpu.registers.pc) ∧
      (∀ p : Status, ∀ pair ∈ opposites, pair.1.branches p = !pair.2.branches p) ∧
      (cpu.step m).cpu.instructions = cpu.instructions + 1 ∧
      ∀ n, ∃ k, cpu.RunsSteps m n k :=
  ⟨cpu.step_pc m,opposites_branch,cpu.step_instructions m,fun n => run_steps n cpu m⟩

end Cpu
end Famicom
