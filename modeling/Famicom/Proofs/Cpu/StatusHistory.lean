import Famicom.Proofs.Cpu.Accesses
import Famicom.Proofs.Cpu.Discipline
import Famicom.Proofs.Cpu.Operations

namespace Famicom

open Accesses (stackCell)

variable {μ : Type} [AddressSpace μ]

-- What happens to a processor, with its registers before and the accesses made, newest first.
inductive Happening where
  | executed (i : Instruction) (before : Registers) (seen : List Access)
  | stumbled
  | interrupted (before : Registers) (seen : List Access)
  | refused
  | reset

namespace Happening

def breakSince (past : List Happening) : Bool :=
  match past with
  | [] => false
  | executed i _ _ :: rest =>
    match i.mnemonic with
    | .brk => true
    | .plp | .rti => false
    | _ => breakSince rest
  | reset :: _ => false
  | stumbled :: rest | interrupted .. :: rest | refused :: rest => breakSince rest

-- An interrupt was taken, and since then neither was the flag cleared nor a status restored that has bit 2 clear.
def masked (past : List Happening) : Bool :=
  match past with
  | [] => false
  | interrupted .. :: _ => true
  | executed i _ seen :: rest =>
    match i.mnemonic with
    | .cli => false
    | .plp | .rti => (statusPulled? i.mnemonic seen).any (·.toNat.testBit 2) && masked rest
    | _ => masked rest
  | stumbled :: rest | refused :: rest | reset :: rest => masked rest

def writes (seen : List Access) : List (UInt16 × UInt8) :=
  seen.reverse.filterMap fun access =>
    match access with
    | .read .. => none
    | .write a v => some (a,v)

-- A status that an instruction saves has bits 4 and 5 set, and one that an interrupt saves has bit 4 clear and bit 5
-- set. All other bits are those of the register.
def SavesStatus (h : Happening) : Prop :=
  match h with
  | executed i before seen =>
    i.mnemonic = .php → writes seen = [(stackCell before.sp,before.p.toByte ||| 0x30)]
  | interrupted before seen =>
    writes seen =
      [(stackCell before.sp,highByte before.pc),(stackCell (before.sp - 1),lowByte before.pc),
       (stackCell (before.sp - 2),before.p.toByte &&& 0xEF ||| 0x20)]
  | stumbled | refused | reset => True

end Happening

namespace Cpu

def stepping (cpu : Cpu) (m : μ) : Happening :=
  match decode (AddressSpace.read m cpu.registers.pc).1 with
  | some i => .executed i cpu.registers (cpu.step (⟨m,[]⟩ : Recorded μ)).memory.accesses
  | none => .stumbled

-- A run ends with the instruction that has no opcode.
def running (cpu : Cpu) (m : μ) (budget : Nat) : List Happening :=
  match budget with
  | 0 => []
  | budget + 1 =>
    match (cpu.step m).outcome with
    | .ok _ => (cpu.step m).cpu.running (cpu.step m).memory budget ++ [cpu.stepping m]
    | .error _ => [cpu.stepping m]

def interrupting (vector : UInt16) (cpu : Cpu) (m : μ) : Happening :=
  .interrupted cpu.registers (cpu.interrupt vector (⟨m,[]⟩ : Recorded μ)).2.accesses

end Cpu

namespace Operation

def happenings (op : Operation) (cpu : Cpu) (m : μ) : List Happening :=
  match op with
  | .step => [cpu.stepping m]
  | .run budget => cpu.running m budget
  | .nmi => [cpu.interrupting nmiVector m]
  | .irq => if cpu.registers.p.interruptDisable then [.refused] else [cpu.interrupting irqVector m]
  | .reset => [.reset]

def history (cpu : Cpu) (m : μ) (ops : List Operation) : List Happening :=
  match ops with
  | [] => []
  | op :: rest => history (op.done cpu m).1 (op.done cpu m).2 rest ++ op.happenings cpu m

end Operation

structure Tallies (p : Status) (past : List Happening) : Prop where
  unused : p.unused = true
  brk : p.brk = Happening.breakSince past
  masked : Happening.masked past = true → p.interruptDisable = true
  saves : ∀ h ∈ past, h.SavesStatus

theorem tallies_start : Tallies ({} : Cpu).registers.p [] where
  unused := rfl
  brk := rfl
  masked never := by cases never
  saves h among := by cases among

theorem Status.toByte_brk (p : Status) : p.toByte.toNat.testBit 4 = p.brk := by
  obtain ⟨c,z,i,d,b,u,v,n⟩ := p
  revert c z i d b u v n
  decide

theorem Status.toByte_unused (p : Status) : p.toByte.toNat.testBit 5 = p.unused := by
  obtain ⟨c,z,i,d,b,u,v,n⟩ := p
  revert c z i d b u v n
  decide

theorem Status.savedByInterrupt_eq (p : Status) : p.savedByInterrupt = p.toByte &&& 0xEF ||| 0x20 := by
  obtain ⟨c,z,i,d,b,u,v,n⟩ := p
  revert c z i d b u v n
  decide

namespace Cpu

variable (cpu : Cpu) (m : μ) (i : Instruction)

theorem php_writes (known : decode (AddressSpace.read m cpu.registers.pc).1 = some i) (saving : i.mnemonic = .php) :
    Happening.writes (cpu.step (⟨m,[]⟩ : Recorded μ)).memory.accesses =
      [(stackCell cpu.registers.sp,cpu.registers.p.toByte ||| 0x30)] := by
  have takes := decode_takes _ _ known
  rw [saving] at takes
  have implied : i.mode = .implied := eq_of_beq takes
  rw [cpu.step_known (⟨m,[]⟩ : Recorded μ) i known]
  simp [performed,located,saving,implied,Mode.locate,Mnemonic.action,Action.perform,Stack.push,AddressSpace.read,
    AddressSpace.write,AddressSpace.takeStall,Happening.writes,Accesses.stackTop_eq,Accesses.saved_eq]

theorem interrupt_writes (vector : UInt16) : (cpu.interrupting vector m).SavesStatus := by
  have twice : cpu.registers.sp - 1 - 1 = cpu.registers.sp - 2 := by grind
  simp [interrupting,Happening.SavesStatus,interrupt,Stack.pushWord,Stack.push,AddressSpace.readWord,AddressSpace.read,
    AddressSpace.write,Happening.writes,Accesses.stackTop_eq,Status.savedByInterrupt_eq,twice]

theorem sei_refuses (known : decode (AddressSpace.read m cpu.registers.pc).1 = some i) (refusing : i.mnemonic = .sei) :
    (cpu.step m).cpu.registers.p.interruptDisable = true := by
  rw [cpu.step_known m i known]
  simp [performed,refusing,Mnemonic.action,Action.perform]

end Cpu

namespace Tallies

variable {past : List Happening} {cpu : Cpu}

theorem executed_masked {m : μ} {i : Instruction} (h : Tallies cpu.registers.p past)
    (known : decode (AddressSpace.read m cpu.registers.pc).1 = some i) :
    Happening.masked (.executed i cpu.registers (cpu.step (⟨m,[]⟩ : Recorded μ)).memory.accesses :: past) = true →
      (cpu.step m).cpu.registers.p.interruptDisable = true := by
  have disciplined := step_known_disciplined cpu m i known
  intro still
  -- The flag can only have been cleared by one of the three that a mask ends with, and two of these restore a status.
  by_cases restores : i.mnemonic ∈ [.plp,.rti]
  · obtain ⟨v,pulled,status⟩ := disciplined.restored restores
    have set : v.toNat.testBit 2 = true := by
      simp only [List.mem_cons,List.not_mem_nil,or_false] at restores
      rcases restores with same | same <;>
        (simp only [Happening.masked,same] at still
         rw [← same,pulled] at still
         exact (Bool.and_eq_true_iff.mp still).1)
    rw [status]
    exact (hasBit_testBit v 2).trans set
  by_cases refusing : i.mnemonic = .sei
  · exact cpu.sei_refuses m i known refusing
  simp only [List.mem_cons,List.not_mem_nil,or_false,not_or] at restores
  rw [Happening.masked] at still
  split at still
  · cases still
  · exact absurd ‹_› restores.1
  · exact absurd ‹_› restores.2
  · rename_i clearing _ _
    rw [← h.masked still]
    refine Decidable.byContradiction fun changed => ?_
    have among := disciplined.interruptDisable changed
    simp only [List.mem_cons,List.not_mem_nil,or_false] at among
    rcases among with same | same | same | same
    · exact refusing same
    · exact clearing same
    · exact restores.1 same
    · exact restores.2 same

theorem step (h : Tallies cpu.registers.p past) (m : μ) :
    Tallies (cpu.step m).cpu.registers.p (cpu.stepping m :: past) := by
  cases decoded : decode (AddressSpace.read m cpu.registers.pc).1 with
  | none =>
      simp only [Cpu.stepping,decoded,cpu.step_unknown m decoded]
      exact ⟨h.unused,h.brk,h.masked,List.forall_mem_cons.mpr ⟨trivial,h.saves⟩⟩
  | some i =>
      have disciplined := step_known_disciplined cpu m i decoded
      simp only [Cpu.stepping,decoded]
      constructor
      · refine disciplined.unused.trans ?_
        split
        · rfl
        · rfl
        · exact h.unused
      · rw [disciplined.brk,h.brk]
        cases named : i.mnemonic <;> simp only [Happening.breakSince,named]
      · exact h.executed_masked decoded
      · exact List.forall_mem_cons.mpr ⟨cpu.php_writes m i decoded,h.saves⟩

theorem interrupt (h : Tallies cpu.registers.p past) (vector : UInt16) (m : μ) :
    Tallies (cpu.interrupt vector m).1.registers.p (cpu.interrupting vector m :: past) where
  unused := h.unused
  brk := h.brk
  masked _ := rfl
  saves := List.forall_mem_cons.mpr ⟨cpu.interrupt_writes m vector,h.saves⟩

theorem run (budget : Nat) : ∀ {cpu : Cpu} {past : List Happening}, Tallies cpu.registers.p past → ∀ m : μ,
    Tallies (cpu.run m budget).cpu.registers.p (cpu.running m budget ++ past) := by
  -- By induction on the budget, and for all processors, because the next step starts from another one.
  induction budget with
  | zero => exact fun h _ => h
  | succ budget ih =>
      intro cpu past h m
      have stepped := h.step m
      rw [Cpu.run_succ,Cpu.running]
      cases (cpu.step m).outcome with
      | ok =>
          have rest := ih stepped (cpu.step m).memory
          rwa [List.append_assoc]
      | error => exact stepped

theorem operation (h : Tallies cpu.registers.p past) (op : Operation) (m : μ) :
    Tallies (op.done cpu m).1.registers.p (op.happenings cpu m ++ past) := by
  cases op with
  | step => exact h.step m
  | run budget => exact h.run budget m
  | nmi => exact h.interrupt nmiVector m
  | irq =>
      rw [Operation.done,Operation.happenings,Cpu.irq]
      split
      · exact ⟨h.unused,h.brk,h.masked,List.forall_mem_cons.mpr ⟨trivial,h.saves⟩⟩
      · exact h.interrupt irqVector m
  | reset => exact ⟨rfl,rfl,fun _ => rfl,List.forall_mem_cons.mpr ⟨trivial,h.saves⟩⟩

theorem operations (ops : List Operation) : ∀ {cpu : Cpu} {past : List Happening}, Tallies cpu.registers.p past →
    ∀ m : μ, Tallies (Operation.doneAll cpu m ops).1.registers.p (Operation.history cpu m ops ++ past) := by
  induction ops with
  | nil => exact fun h _ => h
  | cons op rest ih =>
      intro cpu past h m
      rw [Operation.doneAll,Operation.history,List.append_assoc]
      exact ih (h.operation op m) (op.done cpu m).2

end Tallies

-- What the status has come to after operations on any memory, from a processor that has done nothing yet.
theorem status_history (m : μ) (ops : List Operation) :
    let cpu := (Operation.doneAll {} m ops).1
    let after := (Operation.doneAll {} m ops).2
    let past := Operation.history {} m ops
    cpu.registers.p.toByte.toNat.testBit 5 = true ∧
      cpu.registers.p.toByte.toNat.testBit 4 = Happening.breakSince past ∧
      (∀ h ∈ past, h.SavesStatus) ∧
      (Happening.masked past = true → cpu.irq after = (false,cpu,after)) := by
  intro cpu after past
  have tallies : Tallies cpu.registers.p past := by
    have whole := tallies_start.operations ops m
    rwa [List.append_nil] at whole
  refine ⟨?_,?_,tallies.saves,fun still => if_pos (tallies.masked still)⟩
  · rw [Status.toByte_unused,tallies.unused]
  · rw [Status.toByte_brk,tallies.brk]

-- Memory full of breaks: one is executed in the handler, whose interrupt still keeps others out.
theorem handledBreak_told :
    let s := Operation.doneAll {} ({} : FlatMemory) [.nmi,.step]
    s.1.registers.p.toByte.toNat.testBit 4 = true ∧ (({} : Cpu).interrupting nmiVector ({} : FlatMemory)).SavesStatus ∧
      s.1.irq s.2 = (false,s.1,s.2) := by
  let handling := ({} : Cpu).nmi ({} : FlatMemory)
  have untouched : ∀ a : UInt16, 0x01FD ≠ a → 0x01FC ≠ a → 0x01FB ≠ a → handling.2.get a = 0 := by
    intro a first second third
    change (((({} : FlatMemory).set 0x01FD 0).set 0x01FC 0).set 0x01FB _).get a = 0
    rw [FlatMemory.get_set_other _ _ _ _ third,FlatMemory.get_set_other _ _ _ _ second,
      FlatMemory.get_set_other _ _ _ _ first]
    simp [FlatMemory.get]
  have pc : handling.1.registers.pc = 0 := by
    change word (handling.2.get 0xFFFA) (handling.2.get 0xFFFB) = 0
    rw [untouched _ (by decide) (by decide) (by decide),untouched _ (by decide) (by decide) (by decide)]
    rfl
  have opcode : (AddressSpace.read handling.2 handling.1.registers.pc).1 = 0 := by
    rw [pc]
    exact untouched 0 (by decide) (by decide) (by decide)
  have stepped : ∃ before seen, handling.1.stepping handling.2 =
      .executed ⟨.brk,.implied,7,false⟩ before seen := by
    rw [Cpu.stepping,opcode]
    exact ⟨_,_,rfl⟩
  obtain ⟨before,seen,stepped⟩ := stepped
  have past : Operation.history {} ({} : FlatMemory) [.nmi,.step] =
      [.executed ⟨.brk,.implied,7,false⟩ before seen,({} : Cpu).interrupting nmiVector ({} : FlatMemory)] := by
    rw [← stepped]
    rfl
  obtain ⟨_,marked,saves,refused⟩ := status_history ({} : FlatMemory) [.nmi,.step]
  rw [past] at marked saves refused
  exact ⟨marked,saves _ (List.mem_cons_of_mem _ List.mem_cons_self),refused rfl⟩

end Famicom
