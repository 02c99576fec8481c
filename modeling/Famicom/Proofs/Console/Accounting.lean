import Famicom.Console.Bus
import Famicom.Proofs.Cpu.Cycles

namespace Famicom

namespace Bus

def transferRegister : UInt16 := 0x4014

theorem containing_transfer (a : UInt16) : Region.containing a = .transfer ↔ a = transferRegister := by
  unfold Region.containing
  constructor
  · intro transfers
    split at transfers
    · cases transfers
    · split at transfers
      · cases transfers
      · split at transfers
        · assumption
        · split at transfers
          · cases transfers
          · split at transfers <;> cases transfers
  · rintro rfl
    rfl

theorem read_stall (b : Bus) (a : UInt16) : (b.read a).2.stall = b.stall := by
  rw [read]
  split <;> rfl

theorem transfer_stall (b : Bus) (page : UInt8) : (b.transfer page).stall = b.stall + transferCycles := by
  have copied : ∀ n, (Nat.fold n (fun i _ b => transferByte page i b) b).stall = b.stall := by
    intro n
    induction n with
    | zero => rfl
    | succ n ih =>
        rw [Nat.fold_succ]
        exact (read_stall _ _).trans ih
  exact congrArg (· + transferCycles) (copied 256)

-- Only a write to the transfer register adds to the stall.
theorem write_stall (b : Bus) (a : UInt16) (v : UInt8) :
    (b.write a v).stall = if a = transferRegister then b.stall + transferCycles else b.stall := by
  have found := containing_transfer a
  rw [write]
  cases region : Region.containing a with
  | transfer => rw [if_pos (found.mp region),transfer_stall]
  | work | register | unwired | save | program =>
      have other : a ≠ transferRegister := fun same => by
        rw [found.mpr same] at region
        cases region
      rw [if_neg other]

end Bus

theorem stackTop_outside (r : Registers) : r.stackTop ≠ Bus.transferRegister := by
  intro same
  have page := congrArg highByte same
  rw [Registers.stackTop,highByte_word] at page
  exact absurd page (by decide)

inductive Drive where
  | step
  | nmi
  | irq
  | read (a : UInt16)
  | write (a : UInt16) (v : UInt8)
  deriving DecidableEq, Repr

def Drive.byHost (d : Drive) : Bool :=
  match d with
  | .step | .nmi | .irq => false
  | .read _ | .write .. => true

structure Board where
  cpu : Cpu
  bus : Bus

namespace Board

def after (s : Board) (d : Drive) : Board :=
  match d with
  | .step => ⟨(s.cpu.step s.bus).cpu,(s.cpu.step s.bus).memory⟩
  | .nmi => ⟨(s.cpu.nmi s.bus).1,(s.cpu.nmi s.bus).2⟩
  | .irq => ⟨(s.cpu.irq s.bus).2.1,(s.cpu.irq s.bus).2.2⟩
  | .read a => ⟨s.cpu,(s.bus.read a).2⟩
  | .write a v => ⟨s.cpu,s.bus.write a v⟩

def run (s : Board) (drives : List Drive) : Board := drives.foldl after s

def recorded (s : Board) : Recorded Bus := ⟨s.bus,[]⟩

def accesses (s : Board) (d : Drive) : List Access :=
  match d with
  | .step => (s.cpu.step s.recorded).memory.accesses
  | .nmi => (s.cpu.nmi s.recorded).2.accesses
  | .irq => (s.cpu.irq s.recorded).2.2.accesses
  | .read a => (AddressSpace.read s.recorded a).2.accesses
  | .write a v => (AddressSpace.write s.recorded a v).accesses

def completed? (s : Board) (d : Drive) : Option Instruction :=
  match d with
  | .step => decode (s.bus.read s.cpu.registers.pc).1
  | _ => none

def transfers (s : Board) (d : Drive) : Nat := writesTo Bus.transferRegister (s.accesses d)

def cost (s : Board) (d : Drive) : Nat :=
  ((s.completed? d).map fun i => i.cost s.cpu.registers (bytesRead (s.accesses d))).getD 0

def unknowns (s : Board) (d : Drive) : Nat := if d = .step ∧ s.completed? d = none then 1 else 0

def interrupts (s : Board) (d : Drive) : Nat :=
  match d with
  | .nmi => 1
  | .irq => (s.cpu.irq s.bus).1.toNat
  | _ => 0

def charged (s : Board) (d : Drive) : Nat :=
  match d with
  | .step =>
    match (s.cpu.step s.bus).outcome with
    | .ok spent => spent.toNat
    | .error _ => 2
  | .nmi => 7
  | .irq => if (s.cpu.irq s.bus).1 then 7 else 0
  | .read _ | .write .. => 0

def total (count : Board → Drive → Nat) (s : Board) (drives : List Drive) : Nat :=
  match drives with
  | [] => 0
  | d :: rest => count s d + (s.after d).total count rest

-- The transfers that no instruction has paid for yet.
def outstanding (s : Board) (earlier : Nat) (d : Drive) : Nat :=
  if (s.completed? d).isSome then 0 else earlier + s.transfers d

def Bounded (s : Board) (earlier : Nat) (drives : List Drive) : Prop :=
  match drives with
  | [] => True
  | d :: rest => 513 * (earlier + s.transfers d) < UInt32.size ∧ (s.after d).Bounded (s.outstanding earlier d) rest

-- An instruction takes its cost and all that is pending at its end, of which it leaves nothing.
def Takes (s : Board) (d : Drive) (i : Instruction) : Prop :=
  ∃ spent, (s.cpu.step s.bus).outcome = .ok spent ∧
    spent.toNat = i.cost s.cpu.registers (bytesRead (s.accesses d)) + (s.bus.stall.toNat + 513 * s.transfers d) ∧
    (s.after d).bus.stall = 0

structure Leaves (s : Board) (d : Drive) : Prop where
  pending : (s.after d).bus.stall.toNat = s.bus.stall.toNat + 513 * s.transfers d
  idle : d.byHost = false → s.transfers d = 0
  unknown : d = .step →
    (s.cpu.step s.bus).outcome = .error ⟨(s.bus.read s.cpu.registers.pc).1,s.cpu.registers.pc⟩

structure Accounted (s : Board) (d : Drive) : Prop where
  cycles : (s.after d).cpu.cycles = s.cpu.cycles + UInt64.ofNat (s.charged d)
  stall : match s.completed? d with
    | some i => s.Takes d i
    | none => s.Leaves d

variable (s : Board)

def Charges (stall : UInt32) (n : Recorded Bus) : Prop :=
  n.memory.stall = stall + Bus.transferCycles * UInt32.ofNat (writesTo Bus.transferRegister n.accesses)

theorem charges_kept (stall : UInt32) : Kept (Charges stall) where
  read n a charges := (n.memory.read_stall a).trans charges
  write n a v charges := by
    show (n.memory.write a v).stall = stall + Bus.transferCycles *
      UInt32.ofNat (writesTo Bus.transferRegister (.write a v :: n.accesses))
    rw [Bus.write_stall,writesTo_write,charges]
    split
    · rw [UInt32.ofNat_add]
      grind
    · rw [Nat.add_zero]

theorem charges_start : Charges s.bus.stall s.recorded := (UInt32.add_zero _).symm

theorem stall_toNat {stall : UInt32} {n : Recorded Bus} (charges : Charges stall n)
    (fits : stall.toNat + 513 * writesTo Bus.transferRegister n.accesses < UInt32.size) :
    n.memory.stall.toNat = stall.toNat + 513 * writesTo Bus.transferRegister n.accesses := by
  have single : Bus.transferCycles.toNat = 513 := rfl
  rw [UInt32.size] at fits
  rw [charges,UInt32.toNat_add,UInt32.toNat_mul,UInt32.toNat_ofNat',single]
  omega

variable {s} {i : Instruction} {earlier : Nat} {d : Drive}

theorem accesses_known (known : s.completed? .step = some i) : s.accesses .step = s.cpu.recording s.bus i := by
  rw [accesses,s.cpu.step_known s.recorded i known]
  rfl

theorem step_takes (known : s.completed? .step = some i) (pending : s.bus.stall.toNat = 513 * earlier)
    (bounded : 513 * (earlier + s.transfers .step) < UInt32.size) : s.Takes .step i := by
  obtain ⟨outcome,_,memory⟩ := recorded_faithful.step s.cpu s.recorded
  have charges : Charges s.bus.stall (s.cpu.performed s.recorded i).memory :=
    (charges_kept _).performed s.cpu i ((charges_kept _).read _ _ s.charges_start)
  have seen := accesses_known known
  have own := s.cpu.cost_recording s.bus i known
  have most := Cpu.cost_le i s.cpu.registers (bytesRead (s.accesses .step)) _ known
  rw [Takes,transfers,seen]
  rw [transfers,seen] at bounded
  rw [seen] at most
  have stall : (s.cpu.performed s.recorded i).memory.memory.stall.toNat =
      s.bus.stall.toNat + 513 * writesTo Bus.transferRegister (s.cpu.recording s.bus i) := by
    apply stall_toNat charges
    rw [pending,← Nat.mul_add]
    exact bounded
  rw [s.cpu.step_known s.recorded i known] at outcome memory
  refine ⟨_,outcome.symm,?_,congrArg Bus.stall memory.symm⟩
  have sum : (s.cpu.cost s.recorded i + (s.cpu.performed s.recorded i).memory.memory.stall).toNat =
      (i.cost s.cpu.registers (bytesRead (s.cpu.recording s.bus i)) +
        (s.bus.stall.toNat + 513 * writesTo Bus.transferRegister (s.cpu.recording s.bus i))) % UInt32.size := by
    rw [UInt32.toNat_add,stall]
    exact congrArg (fun n => (n + _) % UInt32.size) own
  -- Transfers cost a multiple of 513, which leaves room for the instruction's own cost.
  refine sum.trans (Nat.mod_eq_of_lt ?_)
  rw [UInt32.size] at bounded ⊢
  omega

theorem step_leaves (unknown : s.completed? .step = none) : s.Leaves .step := by
  have stepped := s.cpu.step_unknown s.bus unknown
  have none : s.transfers .step = 0 := by
    rw [transfers,accesses,s.cpu.step_unknown s.recorded unknown]
    rfl
  refine ⟨?_,fun _ => none,?_⟩
  · rw [after,stepped,none]
    exact congrArg UInt32.toNat (s.bus.read_stall _)
  · intro _
    rw [stepped]
    rfl

theorem step_cycles (s : Board) : (s.after .step).cpu.cycles = s.cpu.cycles + UInt64.ofNat (s.charged .step) := by
  cases known : s.completed? .step with
  | some i =>
      rw [after,charged,s.cpu.step_known s.bus i known]
      exact congrArg (s.cpu.cycles + ·) (UInt64.ofNat_uInt32ToNat _).symm
  | none =>
      rw [after,charged,s.cpu.step_unknown s.bus known]
      rfl

-- An interrupt writes to the stack only.
theorem interrupt_stall (s : Board) (vector : UInt16) :
    (s.cpu.interrupt vector s.bus).2.stall = s.bus.stall ∧
      writesTo Bus.transferRegister (s.cpu.interrupt vector s.recorded).2.accesses = 0 := by
  have none := interrupt_writesTo Bus.transferRegister stackTop_outside vector s.cpu s.recorded
  have charges := (charges_kept s.bus.stall).interrupt vector s.cpu s.charges_start
  have same : (s.cpu.interrupt vector s.recorded).2.memory = (s.cpu.interrupt vector s.bus).2 :=
    (recorded_faithful.interrupt vector s.cpu s.recorded).2
  rw [Charges,none,same] at charges
  exact ⟨charges.trans (UInt32.add_zero _),none⟩

theorem leaves_pending (kept : (s.after d).bus.stall = s.bus.stall) (none : s.transfers d = 0) :
    (s.after d).bus.stall.toNat = s.bus.stall.toNat + 513 * s.transfers d := by
  rw [kept,none]
  rfl

theorem nmi_accounted (s : Board) : s.Accounted .nmi := by
  obtain ⟨kept,none⟩ := s.interrupt_stall nmiVector
  exact ⟨rfl,leaves_pending kept none,fun _ => none,nofun⟩

theorem irq_accounted (s : Board) : s.Accounted .irq := by
  obtain ⟨kept,none⟩ := s.interrupt_stall irqVector
  cases disabled : s.cpu.registers.p.interruptDisable with
  | true =>
      have refused : s.cpu.irq s.bus = (false,s.cpu,s.bus) := if_pos disabled
      have unseen : s.cpu.irq s.recorded = (false,s.cpu,s.recorded) := if_pos disabled
      have none : s.transfers .irq = 0 := by
        rw [transfers,accesses,unseen]
        rfl
      refine ⟨?_,leaves_pending (by rw [after,refused]) none,fun _ => none,nofun⟩
      rw [after,charged,refused]
      exact (UInt64.add_zero _).symm
  | false =>
      have taken : s.cpu.irq s.bus = (true,s.cpu.interrupt irqVector s.bus) :=
        if_neg (Bool.eq_false_iff.mp disabled)
      have seen : s.cpu.irq s.recorded = (true,s.cpu.interrupt irqVector s.recorded) :=
        if_neg (Bool.eq_false_iff.mp disabled)
      have none : s.transfers .irq = 0 := by
        rw [transfers,accesses,seen]
        exact none
      refine ⟨?_,leaves_pending (by rw [after,taken]; exact kept) none,fun _ => none,nofun⟩
      rw [after,charged,taken]
      rfl

theorem accounted (s : Board) (d : Drive) (earlier : Nat) (pending : s.bus.stall.toNat = 513 * earlier)
    (bounded : 513 * (earlier + s.transfers d) < UInt32.size) : s.Accounted d := by
  cases d with
  | step =>
      refine ⟨s.step_cycles,?_⟩
      cases known : s.completed? .step with
      | some i => exact step_takes known pending bounded
      | none => exact step_leaves known
  | nmi => exact s.nmi_accounted
  | irq => exact s.irq_accounted
  | read a =>
      refine ⟨(UInt64.add_zero _).symm,?_,(by intro host; cases host),nofun⟩
      exact congrArg UInt32.toNat (s.bus.read_stall a)
  | write a v =>
      refine ⟨(UInt64.add_zero _).symm,?_,(by intro host; cases host),nofun⟩
      have charges := (charges_kept _).write s.recorded a v s.charges_start
      apply stall_toNat charges
      rw [pending,← Nat.mul_add]
      exact bounded

theorem completed_step (known : s.completed? d = some i) : d = .step := by
  cases d with
  | step => rfl
  | nmi | irq | read | write => cases known

theorem Accounted.takes (accounted : s.Accounted d) (known : s.completed? d = some i) :
    s.charged d = s.cost d + (s.bus.stall.toNat + 513 * s.transfers d) ∧ (s.after d).bus.stall = 0 := by
  have stall := accounted.stall
  rw [known] at stall
  obtain ⟨spent,outcome,total,none⟩ := stall
  cases completed_step known
  have charge : s.charged .step = spent.toNat := by rw [charged,outcome]
  have price : s.cost .step = i.cost s.cpu.registers (bytesRead (s.accesses .step)) := by
    rw [cost,known]
    rfl
  exact ⟨by rw [charge,total,price],none⟩

theorem Accounted.leaves (accounted : s.Accounted d) (unknown : s.completed? d = none) : s.Leaves d := by
  have stall := accounted.stall
  rw [unknown] at stall
  exact stall

theorem Accounted.outstanding (accounted : s.Accounted d) (pending : s.bus.stall.toNat = 513 * earlier) :
    (s.after d).bus.stall.toNat = 513 * s.outstanding earlier d := by
  rw [Board.outstanding]
  cases known : s.completed? d with
  | some i =>
      rw [(accounted.takes known).2]
      rfl
  | none =>
      rw [(accounted.leaves known).pending,pending,← Nat.mul_add]
      rfl

theorem Leaves.charges (leaves : s.Leaves d) (unknown : s.completed? d = none) :
    s.charged d = 2 * s.unknowns d + 7 * s.interrupts d := by
  cases d with
  | step =>
      rw [charged,leaves.unknown rfl,unknowns,if_pos ⟨rfl,unknown⟩]
      rfl
  | nmi | read | write => rfl
  | irq =>
      rw [charged,interrupts]
      cases (s.cpu.irq s.bus).1 <;> rfl

theorem Accounted.conserves (accounted : s.Accounted d) :
    s.charged d + (s.after d).bus.stall.toNat =
      s.bus.stall.toNat + (s.cost d + 2 * s.unknowns d + 7 * s.interrupts d + 513 * s.transfers d) := by
  cases known : s.completed? d with
  | some i =>
      obtain ⟨charge,none⟩ := accounted.takes known
      have decoded : s.unknowns d = 0 := if_neg fun ⟨_,unknown⟩ => by
        rw [known] at unknown
        cases unknown
      have quiet : s.interrupts d = 0 := by
        cases completed_step known
        rfl
      rw [charge,none,decoded,quiet,UInt32.toNat_zero]
      omega
  | none =>
      have leaves := accounted.leaves known
      have free : s.cost d = 0 := by
        rw [cost,known]
        rfl
      rw [leaves.charges known,leaves.pending,free]
      omega

theorem transfers_le (s : Board) (d : Drive) : s.transfers d ≤ 1 := by
  cases d with
  | step =>
      cases known : s.completed? .step with
      | some i =>
          -- Neither the operand nor the stack writes to the transfer register, so that only the data can.
          have once := perform_writesTo Bus.transferRegister stackTop_outside i.mnemonic.action
            (s.cpu.located s.recorded i).operand (s.cpu.located s.recorded i).registers
            (s.cpu.located s.recorded i).memory
          have found := locate_writesTo Bus.transferRegister i.mode
            {s.cpu.registers with pc := s.cpu.registers.pc + 1} (AddressSpace.read s.recorded s.cpu.registers.pc).2
          rw [transfers,accesses_known known]
          exact Nat.le_trans once (Nat.le_of_eq (congrArg (· + 1) found))
      | none =>
          rw [(step_leaves known).idle rfl]
          exact Nat.zero_le 1
  | nmi =>
      have leaves : s.Leaves .nmi := s.nmi_accounted.stall
      rw [leaves.idle rfl]
      exact Nat.zero_le 1
  | irq =>
      have leaves : s.Leaves .irq := s.irq_accounted.stall
      rw [leaves.idle rfl]
      exact Nat.zero_le 1
  | read | write => exact List.countP_le_length

-- So short a run cannot have more transfers outstanding than the bus can count.
theorem bounded_short (s : Board) (earlier : Nat) (drives : List Drive)
    (short : 513 * (earlier + drives.length) < UInt32.size) : s.Bounded earlier drives := by
  induction drives generalizing s earlier with
  | nil => trivial
  | cons d rest ih =>
      have once := s.transfers_le d
      rw [List.length_cons] at short
      refine ⟨by omega,ih _ _ ?_⟩
      rw [Board.outstanding]
      split <;> omega

theorem run_accounted (s : Board) (drives : List Drive) (earlier : Nat)
    (pending : s.bus.stall.toNat = 513 * earlier) (bounded : s.Bounded earlier drives) :
    (∀ before d rest, drives = before ++ d :: rest → (s.run before).Accounted d) ∧
      (s.run drives).cpu.cycles = s.cpu.cycles + UInt64.ofNat (s.total charged drives) ∧
      s.total charged drives + (s.run drives).bus.stall.toNat =
        s.bus.stall.toNat + (s.total cost drives + 2 * s.total unknowns drives + 7 * s.total interrupts drives +
          513 * s.total transfers drives) := by
  induction drives generalizing s earlier with
  | nil =>
      refine ⟨?_,(UInt64.add_zero _).symm,Nat.add_comm _ _⟩
      intro before d rest split
      cases before <;> cases split
  | cons d rest ih =>
      have first := s.accounted d earlier pending bounded.1
      have conserved := first.conserves
      obtain ⟨each,cycles,later⟩ := ih (s.after d) _ (first.outstanding pending) bounded.2
      refine ⟨?_,?_,?_⟩
      · intro before e others split
        cases before with
        | nil =>
            cases split
            exact first
        | cons b before =>
            cases split
            exact each before e others rfl
      · have whole : (s.run (d :: rest)).cpu.cycles = _ := cycles
        rw [whole,first.cycles,UInt64.add_assoc,← UInt64.ofNat_add]
        rfl
      · have whole : (s.run (d :: rest)).bus.stall = ((s.after d).run rest).bus.stall := rfl
        simp only [total]
        rw [whole]
        omega

theorem run_settles (s : Board) (drives : List Drive) (settled : s.bus.stall = 0)
    (each : ∀ before d rest, drives = before ++ d :: rest → (s.run before).Accounted d)
    (alone : ∀ d ∈ drives, d.byHost = false) : (s.run drives).bus.stall = 0 := by
  induction drives generalizing s with
  | nil => exact settled
  | cons d rest ih =>
      have first : s.Accounted d := each [] d rest rfl
      apply ih (s.after d)
      · cases known : s.completed? d with
        | some i => exact (first.takes known).2
        | none =>
            have leaves := first.leaves known
            apply UInt32.toNat_inj.mp
            rw [leaves.pending,leaves.idle (alone d List.mem_cons_self),settled]
            rfl
      · intro before e others split
        exact each (d :: before) e others (congrArg (d :: ·) split)
      · exact fun e inside => alone e (List.mem_cons_of_mem d inside)

-- Every cycle that is charged has a source, and every transfer is charged once: to the instruction that ends next.
theorem cycles_accounted (s : Board) (drives : List Drive) (settled : s.bus.stall = 0) (bounded : s.Bounded 0 drives) :
    (∀ before d rest, drives = before ++ d :: rest → (s.run before).Accounted d) ∧
      (s.run drives).cpu.cycles = s.cpu.cycles + UInt64.ofNat (s.total charged drives) ∧
      s.total charged drives + (s.run drives).bus.stall.toNat =
        s.total cost drives + 2 * s.total unknowns drives + 7 * s.total interrupts drives +
          513 * s.total transfers drives ∧
      ((∀ d ∈ drives, d.byHost = false) → (s.run drives).bus.stall = 0 ∧
        ∀ before d rest, drives = before ++ d :: rest → (s.run before).bus.stall = 0 ∧
          ∀ i, (s.run before).completed? d = some i →
            (s.run before).charged d = (s.run before).cost d ∨
              (s.run before).charged d = (s.run before).cost d + 513) := by
  have nothing : s.bus.stall.toNat = 513 * 0 := by rw [settled]; rfl
  obtain ⟨each,cycles,conserved⟩ := s.run_accounted drives 0 nothing bounded
  rw [nothing,Nat.zero_add] at conserved
  refine ⟨each,cycles,conserved,?_⟩
  intro alone
  refine ⟨s.run_settles drives settled each alone,?_⟩
  intro before d rest split
  have calm : (s.run before).bus.stall = 0 := by
    apply s.run_settles before settled
    · intro earlier e others prior
      apply each earlier e (others ++ d :: rest)
      rw [split,prior,List.append_assoc]
      rfl
    · intro e inside
      apply alone e
      rw [split]
      exact List.mem_append_left _ inside
  refine ⟨calm,?_⟩
  intro i known
  obtain ⟨charge,_⟩ := (each before d rest split).takes known
  have once := (s.run before).transfers_le d
  rw [calm,UInt32.toNat_zero] at charge
  omega

-- A transfer by an instruction, and one by the host that an unknown opcode leaves to the instruction after it.
def transferring : Board where
  cpu := {registers := {pc := 0x8000}}
  bus := .around
    {header := ⟨1,1,0,0⟩,trainer := none,prg := #[0x8D,0x14,0x40,0x02,0xEA],chr := #[0]
     chrWritable := false,ram := none,mapper := .nrom}

theorem transferring_accounted :
    transferring.bus.stall = 0 ∧ transferring.Bounded 0 [.step,.write 0x4014 0x02,.step,.step] ∧
      (transferring.run [.step,.write 0x4014 0x02]).Accounted .step ∧
      (transferring.run [.step,.write 0x4014 0x02]).completed? .step = none ∧
      (transferring.run [.step,.write 0x4014 0x02,.step,.step]).cpu.cycles = UInt64.ofNat (517 + 2 + 515) := by
  have settled : transferring.bus.stall = 0 := rfl
  have bounded : transferring.Bounded 0 [.step,.write 0x4014 0x02,.step,.step] :=
    transferring.bounded_short 0 _ (by decide)
  obtain ⟨each,cycles,_,_⟩ := cycles_accounted transferring _ settled bounded
  have charged : transferring.total charged [.step,.write 0x4014 0x02,.step,.step] = 517 + 2 + 515 := by
    decide +kernel
  rw [charged] at cycles
  exact ⟨settled,bounded,each [.step,.write 0x4014 0x02] .step [.step] rfl,by decide +kernel,cycles⟩

end Board
end Famicom
