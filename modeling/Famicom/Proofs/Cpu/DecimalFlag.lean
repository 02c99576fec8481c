import Famicom.Proofs.Cpu.StatusHistory

namespace Famicom

open Accesses (stackCell)

variable {μ : Type} [AddressSpace μ]

theorem again_faithful :
    Faithful fun n : Recorded (Recorded μ) => (⟨n.memory.memory,n.accesses⟩ : Recorded μ) :=
  ⟨fun _ _ => ⟨rfl,rfl⟩,fun _ _ _ => rfl,fun _ => ⟨rfl,rfl⟩⟩

namespace Cpu

variable (cpu : Cpu) (n : Recorded μ)

theorem stepping_recorded : cpu.stepping n = cpu.stepping n.memory := by
  have seen : (cpu.step (⟨n,[]⟩ : Recorded (Recorded μ))).memory.accesses =
      (cpu.step (⟨n.memory,[]⟩ : Recorded μ)).memory.accesses :=
    congrArg Recorded.accesses (again_faithful.step cpu (⟨n,[]⟩ : Recorded (Recorded μ))).2.2
  rw [stepping,stepping,seen]
  rfl

theorem interrupting_recorded (vector : UInt16) : cpu.interrupting vector n = cpu.interrupting vector n.memory :=
  congrArg (fun m => Happening.interrupted cpu.registers (Recorded.accesses m))
    (again_faithful.interrupt vector cpu (⟨n,[]⟩ : Recorded (Recorded μ))).2

theorem running_recorded (budget : Nat) : cpu.running n budget = cpu.running n.memory budget := by
  induction budget generalizing cpu n with
  | zero => rfl
  | succ budget ih =>
      obtain ⟨outcome,after,memory⟩ := recorded_faithful.step cpu n
      rw [running,running,outcome,after,stepping_recorded,ih,memory]

end Cpu

namespace Operation

theorem happenings_recorded (op : Operation) (cpu : Cpu) (n : Recorded μ) :
    op.happenings cpu n = op.happenings cpu n.memory := by
  cases op with
  | step => exact congrArg ([·]) (cpu.stepping_recorded n)
  | run budget => exact cpu.running_recorded n budget
  | nmi => exact congrArg ([·]) (cpu.interrupting_recorded n nmiVector)
  | irq => simp only [happenings,cpu.interrupting_recorded n irqVector]
  | reset => rfl

theorem history_recorded (ops : List Operation) (cpu : Cpu) (n : Recorded μ) :
    history cpu n ops = history cpu n.memory ops := by
  induction ops generalizing cpu n with
  | nil => rfl
  | cons op rest ih =>
      obtain ⟨_,after,memory⟩ := recorded_faithful.throughout.operation op cpu (n := n) trivial
      rw [history,history,ih,after,memory,happenings_recorded]

end Operation

def Status.binary (p : Status) : Status := {p with decimal := false}

def Registers.binary (r : Registers) : Registers := {r with p := r.p.binary}

def Cpu.binary (cpu : Cpu) : Cpu := {cpu with registers := cpu.registers.binary}

def Mnemonic.settlesDecimal (mnemonic : Mnemonic) : Bool :=
  match mnemonic with
  | .sed | .cld | .plp | .rti => true
  | _ => false

-- What an action does with registers takes no notice of the flag and leaves it alone.
def Action.Binary (action : Action) : Prop :=
  match action with
  | .load update | .pull update => ∀ r v, update r.binary v = (update r v).binary
  | .store value | .push value => ∀ r, value r.binary = value r
  | .internal update => ∀ r, update r.binary = (update r).binary
  | .branch taken => ∀ p, taken p.binary = taken p
  | .modify _ | .jump | .call | .returnCall => True
  | .returnInterrupt => False

theorem Mnemonic.action_binary (mnemonic : Mnemonic) (silent : mnemonic ≠ .php)
    (keeps : mnemonic.settlesDecimal = false) : mnemonic.action.Binary := by
  cases mnemonic with
  | php => exact absurd rfl silent
  | sed | cld | plp | rti => cases keeps
  | asl | lsr | rol | ror | inc | dec | jmp | jsr | rts => trivial
  | lda | ldx | ldy | and | eor | ora | bit | adc | sbc | cmp | cpx | cpy | pla => exact fun _ _ => rfl
  | _ => exact fun _ => rfl

theorem locate_binary (mode : Mode) (r : Registers) (m : μ) :
    (mode.locate r.binary m).operand = (mode.locate r m).operand ∧
      (mode.locate r.binary m).crossed = (mode.locate r m).crossed ∧
      (mode.locate r.binary m).registers = (mode.locate r m).registers.binary ∧
      (mode.locate r.binary m).memory = (mode.locate r m).memory := by
  cases mode <;> exact ⟨rfl,rfl,rfl,rfl⟩

theorem Action.perform_binary {action : Action} (binary : action.Binary) (o : Operand) (r : Registers) (m : μ) :
    (action.perform o r.binary m).registers = (action.perform o r m).registers.binary ∧
      (action.perform o r.binary m).extra = (action.perform o r m).extra ∧
      (action.perform o r.binary m).memory = (action.perform o r m).memory := by
  cases action with
  | load update =>
      cases o <;> exact ⟨binary r _,rfl,rfl⟩
  | store value =>
      have same : value r.binary = value r := binary r
      cases o with
      | memory a => exact ⟨rfl,rfl,congrArg (AddressSpace.write m a) same⟩
      | accumulator => exact ⟨congrArg (fun v => {r.binary with a := v}) same,rfl,rfl⟩
      | nothing => exact ⟨rfl,rfl,rfl⟩
  | modify result => cases o <;> exact ⟨rfl,rfl,rfl⟩
  | internal update => exact ⟨binary r,rfl,rfl⟩
  | push value => exact ⟨rfl,rfl,congrArg (AddressSpace.write m r.stackTop) (binary r)⟩
  | pull update => exact ⟨binary {r with sp := r.sp + 1} _,rfl,rfl⟩
  | branch taken =>
      cases o with
      | memory target =>
          have same : taken r.binary.p = taken r.p := binary r.p
          simp only [Action.perform,same]
          split <;> exact ⟨rfl,rfl,rfl⟩
      | accumulator | nothing => exact ⟨rfl,rfl,rfl⟩
  | jump | call => cases o <;> exact ⟨rfl,rfl,rfl⟩
  | returnCall => exact ⟨rfl,rfl,rfl⟩
  | returnInterrupt => exact binary.elim

theorem Mnemonic.perform_settles {mnemonic : Mnemonic} (settles : mnemonic.settlesDecimal = true) (o : Operand)
    (r : Registers) (m : μ) : mnemonic.action.perform o r.binary m = mnemonic.action.perform o r m := by
  cases mnemonic with
  | sed | cld | plp | rti => rfl
  | _ => cases settles

namespace Cpu

variable (cpu : Cpu) (m : μ) (i : Instruction)

theorem located_binary :
    (cpu.binary.located m i).operand = (cpu.located m i).operand ∧
      (cpu.binary.located m i).crossed = (cpu.located m i).crossed ∧
      (cpu.binary.located m i).registers = (cpu.located m i).registers.binary ∧
      (cpu.binary.located m i).memory = (cpu.located m i).memory :=
  locate_binary i.mode {cpu.registers with pc := cpu.registers.pc + 1} (AddressSpace.read m cpu.registers.pc).2

theorem performed_binary (silent : i.mnemonic ≠ .php) :
    (cpu.binary.performed m i).registers =
        (if i.mnemonic.settlesDecimal then (cpu.performed m i).registers else (cpu.performed m i).registers.binary) ∧
      cpu.binary.cost m i = cpu.cost m i ∧ (cpu.binary.performed m i).memory = (cpu.performed m i).memory := by
  obtain ⟨operand,crossed,registers,memory⟩ := cpu.located_binary m i
  simp only [cost,performed,operand,crossed,registers,memory]
  cases settles : i.mnemonic.settlesDecimal with
  | true =>
      rw [Mnemonic.perform_settles settles]
      exact ⟨rfl,rfl,rfl⟩
  | false =>
      obtain ⟨done,extra,left⟩ := Action.perform_binary (i.mnemonic.action_binary silent settles)
        (cpu.located m i).operand (cpu.located m i).registers (cpu.located m i).memory
      exact ⟨done,congrArg _ extra,left⟩

end Cpu

namespace Happening

def settlesDecimal (h : Happening) : Bool :=
  match h with
  | executed i _ _ => i.mnemonic.settlesDecimal
  | reset => true
  | stumbled | interrupted .. | refused => false

def showsDecimal (h : Happening) : Bool :=
  match h with
  | executed i _ _ => i.mnemonic = .php
  | interrupted .. => true
  | stumbled | refused | reset => false

-- The flag was shown with the value that it had in the beginning. Happenings stand newest first.
def decimalShown (past : List Happening) : Bool :=
  match past with
  | [] => false
  | h :: earlier => h.showsDecimal && !earlier.any settlesDecimal || decimalShown earlier

def binary (h : Happening) : Happening :=
  match h with
  | executed i before seen => executed i before.binary seen
  | interrupted before seen => interrupted before.binary seen
  | stumbled => stumbled
  | refused => refused
  | reset => reset

theorem decimalShown_append (newer older : List Happening) :
    decimalShown (newer ++ older) = (decimalShown newer && !older.any settlesDecimal || decimalShown older) := by
  induction newer with
  | nil => rfl
  | cons h newer ih =>
      simp only [List.cons_append,decimalShown,ih,List.any_append,Bool.not_or]
      cases older.any settlesDecimal <;> simp [Bool.or_assoc]

end Happening

namespace Cpu

variable (cpu : Cpu) (m : μ)

theorem step_binary (silent : (cpu.stepping m).showsDecimal = false) :
    (cpu.binary.step m).outcome = (cpu.step m).outcome ∧
      (cpu.binary.step m).cpu =
        (if (cpu.stepping m).settlesDecimal then (cpu.step m).cpu else (cpu.step m).cpu.binary) ∧
      (cpu.binary.step m).memory = (cpu.step m).memory := by
  cases decoded : decode (AddressSpace.read m cpu.registers.pc).1 with
  | none =>
      rw [cpu.binary.step_unknown m decoded,cpu.step_unknown m decoded,stepping,decoded]
      exact ⟨rfl,rfl,rfl⟩
  | some i =>
      have settles : (cpu.stepping m).settlesDecimal = i.mnemonic.settlesDecimal := by
        rw [stepping,decoded]
        rfl
      rw [stepping,decoded] at silent
      obtain ⟨registers,cost,memory⟩ := cpu.performed_binary m i (of_decide_eq_false silent)
      rw [cpu.binary.step_known m i decoded,cpu.step_known m i decoded,cost,memory,registers,settles]
      cases i.mnemonic.settlesDecimal <;> exact ⟨rfl,rfl,rfl⟩

theorem stepping_binary (silent : (cpu.stepping m).showsDecimal = false) :
    (cpu.binary.stepping m).binary = (cpu.stepping m).binary := by
  cases decoded : decode (AddressSpace.read m cpu.registers.pc).1 with
  | none =>
      have here : decode (AddressSpace.read m cpu.binary.registers.pc).1 = none := decoded
      rw [stepping,stepping,decoded,here]
  | some i =>
      have here : decode (AddressSpace.read m cpu.binary.registers.pc).1 = some i := decoded
      have recorded : (cpu.stepping (⟨m,[]⟩ : Recorded μ)).showsDecimal = false := by
        rw [stepping_recorded,silent]
      have seen := (cpu.step_binary (⟨m,[]⟩ : Recorded μ) recorded).2.2
      rw [stepping,stepping,decoded,here]
      simp only [Happening.binary,seen]
      rfl

end Cpu

open Happening (settlesDecimal showsDecimal decimalShown)

-- Processors on one memory that began with the same registers but for the flag, and what has happened to each.
structure Unseen (past past' : List Happening) (s s' : Cpu × μ) : Prop where
  memory : s'.2 = s.2
  cpu : s'.1.binary = s.1.binary
  settled : past.any settlesDecimal = true → s'.1 = s.1
  past : past'.map Happening.binary = past.map Happening.binary

namespace Cpu

-- Whether the flag is shown or settled is up to the instruction, and which that is lies in the program.
theorem stepping_alike {cpu cpu' : Cpu} (alike : cpu'.binary = cpu.binary) (m : μ) :
    (cpu'.stepping m).showsDecimal = (cpu.stepping m).showsDecimal ∧
      (cpu'.stepping m).settlesDecimal = (cpu.stepping m).settlesDecimal := by
  have pc : cpu'.registers.pc = cpu.registers.pc := (congrArg (fun c : Cpu => c.registers.pc) alike :)
  rw [stepping,stepping,pc]
  cases decode (AddressSpace.read m cpu.registers.pc).1 <;> exact ⟨rfl,rfl⟩

theorem step_alike {cpu cpu' : Cpu} (alike : cpu'.binary = cpu.binary) (m : μ)
    (silent : (cpu.stepping m).showsDecimal = false) :
    (cpu'.step m).outcome = (cpu.step m).outcome ∧
      Unseen [cpu.stepping m] [cpu'.stepping m] ((cpu.step m).cpu,(cpu.step m).memory)
        ((cpu'.step m).cpu,(cpu'.step m).memory) := by
  obtain ⟨shows,settles⟩ := stepping_alike alike m
  have silent' : (cpu'.stepping m).showsDecimal = false := shows.trans silent
  obtain ⟨outcome,after,memory⟩ := cpu.step_binary m silent
  obtain ⟨outcome',after',memory'⟩ := cpu'.step_binary m silent'
  have told := cpu.stepping_binary m silent
  have told' := cpu'.stepping_binary m silent'
  rw [alike] at outcome' after' memory' told'
  rw [after,settles] at after'
  refine ⟨outcome'.symm.trans outcome,memory'.symm.trans memory,?_,?_,?_⟩
  · split at after'
    · exact congrArg Cpu.binary after'.symm
    · exact after'.symm
  · intro settled
    rw [List.any_cons,List.any_nil,Bool.or_false] at settled
    rw [if_pos settled,if_pos settled] at after'
    exact after'.symm
  · exact congrArg ([·]) (told'.symm.trans told)

end Cpu

namespace Unseen

variable {past past' : List Happening} {s s' : Cpu × μ}

omit [AddressSpace μ] in
theorem again (h : Unseen past past' s s') (s₂ : Cpu × μ) (news : List Happening) :
    Unseen (news ++ past) (news ++ past') s₂ s₂ where
  memory := rfl
  cpu := rfl
  settled _ := rfl
  past := by rw [List.map_append,List.map_append,h.past]

omit [AddressSpace μ] in
theorem after {s₂ s₂' : Cpu × μ} {news news' : List Happening} (h : Unseen past past' s s')
    (unsettled : past.any settlesDecimal = false) (next : Unseen news news' s₂ s₂') :
    Unseen (news ++ past) (news' ++ past') s₂ s₂' where
  memory := next.memory
  cpu := next.cpu
  settled given := by
    rw [List.any_append,unsettled,Bool.or_false] at given
    exact next.settled given
  past := by rw [List.map_append,List.map_append,next.past,h.past]

theorem silent {h : Happening} (unsettled : past.any settlesDecimal = false)
    (unshown : decimalShown (h :: past) = false) : h.showsDecimal = false := by
  simp only [decimalShown,unsettled,Bool.not_false,Bool.and_true,Bool.or_eq_false_iff] at unshown
  exact unshown.1

theorem earlier {news : List Happening} (unshown : decimalShown (news ++ past) = false) :
    decimalShown past = false := by
  rw [Happening.decimalShown_append,Bool.or_eq_false_iff] at unshown
  exact unshown.2

theorem step {cpu cpu' : Cpu} {m m' : μ} (h : Unseen past past' (cpu,m) (cpu',m'))
    (unshown : decimalShown (cpu.stepping m :: past) = false) :
    (cpu'.step m').outcome = (cpu.step m).outcome ∧
      Unseen (cpu.stepping m :: past) (cpu'.stepping m' :: past') ((cpu.step m).cpu,(cpu.step m).memory)
        ((cpu'.step m').cpu,(cpu'.step m').memory) := by
  obtain rfl : m' = m := h.memory
  cases settled : past.any settlesDecimal with
  | true =>
      obtain rfl : cpu' = cpu := h.settled settled
      exact ⟨rfl,h.again _ [cpu'.stepping m']⟩
  | false =>
      obtain ⟨outcome,next⟩ := Cpu.step_alike h.cpu m' (silent settled unshown)
      exact ⟨outcome,h.after settled next⟩

theorem run (budget : Nat) : ∀ {cpu cpu' : Cpu} {m m' : μ} {past past' : List Happening},
    Unseen past past' (cpu,m) (cpu',m') → decimalShown (cpu.running m budget ++ past) = false →
      (cpu'.run m' budget).fault = (cpu.run m budget).fault ∧
        Unseen (cpu.running m budget ++ past) (cpu'.running m' budget ++ past')
          ((cpu.run m budget).cpu,(cpu.run m budget).memory)
          ((cpu'.run m' budget).cpu,(cpu'.run m' budget).memory) := by
  -- By induction on the budget, and for all processors, because the next step starts from other ones.
  induction budget with
  | zero => exact fun h _ => ⟨rfl,h⟩
  | succ budget ih =>
      intro cpu cpu' m m' past past' h unshown
      have first : decimalShown (cpu.stepping m :: past) = false := by
        rw [Cpu.running] at unshown
        split at unshown
        · rw [List.append_assoc] at unshown
          exact earlier unshown
        · exact unshown
      obtain ⟨outcome,next⟩ := h.step first
      rw [Cpu.run_succ,Cpu.run_succ,Cpu.running,Cpu.running,outcome]
      rw [Cpu.running] at unshown
      cases stepped : (cpu.step m).outcome with
      | ok =>
          rw [stepped] at unshown
          simp only [List.append_assoc] at unshown ⊢
          exact ih next unshown
      | error => exact ⟨rfl,next⟩

theorem interrupt {cpu cpu' : Cpu} {m m' : μ} (h : Unseen past past' (cpu,m) (cpu',m')) (vector : UInt16)
    (unshown : decimalShown (cpu.interrupting vector m :: past) = false) :
    Unseen (cpu.interrupting vector m :: past) (cpu'.interrupting vector m' :: past') (cpu.interrupt vector m)
      (cpu'.interrupt vector m') := by
  obtain rfl : m' = m := h.memory
  cases settled : past.any settlesDecimal with
  | true =>
      obtain rfl : cpu' = cpu := h.settled settled
      exact h.again _ [cpu'.interrupting vector m']
  | false => cases silent settled unshown

theorem operation {cpu cpu' : Cpu} {m m' : μ} (h : Unseen past past' (cpu,m) (cpu',m')) (op : Operation)
    (unshown : decimalShown (op.happenings cpu m ++ past) = false) :
    op.result cpu' m' = op.result cpu m ∧
      Unseen (op.happenings cpu m ++ past) (op.happenings cpu' m' ++ past') (op.done cpu m) (op.done cpu' m') := by
  cases op with
  | step =>
      obtain ⟨outcome,next⟩ := h.step unshown
      exact ⟨congrArg Operation.Result.stepped outcome,next⟩
  | run budget =>
      obtain ⟨fault,next⟩ := run budget h unshown
      exact ⟨congrArg Operation.Result.ran fault,next⟩
  | nmi => exact ⟨rfl,h.interrupt nmiVector unshown⟩
  | irq =>
      have refuses : cpu'.registers.p.interruptDisable = cpu.registers.p.interruptDisable :=
        (congrArg (fun c : Cpu => c.registers.p.interruptDisable) h.cpu :)
      simp only [Operation.result,Operation.happenings,Operation.done,Cpu.irq,refuses] at unshown ⊢
      split
      · refine ⟨rfl,h.memory,h.cpu,h.settled,?_⟩
        exact congrArg (Happening.refused :: ·) h.past
      · rename_i lets
        rw [if_neg lets] at unshown
        exact ⟨rfl,h.interrupt irqVector unshown⟩
  | reset =>
      obtain rfl : m' = m := h.memory
      exact ⟨rfl,rfl,rfl,fun _ => rfl,congrArg (Happening.reset :: ·) h.past⟩

theorem operations (ops : List Operation) : ∀ {cpu cpu' : Cpu} {m m' : μ} {past past' : List Happening},
    Unseen past past' (cpu,m) (cpu',m') → decimalShown (Operation.history cpu m ops ++ past) = false →
      Operation.results cpu' m' ops = Operation.results cpu m ops ∧
        Unseen (Operation.history cpu m ops ++ past) (Operation.history cpu' m' ops ++ past')
          (Operation.doneAll cpu m ops) (Operation.doneAll cpu' m' ops) := by
  induction ops with
  | nil => exact fun h _ => ⟨rfl,h⟩
  | cons op rest ih =>
      intro cpu cpu' m m' past past' h unshown
      simp only [Operation.history,List.append_assoc] at unshown ⊢
      obtain ⟨result,next⟩ := h.operation op (earlier unshown)
      obtain ⟨results,last⟩ := ih next unshown
      exact ⟨List.cons_eq_cons.mpr ⟨result,results⟩,last⟩

end Unseen

theorem Status.saves_alike {p p' : Status} (alike : p'.binary = p.binary) :
    (p'.toByte ||| 0x30) ||| 0x08 = (p.toByte ||| 0x30) ||| 0x08 ∧
      (p'.toByte &&& 0xEF ||| 0x20) ||| 0x08 = (p.toByte &&& 0xEF ||| 0x20) ||| 0x08 := by
  have all : ∀ p : Status, (p.toByte ||| 0x30) ||| 0x08 = (p.binary.toByte ||| 0x30) ||| 0x08 ∧
      (p.toByte &&& 0xEF ||| 0x20) ||| 0x08 = (p.binary.toByte &&& 0xEF ||| 0x20) ||| 0x08 := by
    rintro ⟨c,z,i,d,b,u,v,n⟩
    revert c z i d b u v n
    decide
  obtain ⟨instruction,interrupt⟩ := all p
  obtain ⟨instruction',interrupt'⟩ := all p'
  rw [alike] at instruction' interrupt'
  exact ⟨instruction'.trans instruction.symm,interrupt'.trans interrupt.symm⟩

namespace Operation

-- Whatever is done with them, two processors that differ in the decimal flag at most answer alike and make the same
-- accesses, and they differ in nothing else as long as nobody has looked at the flag.
theorem decimal_unseen {cpu cpu' : Cpu} (alike : cpu'.binary = cpu.binary) (m : μ) (ops : List Operation)
    (unshown : decimalShown (history cpu m ops) = false) :
    let s := doneAll cpu m ops
    let s' := doneAll cpu' m ops
    results cpu' m ops = results cpu m ops ∧
      (history cpu' m ops).map Happening.binary = (history cpu m ops).map Happening.binary ∧
      (doneAll cpu' (⟨m,[]⟩ : Recorded μ) ops).2 = (doneAll cpu (⟨m,[]⟩ : Recorded μ) ops).2 ∧
      s'.2 = s.2 ∧ s'.1.binary = s.1.binary ∧
      ((history cpu m ops).any settlesDecimal = true → s'.1 = s.1) ∧
      (∀ i, decode (AddressSpace.read s.2 s.1.registers.pc).1 = some i → i.mnemonic = .php → ∃ v v',
        Happening.writes (s.1.step (⟨s.2,[]⟩ : Recorded μ)).memory.accesses = [(stackCell s.1.registers.sp,v)] ∧
          Happening.writes (s'.1.step (⟨s'.2,[]⟩ : Recorded μ)).memory.accesses = [(stackCell s.1.registers.sp,v')] ∧
          v' ||| 0x08 = v ||| 0x08) ∧
      ∀ vector, ∃ pushed v v',
        Happening.writes (s.1.interrupt vector (⟨s.2,[]⟩ : Recorded μ)).2.accesses =
            pushed ++ [(stackCell (s.1.registers.sp - 2),v)] ∧
          Happening.writes (s'.1.interrupt vector (⟨s'.2,[]⟩ : Recorded μ)).2.accesses =
            pushed ++ [(stackCell (s.1.registers.sp - 2),v')] ∧
          v' ||| 0x08 = v ||| 0x08 := by
  intro s s'
  -- The two processors are run on the memory and on its recording, and each of the runs tells a part.
  have start : ∀ {ν : Type} [AddressSpace ν] (n : ν), Unseen [] [] (cpu,n) (cpu',n) :=
    fun _ => ⟨rfl,alike,nofun,rfl⟩
  obtain ⟨results,told⟩ := (start m).operations ops (by rwa [List.append_nil])
  obtain ⟨_,recorded⟩ := (start (⟨m,[]⟩ : Recorded μ)).operations ops (by rwa [List.append_nil,history_recorded])
  rw [List.append_nil,List.append_nil] at told
  obtain ⟨memory,after,settled,past⟩ := told
  have sp : s'.1.registers.sp = s.1.registers.sp := (congrArg (fun c : Cpu => c.registers.sp) after :)
  have pc : s'.1.registers.pc = s.1.registers.pc := (congrArg (fun c : Cpu => c.registers.pc) after :)
  have status : s'.1.registers.p.binary = s.1.registers.p.binary := (congrArg (fun c : Cpu => c.registers.p) after :)
  obtain ⟨saved,savedByInterrupt⟩ := Status.saves_alike status
  refine ⟨results,past,recorded.memory,memory,after,settled,?_,?_⟩
  · intro i known php
    have known' : decode (AddressSpace.read s'.2 s'.1.registers.pc).1 = some i := by rwa [memory,pc]
    refine ⟨_,_,s.1.php_writes s.2 i known php,?_,saved⟩
    rw [s'.1.php_writes s'.2 i known' php,sp]
  · intro vector
    refine ⟨[(stackCell s.1.registers.sp,highByte s.1.registers.pc),
      (stackCell (s.1.registers.sp - 1),lowByte s.1.registers.pc)],_,_,s.1.interrupt_writes s.2 vector,?_,
      savedByInterrupt⟩
    rw [← sp,← pc]
    exact s'.1.interrupt_writes s'.2 vector

-- Nine and one are added, the flag is cleared, and only then is the status saved.
def nineAndOne : FlatMemory :=
  (((((({} : FlatMemory).set 0 0xA9).set 1 0x09).set 2 0x69).set 3 0x01).set 4 0xD8).set 5 0x08

theorem nineAndOne_unseen :
    let cpu : Cpu := {}
    let cpu' : Cpu := {registers := {p := {Status.powerOn with decimal := true}}}
    let ops : List Operation := [.step,.irq,.step,.step,.step]
    cpu'.binary = cpu.binary ∧ decimalShown (history cpu nineAndOne ops) = false ∧
      (doneAll cpu' nineAndOne ops).1 = (doneAll cpu nineAndOne ops).1 ∧
      (doneAll cpu' nineAndOne ops).1.registers.a = 0x0A ∧ (doneAll cpu' nineAndOne ops).2.get 0x01FD = 0x34 := by
  intro cpu cpu' ops
  have alike : cpu'.binary = cpu.binary := rfl
  have unshown : decimalShown (history cpu nineAndOne ops) = false := by decide +kernel
  obtain ⟨_,_,_,memory,_,settled,_⟩ := decimal_unseen alike nineAndOne ops unshown
  have same := settled (by decide +kernel)
  refine ⟨alike,unshown,same,?_,?_⟩
  · rw [same]
    decide +kernel
  · rw [memory]
    decide +kernel

end Operation
end Famicom
