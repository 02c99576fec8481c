import Famicom.Proofs.Cpu.Discipline
import Famicom.Proofs.Cpu.StackContents

namespace Famicom

open AddressSpace

inductive Pair where
  | accumulator
  | status
  | call
  | interrupt
  deriving DecidableEq, Repr

def Pair.size : Pair → Nat
  | accumulator | status => 1
  | call => 2
  | interrupt => 3

inductive Role where
  | opens (pair : Pair)
  | closes (pair : Pair)
  | plain
  | disturbs
  deriving DecidableEq, Repr

def Mnemonic.role : Mnemonic → Role
  | .pha => .opens .accumulator
  | .php => .opens .status
  | .jsr => .opens .call
  | .pla => .closes .accumulator
  | .plp => .closes .status
  | .rts => .closes .call
  | .rti => .closes .interrupt
  | .txs => .disturbs
  | _ => .plain

def Access.writesStack : Access → Bool
  | .read _ _ => false
  | .write a _ => 0x0100 ≤ a && a ≤ 0x01FF

structure Moment where
  cpu : Cpu
  memory : FlatMemory

inductive Event where
  | step
  | nmi
  | irq
  deriving DecidableEq, Repr

namespace Moment

abbrev registers (s : Moment) : Registers := s.cpu.registers

def after (s : Moment) (e : Event) : Moment :=
  match e with
  | .step => ⟨(s.cpu.step s.memory).cpu,(s.cpu.step s.memory).memory⟩
  | .nmi => ⟨(s.cpu.nmi s.memory).1,(s.cpu.nmi s.memory).2⟩
  | .irq => ⟨(s.cpu.irq s.memory).2.1,(s.cpu.irq s.memory).2.2⟩

def run (s : Moment) (events : List Event) : Moment := events.foldl after s

def stepWritesStack (s : Moment) : Bool :=
  (s.cpu.step (⟨s.memory,[]⟩ : Recorded FlatMemory)).memory.accesses.any Access.writesStack

-- An interrupt that is refused does nothing. An opcode without an instruction leaves the stack alone.
def role (s : Moment) (e : Event) : Role :=
  match e with
  | .nmi => .opens .interrupt
  | .irq => if s.registers.p.interruptDisable then .plain else .opens .interrupt
  | .step =>
    match decode (s.memory.get s.registers.pc) with
    | none => .plain
    | some i => if i.mnemonic.role = .plain ∧ s.stepWritesStack then .disturbs else i.mnemonic.role

end Moment

structure Opening where
  pair : Pair
  before : Moment

namespace Opening

def bytes (o : Opening) : List UInt8 :=
  match o.pair with
  | .accumulator => [o.before.registers.a]
  | .status => [o.before.registers.p.saved]
  | .call => [lowByte (o.before.registers.pc + 2),highByte (o.before.registers.pc + 2)]
  | .interrupt =>
    [o.before.registers.p.savedByInterrupt,lowByte o.before.registers.pc,highByte o.before.registers.pc]

def recovered (o : Opening) (r : Registers) : Prop :=
  r.sp = o.before.registers.sp ∧
  match o.pair with
  | .accumulator => r.a = o.before.registers.a
  | .status => r.p = {o.before.registers.p with brk := false,unused := true}
  | .call => r.pc = o.before.registers.pc + 3
  | .interrupt => r.pc = o.before.registers.pc ∧
      r.p = {o.before.registers.p with brk := false,unused := true}

theorem bytes_length (o : Opening) : o.bytes.length = o.pair.size := by
  obtain ⟨pair,before⟩ := o
  cases pair <;> rfl

end Opening

def used (pending : List Opening) : Nat :=
  match pending with
  | [] => 0
  | o :: rest => o.pair.size + used rest

namespace Moment

-- The pairs that are open after an event, the last one opened first. There are none where pairs do not nest,
-- where the stack overflows, and where something else disturbs the stack.
def advance (s : Moment) (pending : List Opening) (e : Event) : Option (List Opening) :=
  match s.role e,pending with
  | .plain,_ => some pending
  | .opens pair,_ => if used (⟨pair,s⟩ :: pending) ≤ 256 then some (⟨pair,s⟩ :: pending) else none
  | .closes pair,o :: rest => if o.pair = pair then some rest else none
  | _,_ => none

def opened (s : Moment) (pending : List Opening) (events : List Event) : Option (List Opening) :=
  match events with
  | [] => some pending
  | e :: rest => (s.advance pending e).bind fun pending => (s.after e).opened pending rest

-- Going down through the open pairs, the stack pointer meets what it was before each of them and ends at the base.
def Anchored (base sp : UInt8) (pending : List Opening) : Prop :=
  match pending with
  | [] => sp = base
  | o :: rest => sp + UInt8.ofNat o.pair.size = o.before.registers.sp ∧ Anchored base o.before.registers.sp rest

structure Sound (base : UInt8) (s : Moment) (pending : List Opening) : Prop where
  lies : Lies s.memory s.registers.sp (pending.flatMap Opening.bytes)
  room : used pending ≤ 256
  anchored : Anchored base s.registers.sp pending

theorem flatMap_bytes_length (pending : List Opening) : (pending.flatMap Opening.bytes).length = used pending := by
  induction pending with
  | nil => rfl
  | cons o rest ih => rw [List.flatMap_cons,List.length_append,Opening.bytes_length,ih,used]

variable {base : UInt8} {s : Moment} {i : Instruction} {pair : Pair} {bytes : List UInt8}

theorem located_memory (cpu : Cpu) (m : FlatMemory) (i : Instruction) : (cpu.located m i).memory = m := by
  simp only [Cpu.located]
  cases i.mode <;> rfl

theorem step_registers (known : decode (s.memory.get s.registers.pc) = some i) :
    (s.after .step).registers = (s.cpu.performed s.memory i).registers := by
  simp only [registers,after,s.cpu.step_known s.memory i known]

theorem step_lies (known : decode (s.memory.get s.registers.pc) = some i) (sp : UInt8)
    (lies : Lies (s.cpu.performed s.memory i).memory sp bytes) : Lies (s.after .step).memory sp bytes := by
  simp only [after,s.cpu.step_known s.memory i known]
  exact lies.agree fun _ => rfl

theorem step_pointer (known : decode (s.memory.get s.registers.pc) = some i) :
    (s.after .step).registers.sp = stackPointerAfter i.mnemonic s.registers :=
  (step_known_disciplined s.cpu s.memory i known).sp

theorem located_call (known : decode (s.memory.get s.registers.pc) = some i) (call : i.mnemonic = .jsr) :
    (∃ target, (s.cpu.located s.memory i).operand = .memory target) ∧
      (s.cpu.located s.memory i).registers.pc - 1 = s.registers.pc + 2 := by
  have takes := decode_takes _ _ known
  rw [call] at takes
  have absolute : i.mode = .absolute := beq_iff_eq.mp takes
  refine ⟨?_,?_⟩
  · simp only [Cpu.located,absolute]
    exact ⟨_,rfl⟩
  · rw [Cpu.located_registers,absolute]
    show s.registers.pc + 1 + 2 - 1 = s.registers.pc + 2
    grind

theorem step_pushes {value : Registers → UInt8} (known : decode (s.memory.get s.registers.pc) = some i)
    (pushes : i.mnemonic.action = .push value) (lies : Lies s.memory s.registers.sp bytes)
    (room : 1 + bytes.length ≤ 256) :
    Lies (s.after .step).memory (s.after .step).registers.sp
      (value {s.registers with pc := s.registers.pc + 1 + UInt16.ofNat i.mode.operandLength} :: bytes) := by
  apply step_lies known
  rw [step_registers known,Cpu.performed,pushes,located_memory,Cpu.located_registers]
  exact Lies.push lies (by omega) _

theorem step_opens (known : decode (s.memory.get s.registers.pc) = some i)
    (opens : i.mnemonic.role = .opens pair) (lies : Lies s.memory s.registers.sp bytes)
    (room : pair.size + bytes.length ≤ 256) :
    Lies (s.after .step).memory (s.after .step).registers.sp (Opening.bytes ⟨pair,s⟩ ++ bytes) ∧
      (s.after .step).registers.sp + UInt8.ofNat pair.size = s.registers.sp := by
  have pointer := step_pointer known
  cases mnemonic : i.mnemonic <;> rw [mnemonic] at opens pointer <;> cases opens
  case pha =>
    have pushes : i.mnemonic.action = .push fun r => r.a := by rw [mnemonic]; rfl
    refine ⟨step_pushes known pushes lies room,?_⟩
    rw [pointer]
    exact UInt8.sub_add_cancel ..
  case php =>
    have pushes : i.mnemonic.action = .push fun r => r.p.saved := by rw [mnemonic]; rfl
    refine ⟨step_pushes known pushes lies room,?_⟩
    rw [pointer]
    exact UInt8.sub_add_cancel ..
  case jsr =>
    -- The address saved is told by where the operand was found, so that finding it comes first.
    obtain ⟨⟨target,operand⟩,saved⟩ := located_call known mnemonic
    have start : Lies s.memory (s.cpu.located s.memory i).registers.sp bytes := by
      rw [Cpu.located_registers]
      exact lies
    have pushed := start.pushWord (by simp only [Pair.size] at room; omega) (s.registers.pc + 2)
    refine ⟨step_lies known _ ?_,?_⟩
    · rw [step_registers known,Cpu.performed,mnemonic,located_memory,operand]
      simp only [Mnemonic.action,Action.perform,saved]
      exact pushed
    · rw [pointer]
      exact UInt8.sub_add_cancel ..

theorem step_pulls {update : Registers → UInt8 → Registers} {v : UInt8}
    (known : decode (s.memory.get s.registers.pc) = some i) (pulls : i.mnemonic.action = .pull update)
    (lies : Lies s.memory s.registers.sp (v :: bytes)) :
    (s.after .step).registers = update {s.registers with
        sp := s.registers.sp + 1,pc := s.registers.pc + 1 + UInt16.ofNat i.mode.operandLength} v ∧
      Lies (s.after .step).memory (s.registers.sp + 1) bytes := by
  have start : Lies s.memory (s.cpu.located s.memory i).registers.sp (v :: bytes) := by
    rw [Cpu.located_registers]
    exact lies
  obtain ⟨pulled,below⟩ := start.pull
  rw [Cpu.located_registers] at pulled below
  refine ⟨?_,step_lies known _ ?_⟩
  · rw [step_registers known,Cpu.performed,pulls,located_memory,Cpu.located_registers]
    simp only [Action.perform,pulled]
  · rw [Cpu.performed,pulls,located_memory,Cpu.located_registers]
    simp only [Action.perform,pulled]
    exact below

theorem step_closes {o : Opening} (known : decode (s.memory.get s.registers.pc) = some i)
    (closes : i.mnemonic.role = .closes o.pair) (lies : Lies s.memory s.registers.sp (o.bytes ++ bytes))
    (anchored : s.registers.sp + UInt8.ofNat o.pair.size = o.before.registers.sp) :
    o.recovered (s.after .step).registers ∧
      Lies (s.after .step).memory (s.after .step).registers.sp bytes := by
  obtain ⟨pair,before⟩ := o
  have pointer := step_pointer known
  have registers := step_registers known
  have memory : Lies (s.cpu.performed s.memory i).memory (s.after .step).registers.sp bytes →
      Lies (s.after .step).memory (s.after .step).registers.sp bytes := step_lies known _
  have start : Lies s.memory (s.cpu.located s.memory i).registers.sp (Opening.bytes ⟨pair,before⟩ ++ bytes) := by
    rw [Cpu.located_registers]
    exact lies
  rw [Cpu.performed,located_memory] at registers memory
  -- A pair of each kind is closed by one mnemonic.
  cases mnemonic : i.mnemonic <;> rw [mnemonic] at closes pointer registers memory <;> cases closes
  case pla =>
    have pulls : i.mnemonic.action = .pull .setA := by rw [mnemonic]; rfl
    obtain ⟨loaded,below⟩ := step_pulls known pulls lies
    refine ⟨⟨pointer.trans anchored,?_⟩,?_⟩
    · rw [loaded]
      rfl
    · rw [pointer]
      exact below
  case plp =>
    have pulls : i.mnemonic.action = .pull fun r v => {r with p := .restored v} := by rw [mnemonic]; rfl
    obtain ⟨loaded,below⟩ := step_pulls known pulls lies
    refine ⟨⟨pointer.trans anchored,?_⟩,?_⟩
    · rw [loaded]
      exact Status.restored_saved _
    · rw [pointer]
      exact below
  case rts =>
    obtain ⟨pulled,below⟩ := start.pullWord
    simp only [Mnemonic.action,Action.perform,pulled] at registers memory
    refine ⟨⟨pointer.trans anchored,?_⟩,memory ?_⟩
    · rw [registers]
      exact UInt16.add_assoc ..
    · rw [registers]
      exact below
  case rti =>
    -- The status lies above the address.
    obtain ⟨status,between⟩ := start.pull
    obtain ⟨address,below⟩ := between.pullWord
    simp only [Mnemonic.action,Action.perform,status,address] at registers memory
    refine ⟨⟨pointer.trans anchored,?_,?_⟩,memory ?_⟩
    · rw [registers]
    · rw [registers]
      exact Status.restored_savedByInterrupt _
    · rw [registers]
      exact below

theorem interrupt_opens (vector : UInt16) (lies : Lies s.memory s.registers.sp bytes)
    (room : Pair.interrupt.size + bytes.length ≤ 256) :
    Lies (s.cpu.interrupt vector s.memory).2 (s.cpu.interrupt vector s.memory).1.registers.sp
        (Opening.bytes ⟨.interrupt,s⟩ ++ bytes) ∧
      (s.cpu.interrupt vector s.memory).1.registers.sp + UInt8.ofNat Pair.interrupt.size = s.registers.sp := by
  simp only [Pair.size] at room ⊢
  have address := lies.pushWord (by omega) s.registers.pc
  have status := address.push (by simp only [List.length_cons]; omega) s.registers.p.savedByInterrupt
  refine ⟨status,?_⟩
  show s.registers.sp - 1 - 1 - 1 + 3 = s.registers.sp
  grind

theorem opens_cases {e : Event} (opens : s.role e = .opens pair) :
    (e = .step ∧ ∃ i, decode (s.memory.get s.registers.pc) = some i ∧ i.mnemonic.role = .opens pair) ∨
      (pair = .interrupt ∧ ∃ vector, s.after e =
        ⟨(s.cpu.interrupt vector s.memory).1,(s.cpu.interrupt vector s.memory).2⟩) := by
  cases e with
  | nmi =>
      cases opens
      exact .inr ⟨rfl,nmiVector,rfl⟩
  | irq =>
      simp only [role] at opens
      split at opens
      · cases opens
      · rename_i taken
        cases opens
        refine .inr ⟨rfl,irqVector,?_⟩
        simp only [after,Cpu.irq,taken]
        rfl
  | step =>
      simp only [role] at opens
      split at opens
      · cases opens
      · rename_i i known
        split at opens
        · cases opens
        · exact .inl ⟨rfl,i,known,opens⟩

theorem closes_cases {e : Event} (closes : s.role e = .closes pair) :
    e = .step ∧ ∃ i, decode (s.memory.get s.registers.pc) = some i ∧ i.mnemonic.role = .closes pair := by
  cases e with
  | nmi => cases closes
  | irq =>
      simp only [role] at closes
      split at closes <;> cases closes
  | step =>
      simp only [role] at closes
      split at closes
      · cases closes
      · rename_i i known
        split at closes
        · cases closes
        · exact ⟨rfl,i,known,closes⟩

theorem stackPointerAfter_plain (mnemonic : Mnemonic) (r : Registers) (plain : mnemonic.role = .plain) :
    stackPointerAfter mnemonic r = r.sp := by
  cases mnemonic <;> first | rfl | cases plain

theorem plain_spares {e : Event} (plain : s.role e = .plain) :
    (s.after e).registers.sp = s.registers.sp ∧
      ∀ sp, (s.after e).memory.get (Accesses.stackCell sp) = s.memory.get (Accesses.stackCell sp) := by
  cases e with
  | nmi => cases plain
  | irq =>
      simp only [role] at plain
      split at plain
      · rename_i refused
        have same : s.after .irq = s := by simp only [after,Cpu.irq,refused,if_true]
        rw [same]
        exact ⟨rfl,fun _ => rfl⟩
      · cases plain
  | step =>
      cases known : decode (s.memory.get s.registers.pc) with
      | none =>
          have stepped := s.cpu.step_unknown s.memory known
          refine ⟨?_,fun sp => ?_⟩
          · simp only [registers,after,stepped]
          · simp only [after,stepped]
            rfl
      | some i =>
          simp only [role,known] at plain
          split at plain
          · cases plain
          · rename_i quiet
            refine ⟨(step_pointer known).trans (stackPointerAfter_plain _ _ plain),fun sp => ?_⟩
            -- A step that plays no role writes to no cell of the stack, or it would disturb it.
            apply step_spares
            intro v written
            refine quiet ⟨plain,List.any_eq_true.mpr ⟨_,written,?_⟩⟩
            obtain ⟨low,high⟩ := stackCell_page sp
            simp only [Access.writesStack,low,high,decide_true,Bool.and_true]

theorem advance_opens {e : Event} {pending left : List Opening} (opens : s.role e = .opens pair)
    (advanced : s.advance pending e = some left) : left = ⟨pair,s⟩ :: pending ∧ used left ≤ 256 := by
  simp only [advance,opens] at advanced
  split at advanced
  · rename_i room
    cases advanced
    exact ⟨rfl,room⟩
  · cases advanced

theorem advance_closes {e : Event} {pending left : List Opening} (closes : s.role e = .closes pair)
    (advanced : s.advance pending e = some left) : ∃ o, pending = o :: left ∧ o.pair = pair := by
  cases pending with
  | nil => simp only [advance,closes,reduceCtorEq] at advanced
  | cons o rest =>
      simp only [advance,closes] at advanced
      split at advanced
      · rename_i matching
        cases advanced
        exact ⟨o,rfl,matching⟩
      · cases advanced

theorem Sound.opening {e : Event} {pending left : List Opening} (sound : Sound base s pending)
    (opens : s.role e = .opens pair) (advanced : s.advance pending e = some left) :
    Sound base (s.after e) left := by
  obtain ⟨rfl,room⟩ := advance_opens opens advanced
  have fits : pair.size + (pending.flatMap Opening.bytes).length ≤ 256 := by
    rw [flatMap_bytes_length]
    exact room
  have opened : Lies (s.after e).memory (s.after e).registers.sp
        (Opening.bytes ⟨pair,s⟩ ++ pending.flatMap Opening.bytes) ∧
      (s.after e).registers.sp + UInt8.ofNat pair.size = s.registers.sp := by
    rcases opens_cases opens with ⟨rfl,i,known,opens⟩ | ⟨rfl,vector,interrupted⟩
    · exact step_opens known opens sound.lies fits
    · rw [interrupted]
      exact interrupt_opens vector sound.lies fits
  exact ⟨opened.1,room,opened.2,sound.anchored⟩

theorem Sound.closing {e : Event} {pending left : List Opening} (sound : Sound base s pending)
    (closes : s.role e = .closes pair) (advanced : s.advance pending e = some left) :
    Sound base (s.after e) left ∧
      ∃ o, pending = o :: left ∧ o.pair = pair ∧ o.recovered (s.after e).registers := by
  obtain ⟨o,rfl,rfl⟩ := advance_closes closes advanced
  obtain ⟨rfl,i,known,closes⟩ := closes_cases closes
  obtain ⟨top,below⟩ := sound.anchored
  obtain ⟨recovered,lies⟩ := step_closes known closes sound.lies top
  have room : used (o :: left) = o.pair.size + used left := rfl
  refine ⟨⟨lies,?_,?_⟩,o,rfl,rfl,recovered⟩
  · have := sound.room
    omega
  · rw [recovered.1]
    exact below

theorem Sound.advance {e : Event} {pending left : List Opening} (sound : Sound base s pending)
    (advanced : s.advance pending e = some left) : Sound base (s.after e) left := by
  cases acts : s.role e with
  | opens pair => exact sound.opening acts advanced
  | closes pair => exact (sound.closing acts advanced).1
  | plain =>
      obtain ⟨pointer,same⟩ := plain_spares acts
      simp only [Moment.advance,acts,Option.some.injEq] at advanced
      subst advanced
      refine ⟨?_,sound.room,?_⟩
      · rw [pointer]
        exact sound.lies.agree same
      · rw [pointer]
        exact sound.anchored
  | disturbs => simp only [Moment.advance,acts,reduceCtorEq] at advanced

theorem opened_append (s : Moment) (pending : List Opening) (before rest : List Event) :
    s.opened pending (before ++ rest) =
      (s.opened pending before).bind fun left => (s.run before).opened left rest := by
  induction before generalizing s pending with
  | nil => rfl
  | cons e before ih =>
      simp only [List.cons_append,opened,run,List.foldl_cons,Option.bind_assoc]
      exact congrArg _ (funext fun left => ih (s.after e) left)

theorem Sound.run {pending left : List Opening} (events : List Event) (sound : Sound base s pending)
    (nested : s.opened pending events = some left) : Sound base (s.run events) left := by
  induction events generalizing s pending with
  | nil =>
      cases nested
      exact sound
  | cons e rest ih =>
      obtain ⟨next,advanced,nested⟩ := Option.bind_eq_some_iff.mp nested
      exact ih (sound.advance advanced) nested

theorem sound_start (s : Moment) : Sound s.registers.sp s [] := ⟨trivial,Nat.zero_le _,rfl⟩

theorem used_append (pending rest : List Opening) : used (pending ++ rest) = used pending + used rest := by
  induction pending with
  | nil => exact (Nat.zero_add _).symm
  | cons o pending ih => rw [List.cons_append,used,used,ih,Nat.add_assoc]

-- A pair that is open after an event was opened by it, or else the event does the same above the pair alone.
theorem advance_above {e : Event} {pending above outer : List Opening} {o : Opening}
    (advanced : s.advance pending e = some (above ++ o :: outer)) :
    (s.role e = .opens o.pair ∧ o.before = s ∧ above = []) ∨
      ∃ kept, pending = kept ++ o :: outer ∧ s.advance kept e = some above := by
  cases acts : s.role e with
  | opens pair =>
      obtain ⟨pushed,room⟩ := advance_opens acts advanced
      cases above with
      | nil =>
          cases pushed
          exact .inl ⟨rfl,rfl,rfl⟩
      | cons top above =>
          cases pushed
          have fits : used (⟨pair,s⟩ :: above) ≤ 256 := by
            rw [used_append] at room
            omega
          refine .inr ⟨above,rfl,?_⟩
          simp only [Moment.advance,acts,fits,if_true]
  | closes pair =>
      obtain ⟨closed,rfl,matching⟩ := advance_closes acts advanced
      refine .inr ⟨closed :: above,rfl,?_⟩
      simp only [Moment.advance,acts,matching,if_true]
  | plain =>
      simp only [Moment.advance,acts,Option.some.injEq] at advanced
      refine .inr ⟨above,advanced,?_⟩
      simp only [Moment.advance,acts]
  | disturbs => simp only [Moment.advance,acts,reduceCtorEq] at advanced

-- A pair that is open after a run was open before it, or an event of the run opened it. What follows that
-- event nests by itself.
theorem opened_origin {pending above outer : List Opening} {o : Opening} (events : List Event)
    (nested : s.opened pending events = some (above ++ o :: outer)) :
    (∃ kept, pending = kept ++ o :: outer ∧ s.opened kept events = some above) ∨
      ∃ earlier opener inner, events = earlier ++ opener :: inner ∧ (s.run earlier).role opener = .opens o.pair ∧
        o.before = s.run earlier ∧ ((s.run earlier).after opener).opened [] inner = some above := by
  induction events generalizing s pending with
  | nil => exact .inl ⟨above,Option.some.inj nested,rfl⟩
  | cons e rest ih =>
      obtain ⟨next,advanced,nested⟩ := Option.bind_eq_some_iff.mp nested
      rcases ih nested with ⟨kept,rfl,opened⟩ | ⟨earlier,opener,inner,rfl,opens,before,balanced⟩
      · rcases advance_above advanced with ⟨opens,before,rfl⟩ | ⟨lower,rfl,lowered⟩
        · exact .inr ⟨[],e,rest,rfl,opens,before,opened⟩
        · exact .inl ⟨lower,rfl,Option.bind_eq_some_iff.mpr ⟨kept,lowered,opened⟩⟩
      · exact .inr ⟨e :: earlier,opener,inner,rfl,opens,before,balanced⟩

-- Whatever closes a pair in a run whose pairs nest gets back what the event saved that opened the pair. Between
-- the two every pair that is opened is closed.
theorem closings_recover (s : Moment) (before rest : List Event) (e : Event) (pair : Pair)
    (nested : (s.opened [] (before ++ e :: rest)).isSome = true)
    (closes : (s.run before).role e = .closes pair) :
    ∃ earlier opener inner, before = earlier ++ opener :: inner ∧
      (s.run earlier).role opener = .opens pair ∧
      ((s.run earlier).after opener).opened [] inner = some [] ∧
      Opening.recovered ⟨pair,s.run earlier⟩ ((s.run before).after e).registers := by
  obtain ⟨last,nested⟩ := Option.isSome_iff_exists.mp nested
  rw [opened_append] at nested
  obtain ⟨pending,reached,nested⟩ := Option.bind_eq_some_iff.mp nested
  obtain ⟨left,advanced,_⟩ := Option.bind_eq_some_iff.mp nested
  obtain ⟨_,o,rfl,rfl,recovered⟩ := ((sound_start s).run before reached).closing closes advanced
  have topmost : s.opened [] before = some ([] ++ o :: left) := reached
  obtain ⟨pair,saved⟩ := o
  rcases opened_origin before topmost with ⟨kept,none,_⟩ | ⟨earlier,opener,inner,split,opens,here,balanced⟩
  · cases kept <;> cases none
  · cases here
    exact ⟨earlier,opener,inner,split,opens,balanced,recovered⟩

-- A call whose return address wraps within the page, around a routine that saves the accumulator.
def wrappingCall : Moment where
  cpu := {registers := {a := 7,sp := 0,pc := 0x20}}
  memory := ((((FlatMemory.set {} 0x20 0x20).set 0x21 0x10).set 0x10 0x48).set 0x11 0x68).set 0x12 0x60

theorem wrappingCall_recovers :
    (wrappingCall.opened [] ([.step,.step,.step] ++ .step :: [])).isSome = true ∧
      (wrappingCall.run [.step,.step,.step]).role .step = .closes .call ∧
      ∃ earlier opener inner, [.step,.step,.step] = earlier ++ opener :: inner ∧
        (wrappingCall.run earlier).role opener = .opens .call ∧
        ((wrappingCall.run earlier).after opener).opened [] inner = some [] ∧
        Opening.recovered ⟨.call,wrappingCall.run earlier⟩
          ((wrappingCall.run [.step,.step,.step]).after .step).registers := by
  have nested : (wrappingCall.opened [] ([.step,.step,.step] ++ .step :: [])).isSome = true := by decide +kernel
  have closes : (wrappingCall.run [.step,.step,.step]).role .step = .closes .call := by decide +kernel
  exact ⟨nested,closes,closings_recover wrappingCall [.step,.step,.step] [] .step .call nested closes⟩

end Moment
end Famicom
