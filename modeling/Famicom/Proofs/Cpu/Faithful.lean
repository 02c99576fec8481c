import Famicom.Proofs.Cpu.Decoding

namespace Famicom

open AddressSpace

-- A property of memories that no access can end.
structure Lasting {μ : Type} [AddressSpace μ] (holds : μ → Prop) : Prop where
  read : ∀ m a, holds m → holds (AddressSpace.read m a).2
  write : ∀ m a v, holds m → holds (AddressSpace.write m a v)
  stall : ∀ m, holds m → holds (takeStall m).2

-- A property of memories that reading and writing keep. Taking the stall may end it.
structure Kept {μ : Type} [AddressSpace μ] (holds : μ → Prop) : Prop where
  read : ∀ m a, holds m → holds (AddressSpace.read m a).2
  write : ∀ m a v, holds m → holds (AddressSpace.write m a v)

theorem Mode.locate_keeps {μ : Type} [AddressSpace μ] {holds : μ → Prop} {m : μ}
    (read : ∀ m a, holds m → holds (AddressSpace.read m a).2) (mode : Mode) (r : Registers) (start : holds m) :
    holds (mode.locate r m).memory := by
  -- The cases are the modes, by how often they read. None of them writes.
  have once := read m r.pc start
  have twice := fun a => read _ a once
  have again := fun a b => read _ b (twice a)
  cases mode with
  | implied | accumulator | immediate => exact start
  | zeroPage | zeroPageX | zeroPageY | relative => exact once
  | absolute | absoluteX | absoluteY => exact twice _
  | indirectX | indirectY => exact again _ _
  | indirect => exact read _ _ (again _ _)

namespace Kept

variable {μ : Type} [AddressSpace μ] {holds : μ → Prop} {m : μ}

theorem locate (kept : Kept holds) (mode : Mode) (r : Registers) (start : holds m) :
    holds (mode.locate r m).memory := mode.locate_keeps kept.read r start

theorem load (kept : Kept holds) (o : Operand) (r : Registers) (start : holds m) : holds (o.load r m).2 := by
  cases o with
  | memory a => exact kept.read m a start
  | accumulator | nothing => exact start

theorem store (kept : Kept holds) (o : Operand) (v : UInt8) (r : Registers) (start : holds m) :
    holds (o.store v r m).2 := by
  cases o with
  | memory a => exact kept.write m a v start
  | accumulator | nothing => exact start

theorem pushWord (kept : Kept holds) (w : UInt16) (r : Registers) (start : holds m) :
    holds (Stack.pushWord w r m).2 := kept.write _ _ _ (kept.write _ _ _ start)

theorem pullWord (kept : Kept holds) (r : Registers) (start : holds m) : holds (Stack.pullWord r m).2.2 :=
  kept.read _ _ (kept.read _ _ start)

theorem perform (kept : Kept holds) (action : Action) (o : Operand) (r : Registers) (start : holds m) :
    holds (action.perform o r m).memory := by
  cases action with
  | load => exact kept.load o r start
  | store => exact kept.store o _ r start
  | modify => exact kept.store o _ r (kept.load o r start)
  | internal => exact start
  | push => exact kept.write _ _ _ start
  | pull => exact kept.read _ _ start
  | branch =>
      cases o with
      | memory target =>
          simp only [Action.perform]
          split <;> exact start
      | accumulator | nothing => exact start
  | jump => cases o <;> exact start
  | call =>
      cases o with
      | memory target => exact kept.pushWord _ r start
      | accumulator | nothing => exact start
  | returnCall => exact kept.pullWord r start
  | returnInterrupt => exact kept.pullWord _ (kept.read _ _ start)

theorem performed (kept : Kept holds) (cpu : Cpu) (i : Instruction)
    (start : holds (AddressSpace.read m cpu.registers.pc).2) : holds (cpu.performed m i).memory :=
  kept.perform _ _ _ (kept.locate _ _ start)

theorem interrupt (kept : Kept holds) (vector : UInt16) (cpu : Cpu) (start : holds m) :
    holds (cpu.interrupt vector m).2 :=
  kept.read _ _ (kept.read _ _ (kept.write _ _ _ (kept.pushWord _ _ start)))

end Kept

-- A map that answers alike as long as something holds, which once it has ended does not come back.
structure FaithfulWhile {μ ν : Type} [AddressSpace μ] [AddressSpace ν] (holds : ν → Prop) (f : ν → μ) : Prop where
  ended : Lasting fun n => ¬ holds n
  read : ∀ n a, holds (AddressSpace.read n a).2 →
    AddressSpace.read (f n) a = ((AddressSpace.read n a).1,f (AddressSpace.read n a).2)
  write : ∀ n a v, holds (AddressSpace.write n a v) →
    AddressSpace.write (f n) a v = f (AddressSpace.write n a v)
  stall : ∀ n, holds (takeStall n).2 → takeStall (f n) = ((takeStall n).1,f (takeStall n).2)

namespace FaithfulWhile

variable {μ ν : Type} [AddressSpace μ] [AddressSpace ν] {holds : ν → Prop} {f : ν → μ} {n : ν}

theorem ending (h : FaithfulWhile holds f) : Kept fun n => ¬ holds n := ⟨h.ended.read,h.ended.write⟩

theorem before_read (h : FaithfulWhile holds f) {a : UInt16} (still : holds (AddressSpace.read n a).2) : holds n :=
  Classical.byContradiction fun lost => h.ended.read n a lost still

theorem before_write (h : FaithfulWhile holds f) {a : UInt16} {v : UInt8}
    (still : holds (AddressSpace.write n a v)) : holds n :=
  Classical.byContradiction fun lost => h.ended.write n a v lost still

theorem locate (h : FaithfulWhile holds f) (mode : Mode) (r : Registers) (still : holds (mode.locate r n).memory) :
    (mode.locate r n).operand = (mode.locate r (f n)).operand ∧
      (mode.locate r n).crossed = (mode.locate r (f n)).crossed ∧
      (mode.locate r n).registers = (mode.locate r (f n)).registers ∧
      f (mode.locate r n).memory = (mode.locate r (f n)).memory := by
  cases mode with
  | implied | accumulator | immediate => exact ⟨rfl,rfl,rfl,rfl⟩
  | zeroPage | zeroPageX | zeroPageY | relative =>
      simp only [Mode.locate,fetch] at still ⊢
      simp only [h.read _ _ still,and_self]
  | absolute | absoluteX | absoluteY =>
      simp only [Mode.locate,fetch,fetchWord,indexed] at still ⊢
      simp only [h.read _ _ (h.before_read still),h.read _ _ still,and_self]
  | indirectX | indirectY =>
      simp only [Mode.locate,fetch,readZeroPageWord,indexed] at still ⊢
      have second := h.before_read still
      simp only [h.read _ _ (h.before_read second),h.read _ _ second,h.read _ _ still,and_self]
  | indirect =>
      simp only [Mode.locate,fetch,fetchWord,readPointerWord] at still ⊢
      have third := h.before_read still
      have second := h.before_read third
      simp only [h.read _ _ (h.before_read second),h.read _ _ second,h.read _ _ third,h.read _ _ still,and_self]

theorem perform (h : FaithfulWhile holds f) (action : Action) (o : Operand) (r : Registers)
    (still : holds (action.perform o r n).memory) :
    (action.perform o r n).registers = (action.perform o r (f n)).registers ∧
      (action.perform o r n).extra = (action.perform o r (f n)).extra ∧
      f (action.perform o r n).memory = (action.perform o r (f n)).memory := by
  -- What holds at the end of an action held after each of its accesses.
  cases action with
  | load update =>
      cases o with
      | memory a =>
          simp only [Action.perform,Operand.load] at still ⊢
          simp only [h.read _ _ still,and_self]
      | accumulator | nothing => exact ⟨rfl,rfl,rfl⟩
  | store value =>
      cases o with
      | memory a => exact ⟨rfl,rfl,(h.write n a _ still).symm⟩
      | accumulator | nothing => exact ⟨rfl,rfl,rfl⟩
  | modify result =>
      cases o with
      | memory a =>
          simp only [Action.perform,Operand.load,Operand.store] at still ⊢
          simp only [h.read _ _ (h.before_write still),h.write _ _ _ still,and_self]
      | accumulator | nothing => exact ⟨rfl,rfl,rfl⟩
  | internal update => exact ⟨rfl,rfl,rfl⟩
  | push value => exact ⟨rfl,rfl,(h.write n _ _ still).symm⟩
  | pull update =>
      simp only [Action.perform,Stack.pull] at still ⊢
      simp only [h.read _ _ still,and_self]
  | branch taken =>
      cases o with
      | memory target =>
          simp only [Action.perform]
          split <;> exact ⟨rfl,rfl,rfl⟩
      | accumulator | nothing => exact ⟨rfl,rfl,rfl⟩
  | jump => cases o <;> exact ⟨rfl,rfl,rfl⟩
  | call =>
      cases o with
      | memory target =>
          simp only [Action.perform,Stack.pushWord,Stack.push] at still ⊢
          simp only [h.write _ _ _ (h.before_write still),h.write _ _ _ still,and_self]
      | accumulator | nothing => exact ⟨rfl,rfl,rfl⟩
  | returnCall =>
      simp only [Action.perform,Stack.pullWord,Stack.pull] at still ⊢
      simp only [h.read _ _ (h.before_read still),h.read _ _ still,and_self]
  | returnInterrupt =>
      simp only [Action.perform,Stack.pullWord,Stack.pull] at still ⊢
      have second := h.before_read still
      simp only [h.read _ _ (h.before_read second),h.read _ _ second,h.read _ _ still,and_self]

theorem performed (h : FaithfulWhile holds f) (cpu : Cpu) (i : Instruction)
    (still : holds (cpu.performed n i).memory) :
    (cpu.performed n i).registers = (cpu.performed (f n) i).registers ∧ cpu.cost n i = cpu.cost (f n) i ∧
      f (cpu.performed n i).memory = (cpu.performed (f n) i).memory := by
  have found : holds (cpu.located n i).memory :=
    Classical.byContradiction fun lost => h.ending.perform i.mnemonic.action _ _ lost still
  have fetched : holds (AddressSpace.read n cpu.registers.pc).2 :=
    Classical.byContradiction fun lost => h.ending.performed cpu i lost still
  have here : cpu.located (f n) i = i.mode.locate {cpu.registers with pc := cpu.registers.pc + 1}
      (f (AddressSpace.read n cpu.registers.pc).2) := by
    rw [Cpu.located,h.read _ _ fetched]
  obtain ⟨operand,crossed,registers,memory⟩ := h.locate i.mode _ found
  obtain ⟨done,extra,left⟩ := h.perform i.mnemonic.action _ _ still
  simp only [Cpu.cost,Cpu.performed,here,← operand,← crossed,← registers,← memory]
  exact ⟨done,congrArg _ extra,left⟩

theorem step (h : FaithfulWhile holds f) (cpu : Cpu) (still : holds (cpu.step n).memory) :
    (cpu.step n).outcome = (cpu.step (f n)).outcome ∧ (cpu.step n).cpu = (cpu.step (f n)).cpu ∧
      f (cpu.step n).memory = (cpu.step (f n)).memory := by
  cases decoded : decode (AddressSpace.read n cpu.registers.pc).1 with
  | none =>
      rw [cpu.step_unknown n decoded] at still
      have opcode := h.read _ _ still
      rw [cpu.step_unknown n decoded,cpu.step_unknown (f n) (by rw [opcode,decoded]),opcode]
      exact ⟨rfl,rfl,rfl⟩
  | some i =>
      rw [cpu.step_known n i decoded] at still
      have done : holds (cpu.performed n i).memory := Classical.byContradiction fun lost => h.ended.stall _ lost still
      have opcode := h.read _ _ (Classical.byContradiction fun lost => h.ending.performed cpu i lost done)
      obtain ⟨registers,cost,memory⟩ := h.performed cpu i done
      rw [cpu.step_known n i decoded,cpu.step_known (f n) i (by rw [opcode,decoded]),← registers,← cost,← memory,
        h.stall _ still]
      exact ⟨rfl,rfl,rfl⟩

theorem interrupt (h : FaithfulWhile holds f) (vector : UInt16) (cpu : Cpu)
    (still : holds (cpu.interrupt vector n).2) :
    (cpu.interrupt vector n).1 = (cpu.interrupt vector (f n)).1 ∧
      f (cpu.interrupt vector n).2 = (cpu.interrupt vector (f n)).2 := by
  simp only [Cpu.interrupt,Stack.pushWord,Stack.push,readWord] at still ⊢
  have low := h.before_read still
  have status := h.before_read low
  have second := h.before_write status
  simp only [h.write _ _ _ (h.before_write second),h.write _ _ _ second,h.write _ _ _ status,h.read _ _ low,
    h.read _ _ still,and_self]

theorem reset (h : FaithfulWhile holds f) (still : holds (Cpu.reset n).2) :
    (Cpu.reset n).1 = (Cpu.reset (f n)).1 ∧ f (Cpu.reset n).2 = (Cpu.reset (f n)).2 := by
  simp only [Cpu.reset,readWord] at still ⊢
  simp only [h.read _ _ (h.before_read still),h.read _ _ still,and_self]

end FaithfulWhile

structure Faithful {μ ν : Type} [AddressSpace μ] [AddressSpace ν] (f : ν → μ) : Prop where
  read : ∀ n a, (AddressSpace.read n a).1 = (AddressSpace.read (f n) a).1 ∧
    f (AddressSpace.read n a).2 = (AddressSpace.read (f n) a).2
  write : ∀ n a v, f (AddressSpace.write n a v) = AddressSpace.write (f n) a v
  stall : ∀ n, (takeStall n).1 = (takeStall (f n)).1 ∧ f (takeStall n).2 = (takeStall (f n)).2

namespace Faithful

variable {μ ν : Type} [AddressSpace μ] [AddressSpace ν] {f : ν → μ}

theorem throughout (h : Faithful f) : FaithfulWhile (fun _ => True) f where
  ended := ⟨fun _ _ lost => absurd trivial lost,fun _ _ _ lost => absurd trivial lost,
    fun _ lost => absurd trivial lost⟩
  read n a _ := Prod.ext (h.read n a).1.symm (h.read n a).2.symm
  write n a v _ := (h.write n a v).symm
  stall n _ := Prod.ext (h.stall n).1.symm (h.stall n).2.symm

theorem step (h : Faithful f) (cpu : Cpu) (n : ν) :
    (cpu.step n).outcome = (cpu.step (f n)).outcome ∧ (cpu.step n).cpu = (cpu.step (f n)).cpu ∧
      f (cpu.step n).memory = (cpu.step (f n)).memory := h.throughout.step cpu trivial

theorem interrupt (h : Faithful f) (vector : UInt16) (cpu : Cpu) (n : ν) :
    (cpu.interrupt vector n).1 = (cpu.interrupt vector (f n)).1 ∧
      f (cpu.interrupt vector n).2 = (cpu.interrupt vector (f n)).2 := h.throughout.interrupt vector cpu trivial

theorem reset (h : Faithful f) (n : ν) :
    (Cpu.reset n).1 = (Cpu.reset (f n)).1 ∧ f (Cpu.reset n).2 = (Cpu.reset (f n)).2 := h.throughout.reset trivial

end Faithful

theorem recorded_faithful {μ : Type} [AddressSpace μ] : Faithful (@Recorded.memory μ) :=
  ⟨fun _ _ => ⟨rfl,rfl⟩,fun _ _ _ => rfl,fun _ => ⟨rfl,rfl⟩⟩

namespace Lasting

variable {μ : Type} [AddressSpace μ] {holds : μ → Prop}

-- The memories with the property make an address space of their own.
abbrev space (lasting : Lasting holds) : AddressSpace {m : μ // holds m} where
  read m a := ((AddressSpace.read m.val a).1,⟨(AddressSpace.read m.val a).2,lasting.read _ _ m.property⟩)
  write m a v := ⟨AddressSpace.write m.val a v,lasting.write _ _ _ m.property⟩
  takeStall m := ((takeStall m.val).1,⟨(takeStall m.val).2,lasting.stall _ m.property⟩)

theorem faithful (lasting : Lasting holds) :
    @Faithful μ {m : μ // holds m} _ lasting.space Subtype.val :=
  let _ := lasting.space
  ⟨fun _ _ => ⟨rfl,rfl⟩,fun _ _ _ => rfl,fun _ => ⟨rfl,rfl⟩⟩

theorem step (lasting : Lasting holds) (cpu : Cpu) (m : μ) (start : holds m) : holds (cpu.step m).memory := by
  let _ := lasting.space
  have same := (lasting.faithful.step cpu ⟨m,start⟩).2.2
  rw [← same]
  exact (cpu.step (⟨m,start⟩ : {m : μ // holds m})).memory.property

theorem interrupt (lasting : Lasting holds) (vector : UInt16) (cpu : Cpu) (m : μ) (start : holds m) :
    holds (cpu.interrupt vector m).2 := by
  let _ := lasting.space
  have same := (lasting.faithful.interrupt vector cpu ⟨m,start⟩).2
  rw [← same]
  exact (cpu.interrupt vector (⟨m,start⟩ : {m : μ // holds m})).2.property

end Lasting

end Famicom
