import Famicom.Proofs.Cpu.Cycles

namespace Famicom

variable {μ ν : Type} [AddressSpace μ] [AddressSpace ν]

inductive Operation where
  | step
  | run (budget : Nat)
  | nmi
  | irq
  | reset
  deriving DecidableEq, Repr

namespace Operation

inductive Result where
  | stepped (outcome : Except UnknownOpcode UInt32)
  | ran (fault : Option UnknownOpcode)
  | taken (yes : Bool)
  | nothing

def result (op : Operation) (cpu : Cpu) (m : μ) : Result :=
  match op with
  | .step => .stepped (cpu.step m).outcome
  | .run budget => .ran (cpu.run m budget).fault
  | .irq => .taken (cpu.irq m).1
  | .nmi | .reset => .nothing

def done (op : Operation) (cpu : Cpu) (m : μ) : Cpu × μ :=
  match op with
  | .step => ((cpu.step m).cpu,(cpu.step m).memory)
  | .run budget => ((cpu.run m budget).cpu,(cpu.run m budget).memory)
  | .nmi => cpu.nmi m
  | .irq => (cpu.irq m).2
  | .reset => Cpu.reset m

def doneAll (cpu : Cpu) (m : μ) (ops : List Operation) : Cpu × μ :=
  match ops with
  | [] => (cpu,m)
  | op :: rest => doneAll (op.done cpu m).1 (op.done cpu m).2 rest

def results (cpu : Cpu) (m : μ) (ops : List Operation) : List Result :=
  match ops with
  | [] => []
  | op :: rest => op.result cpu m :: results (op.done cpu m).1 (op.done cpu m).2 rest

end Operation

theorem Cpu.run_succ (cpu : Cpu) (m : μ) (budget : Nat) :
    cpu.run m (budget + 1) =
      match (cpu.step m).outcome with
      | .ok _ => (cpu.step m).cpu.run (cpu.step m).memory budget
      | .error e => ⟨some e,(cpu.step m).cpu,(cpu.step m).memory⟩ := by
  rw [Cpu.run]
  cases cpu.step m with
  | mk outcome cpu m => cases outcome <;> rfl

namespace Lasting

variable {holds : μ → Prop}

theorem run (lasting : Lasting holds) (budget : Nat) (cpu : Cpu) (m : μ) (start : holds m) :
    holds (cpu.run m budget).memory := by
  induction budget generalizing cpu m with
  | zero => exact start
  | succ budget ih =>
      have stepped := lasting.step cpu m start
      rw [Cpu.run_succ]
      cases (cpu.step m).outcome with
      | ok => exact ih _ _ stepped
      | error => exact stepped

theorem operation (lasting : Lasting holds) (op : Operation) (cpu : Cpu) (m : μ) (start : holds m) :
    holds (op.done cpu m).2 := by
  cases op with
  | step => exact lasting.step cpu m start
  | run budget => exact lasting.run budget cpu m start
  | nmi => exact lasting.interrupt nmiVector cpu m start
  | irq =>
      rw [Operation.done,Cpu.irq]
      split
      · exact start
      · exact lasting.interrupt irqVector cpu m start
  | reset => exact lasting.read _ _ (lasting.read _ _ start)

theorem operations (lasting : Lasting holds) (ops : List Operation) (cpu : Cpu) (m : μ) (start : holds m) :
    holds (Operation.doneAll cpu m ops).2 := by
  induction ops generalizing cpu m with
  | nil => exact start
  | cons op rest ih => exact ih _ _ (lasting.operation op cpu m start)

end Lasting

namespace FaithfulWhile

variable {holds : ν → Prop} {f : ν → μ}

theorem run (h : FaithfulWhile holds f) (budget : Nat) (cpu : Cpu) (n : ν)
    (still : holds (cpu.run n budget).memory) :
    (cpu.run n budget).fault = (cpu.run (f n) budget).fault ∧ (cpu.run n budget).cpu = (cpu.run (f n) budget).cpu ∧
      f (cpu.run n budget).memory = (cpu.run (f n) budget).memory := by
  induction budget generalizing cpu n with
  | zero => exact ⟨rfl,rfl,rfl⟩
  | succ budget ih =>
      rw [Cpu.run_succ] at still
      have stepped : holds (cpu.step n).memory := by
        cases outcome : (cpu.step n).outcome with
        | ok =>
            rw [outcome] at still
            exact Classical.byContradiction fun lost => h.ended.run budget _ _ lost still
        | error => rwa [outcome] at still
      obtain ⟨same,after,memory⟩ := h.step cpu stepped
      rw [Cpu.run_succ,Cpu.run_succ,← same,← after,← memory]
      cases outcome : (cpu.step n).outcome with
      | ok =>
          rw [outcome] at still
          exact ih _ _ still
      | error => exact ⟨rfl,rfl,rfl⟩

theorem operation (h : FaithfulWhile holds f) (op : Operation) (cpu : Cpu) (n : ν)
    (still : holds (op.done cpu n).2) :
    op.result cpu n = op.result cpu (f n) ∧ (op.done cpu n).1 = (op.done cpu (f n)).1 ∧
      f (op.done cpu n).2 = (op.done cpu (f n)).2 := by
  cases op with
  | step =>
      obtain ⟨outcome,done⟩ := h.step cpu still
      exact ⟨congrArg Operation.Result.stepped outcome,done⟩
  | run budget =>
      obtain ⟨fault,done⟩ := h.run budget cpu n still
      exact ⟨congrArg Operation.Result.ran fault,done⟩
  | nmi => exact ⟨rfl,h.interrupt nmiVector cpu still⟩
  | irq =>
      simp only [Operation.done,Operation.result,Cpu.irq] at still ⊢
      by_cases refused : cpu.registers.p.interruptDisable = true
      · simp only [if_pos refused,and_self]
      · simp only [if_neg refused] at still ⊢
        exact ⟨trivial,h.interrupt irqVector cpu still⟩
  | reset => exact ⟨rfl,h.reset still⟩

theorem operations (h : FaithfulWhile holds f) (ops : List Operation) (cpu : Cpu) (n : ν)
    (still : holds (Operation.doneAll cpu n ops).2) :
    Operation.results cpu n ops = Operation.results cpu (f n) ops ∧
      (Operation.doneAll cpu n ops).1 = (Operation.doneAll cpu (f n) ops).1 ∧
      f (Operation.doneAll cpu n ops).2 = (Operation.doneAll cpu (f n) ops).2 := by
  induction ops generalizing cpu n with
  | nil => exact ⟨rfl,rfl,rfl⟩
  | cons op rest ih =>
      have first : holds (op.done cpu n).2 :=
        Classical.byContradiction fun lost => h.ended.operations rest _ _ lost still
      obtain ⟨result,after,memory⟩ := h.operation op cpu n first
      obtain ⟨results,done⟩ := ih _ _ still
      rw [Operation.results,Operation.results,Operation.doneAll,Operation.doneAll,result,← after,← memory,results]
      exact ⟨rfl,done⟩

end FaithfulWhile

theorem Faithful.operations {f : ν → μ} (h : Faithful f) (ops : List Operation) (cpu : Cpu) (n : ν) :
    Operation.results cpu n ops = Operation.results cpu (f n) ops ∧
      (Operation.doneAll cpu n ops).1 = (Operation.doneAll cpu (f n) ops).1 ∧
      f (Operation.doneAll cpu n ops).2 = (Operation.doneAll cpu (f n) ops).2 :=
  h.throughout.operations ops cpu n trivial

end Famicom
