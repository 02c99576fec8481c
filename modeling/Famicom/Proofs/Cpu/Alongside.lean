import Famicom.Proofs.Cpu.Operations

namespace Famicom

open AddressSpace

variable {μ ν : Type} [AddressSpace μ] [AddressSpace ν]

structure Fence where
  reads : UInt16 → Prop
  writes : UInt16 → Prop

namespace Fence

def Admits (f : Fence) (access : Access) : Prop :=
  match access with
  | .read a _ => f.reads a
  | .write a _ => f.writes a

def Keeps (f : Fence) (seen : List Access) : Prop := ∀ access ∈ seen, f.Admits access

theorem keeps_cons (f : Fence) (access : Access) (seen : List Access) :
    f.Keeps (access :: seen) ↔ f.Admits access ∧ f.Keeps seen := List.forall_mem_cons

end Fence

structure Alongside (f : Fence) (R : μ → ν → Prop) : Prop where
  read : ∀ m n a, R m n → f.reads a →
    (AddressSpace.read m a).1 = (AddressSpace.read n a).1 ∧ R (AddressSpace.read m a).2 (AddressSpace.read n a).2
  write : ∀ m n a v, R m n → f.writes a → R (AddressSpace.write m a v) (AddressSpace.write n a v)
  stall : ∀ m n, R m n → (takeStall m).1 = (takeStall n).1 ∧ R (takeStall m).2 (takeStall n).2

-- Two memories and the accesses to them, which are the same ones as long as they are inside.
structure SideBySide (f : Fence) (R : μ → ν → Prop) where
  left : Recorded μ
  right : Recorded ν
  same : f.Keeps left.accesses → left.accesses = right.accesses ∧ R left.memory right.memory

namespace Alongside

variable {f : Fence} {R : μ → ν → Prop}

theorem symm (alongside : Alongside f R) : Alongside f fun n m => R m n where
  read n m a related inside :=
    ⟨(alongside.read m n a related inside).1.symm,(alongside.read m n a related inside).2⟩
  write n m a v related inside := alongside.write m n a v related inside
  stall n m related := ⟨(alongside.stall m n related).1.symm,(alongside.stall m n related).2⟩

theorem reads_same (alongside : Alongside f R) (t : SideBySide f R) (a : UInt16)
    (inside : f.Keeps (AddressSpace.read t.left a).2.accesses) :
    (AddressSpace.read t.left a).1 = (AddressSpace.read t.right a).1 ∧
      (AddressSpace.read t.left a).2.accesses = (AddressSpace.read t.right a).2.accesses ∧
      R (AddressSpace.read t.left a).2.memory (AddressSpace.read t.right a).2.memory := by
  obtain ⟨here,before⟩ := (f.keeps_cons _ _).mp inside
  obtain ⟨accesses,related⟩ := t.same before
  obtain ⟨value,after⟩ := alongside.read _ _ a related here
  exact ⟨value,congr (congrArg (fun v => List.cons (Access.read a v)) value) accesses,after⟩

theorem writes_same (alongside : Alongside f R) (t : SideBySide f R) (a : UInt16) (v : UInt8)
    (inside : f.Keeps (AddressSpace.write t.left a v).accesses) :
    (AddressSpace.write t.left a v).accesses = (AddressSpace.write t.right a v).accesses ∧
      R (AddressSpace.write t.left a v).memory (AddressSpace.write t.right a v).memory := by
  obtain ⟨here,before⟩ := (f.keeps_cons _ _).mp inside
  obtain ⟨accesses,related⟩ := t.same before
  exact ⟨congrArg (Access.write a v :: ·) accesses,alongside.write _ _ a v related here⟩

-- Both memories get every access, and the left one answers it.
abbrev space (alongside : Alongside f R) : AddressSpace (SideBySide f R) where
  read t a :=
    ((AddressSpace.read t.left a).1,
     ⟨(AddressSpace.read t.left a).2,(AddressSpace.read t.right a).2,fun inside => (alongside.reads_same t a inside).2⟩)
  write t a v := ⟨AddressSpace.write t.left a v,AddressSpace.write t.right a v,alongside.writes_same t a v⟩
  takeStall t :=
    ((takeStall t.left).1,
     ⟨(takeStall t.left).2,(takeStall t.right).2,fun inside =>
       ⟨(t.same inside).1,(alongside.stall _ _ (t.same inside).2).2⟩⟩)

theorem left_faithful (alongside : Alongside f R) : @Faithful (Recorded μ) (SideBySide f R) _ alongside.space SideBySide.left :=
  let _ := alongside.space
  ⟨fun _ _ => ⟨rfl,rfl⟩,fun _ _ _ => rfl,fun _ => ⟨rfl,rfl⟩⟩

theorem right_faithful (alongside : Alongside f R) :
    @FaithfulWhile (Recorded ν) (SideBySide f R) _ alongside.space (fun t => f.Keeps t.left.accesses) SideBySide.right :=
  let _ := alongside.space
  { ended :=
      ⟨fun _ _ lost inside => lost ((f.keeps_cons _ _).mp inside).2,
       fun _ _ _ lost inside => lost ((f.keeps_cons _ _).mp inside).2,fun _ lost => lost⟩
    read := fun t a inside => Prod.ext (alongside.reads_same t a inside).1.symm rfl
    write := fun _ _ _ _ => rfl
    stall := fun t inside => Prod.ext (alongside.stall _ _ (t.same inside).2).1.symm rfl }

theorem operations (alongside : Alongside f R) (ops : List Operation) (cpu : Cpu) (m : μ) (n : ν) (related : R m n)
    (inside : f.Keeps (Operation.doneAll cpu (⟨m,[]⟩ : Recorded μ) ops).2.accesses) :
    Operation.results cpu m ops = Operation.results cpu n ops ∧
      (Operation.doneAll cpu m ops).1 = (Operation.doneAll cpu n ops).1 ∧
      R (Operation.doneAll cpu m ops).2 (Operation.doneAll cpu n ops).2 := by
  -- The two are run as one memory, which is seen as the left one always and as the right one inside the fence.
  let _ := alongside.space
  let start : SideBySide f R := ⟨⟨m,[]⟩,⟨n,[]⟩,fun _ => ⟨rfl,related⟩⟩
  obtain ⟨leftResults,leftCpu,left⟩ := alongside.left_faithful.operations ops cpu start
  have still : f.Keeps (Operation.doneAll cpu start ops).2.left.accesses := by
    rw [left]
    exact inside
  obtain ⟨rightResults,rightCpu,right⟩ := alongside.right_faithful.operations ops cpu start still
  have plain := recorded_faithful.operations ops cpu start.left
  have plainToo := recorded_faithful.operations ops cpu start.right
  refine ⟨?_,?_,?_⟩
  · calc Operation.results cpu m ops
        = Operation.results cpu start.left ops := plain.1.symm
      _ = Operation.results cpu start ops := leftResults.symm
      _ = Operation.results cpu start.right ops := rightResults
      _ = Operation.results cpu n ops := plainToo.1
  · calc (Operation.doneAll cpu m ops).1
        = (Operation.doneAll cpu start.left ops).1 := plain.2.1.symm
      _ = (Operation.doneAll cpu start ops).1 := leftCpu.symm
      _ = (Operation.doneAll cpu start.right ops).1 := rightCpu
      _ = (Operation.doneAll cpu n ops).1 := plainToo.2.1
  · have related := ((Operation.doneAll cpu start ops).2.same still).2
    rw [left,right,plain.2.2,plainToo.2.2] at related
    exact related

end Alongside
end Famicom
