import Famicom.Word

namespace Famicom

-- A read may change what it reads from, and an access may hold the processor up for some cycles.
class AddressSpace (μ : Type) where
  read : μ → UInt16 → UInt8 × μ
  write : μ → UInt16 → UInt8 → μ
  -- The cycles the processor was held up for since the last call, which forgets them.
  takeStall : μ → UInt32 × μ

namespace AddressSpace

@[specialize] def readWord {μ : Type} [AddressSpace μ] (m : μ) (a : UInt16) : UInt16 × μ :=
  let (lo,m) := read m a
  let (hi,m) := read m (a + 1)
  (word lo hi,m)

@[specialize] def readZeroPageWord {μ : Type} [AddressSpace μ] (m : μ) (cell : UInt8) : UInt16 × μ :=
  let (lo,m) := read m cell.toUInt16
  let (hi,m) := read m (cell + 1).toUInt16
  (word lo hi,m)

-- A pointer's word. The high byte is read on the pointer's own page, whose last cell is followed
-- by its first.
@[specialize] def readPointerWord {μ : Type} [AddressSpace μ] (m : μ) (p : UInt16) : UInt16 × μ :=
  let (lo,m) := read m p
  let (hi,m) := read m (word (lowByte (p + 1)) (highByte p))
  (word lo hi,m)

end AddressSpace

structure FlatMemory where
  cells : Vector UInt8 0x10000 := Vector.replicate 0x10000 0
  stall : UInt32 := 0

namespace FlatMemory

def get (m : FlatMemory) (a : UInt16) : UInt8 := m.cells[a.toFin]

def set (m : FlatMemory) (a : UInt16) (v : UInt8) : FlatMemory :=
  {m with cells := m.cells.set a.toFin v}

def addStall (m : FlatMemory) (n : UInt32) : FlatMemory :=
  {m with stall := m.stall + n}

@[simp] theorem get_set_same (m : FlatMemory) (a : UInt16) (v : UInt8) : (m.set a v).get a = v := by
  simp [get,set]

theorem get_set_other (m : FlatMemory) (a b : UInt16) (v : UInt8) (different : a ≠ b) :
    (m.set a v).get b = m.get b := by
  have apart : a.toNat ≠ b.toNat := fun same => different (UInt16.toNat_inj.mp same)
  simp [get,set,apart]

instance : AddressSpace FlatMemory where
  read m a := (m.get a,m)
  write m a v := m.set a v
  takeStall m := (m.stall,{m with stall := 0})

end FlatMemory

inductive Access where
  | read (address : UInt16) (value : UInt8)
  | write (address : UInt16) (value : UInt8)
  deriving DecidableEq, Repr

-- A memory together with the accesses made to it, newest first.
structure Recorded (μ : Type) where
  memory : μ
  accesses : List Access := []

instance {μ : Type} [AddressSpace μ] : AddressSpace (Recorded μ) where
  read m a :=
    let (v,memory) := AddressSpace.read m.memory a
    (v,⟨memory,.read a v :: m.accesses⟩)
  write m a v := ⟨AddressSpace.write m.memory a v,.write a v :: m.accesses⟩
  takeStall m :=
    let (n,memory) := AddressSpace.takeStall m.memory
    (n,{m with memory := memory})

def Recorded.trace {μ : Type} (m : Recorded μ) : List Access := m.accesses.reverse

end Famicom
