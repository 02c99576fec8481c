import Famicom.AddressSpace
import Famicom.Cpu.Instruction
import Famicom.Cpu.Registers

namespace Famicom

open AddressSpace

variable {μ : Type} [AddressSpace μ]

inductive Operand where
  | nothing
  | accumulator
  | memory (address : UInt16)
  deriving DecidableEq, Repr

structure Located (μ : Type) where
  operand : Operand
  crossed : Bool
  registers : Registers
  memory : μ

@[specialize] def fetch (r : Registers) (m : μ) : UInt8 × Registers × μ :=
  let (v,m) := read m r.pc
  (v,{r with pc := r.pc + 1},m)

@[specialize] def fetchWord (r : Registers) (m : μ) : UInt16 × Registers × μ :=
  let (lo,r,m) := fetch r m
  let (hi,r,m) := fetch r m
  (word lo hi,r,m)

def indexed (base : UInt16) (index : UInt8) (r : Registers) (m : μ) : Located μ :=
  let address := base + index.toUInt16
  ⟨.memory address,crossesPage base address,r,m⟩

-- An immediate operand is the byte after the opcode itself, so it is found without reading. Zero-page
-- indexing stays in the zero page, and a branch counts from the instruction that follows it.
@[specialize] def Mode.locate (mode : Mode) (r : Registers) (m : μ) : Located μ :=
  match mode with
  | .implied => ⟨.nothing,false,r,m⟩
  | .accumulator => ⟨.accumulator,false,r,m⟩
  | .immediate => ⟨.memory r.pc,false,{r with pc := r.pc + 1},m⟩
  | .zeroPage =>
    let (cell,r,m) := fetch r m
    ⟨.memory cell.toUInt16,false,r,m⟩
  | .zeroPageX =>
    let (cell,r,m) := fetch r m
    ⟨.memory (cell + r.x).toUInt16,false,r,m⟩
  | .zeroPageY =>
    let (cell,r,m) := fetch r m
    ⟨.memory (cell + r.y).toUInt16,false,r,m⟩
  | .absolute =>
    let (address,r,m) := fetchWord r m
    ⟨.memory address,false,r,m⟩
  | .absoluteX =>
    let (base,r,m) := fetchWord r m
    indexed base r.x r m
  | .absoluteY =>
    let (base,r,m) := fetchWord r m
    indexed base r.y r m
  | .indirect =>
    let (pointer,r,m) := fetchWord r m
    let (address,m) := readPointerWord m pointer
    ⟨.memory address,false,r,m⟩
  | .indirectX =>
    let (cell,r,m) := fetch r m
    let (address,m) := readZeroPageWord m (cell + r.x)
    ⟨.memory address,false,r,m⟩
  | .indirectY =>
    let (cell,r,m) := fetch r m
    let (base,m) := readZeroPageWord m cell
    indexed base r.y r m
  | .relative =>
    let (distance,r,m) := fetch r m
    ⟨.memory (r.pc + displacement distance),false,r,m⟩

namespace Operand

@[specialize] def load (operand : Operand) (r : Registers) (m : μ) : UInt8 × μ :=
  match operand with
  | .memory address => read m address
  | .accumulator => (r.a,m)
  | .nothing => (0,m)

@[specialize] def store (operand : Operand) (v : UInt8) (r : Registers) (m : μ) : Registers × μ :=
  match operand with
  | .memory address => (r,write m address v)
  | .accumulator => ({r with a := v},m)
  | .nothing => (r,m)

end Operand
end Famicom
