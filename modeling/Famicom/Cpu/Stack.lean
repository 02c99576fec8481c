import Famicom.AddressSpace
import Famicom.Cpu.Registers

namespace Famicom.Stack

open AddressSpace

variable {μ : Type} [AddressSpace μ]

@[specialize] def push (v : UInt8) (r : Registers) (m : μ) : Registers × μ :=
  let m := write m r.stackTop v
  ({r with sp := r.sp - 1},m)

-- A word's high byte is pushed first, so that the word lies there low byte first.
@[specialize] def pushWord (w : UInt16) (r : Registers) (m : μ) : Registers × μ :=
  let (r,m) := push (highByte w) r m
  push (lowByte w) r m

@[specialize] def pull (r : Registers) (m : μ) : UInt8 × Registers × μ :=
  let r := {r with sp := r.sp + 1}
  let (v,m) := read m r.stackTop
  (v,r,m)

@[specialize] def pullWord (r : Registers) (m : μ) : UInt16 × Registers × μ :=
  let (lo,r,m) := pull r m
  let (hi,r,m) := pull r m
  (word lo hi,r,m)

end Famicom.Stack
