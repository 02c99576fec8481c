import Famicom.Cpu.Status

namespace Famicom

structure Registers where
  a : UInt8 := 0
  x : UInt8 := 0
  y : UInt8 := 0
  p : Status := Status.powerOn
  sp : UInt8 := 0xFD
  pc : UInt16 := 0
  deriving DecidableEq, Repr

namespace Registers

def judging (r : Registers) (result : UInt8) : Registers := {r with p := r.p.judging result}

def stackTop (r : Registers) : UInt16 := word r.sp 0x01

def text (r : Registers) : String :=
  s!"PC:{hexWord r.pc} A:{hexByte r.a} X:{hexByte r.x} Y:{hexByte r.y} P:{hexByte r.p.toByte} SP:{hexByte r.sp}"

end Registers
end Famicom
