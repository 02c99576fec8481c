import Famicom.Console.Bus
import Famicom.Cpu.OpcodeMatrix
import Famicom.Numeral

namespace Famicom

def instructionBytes (b : Bus) (pc : UInt16) (instruction : Instruction) : List UInt8 :=
  (List.range (instruction.mode.operandLength + 1)).map fun i => b.peek (pc + UInt16.ofNat i)

def bytesText (bytes : List UInt8) : String := " ".intercalate (bytes.map hexByte)

def padded (width : Nat) (s : String) : String := s ++ String.ofList (List.replicate (width - s.length) ' ')

def disassemble (b : Bus) (pc : UInt16) : String :=
  let opcode := b.peek pc
  match decode opcode with
  | none => s!"${hexWord pc}  {hexByte opcode}        ???"
  | some instruction =>
    let bytes := padded 8 (bytesText (instructionBytes b pc instruction))
    s!"${hexWord pc}  {bytes}  {instruction.mnemonic.text} {instruction.mode.text}"

end Famicom
