import Famicom.Console.Bus
import Famicom.Cpu.Step

namespace Famicom

inductive Level where
  | error
  | warn
  | info
  | debug
  | trace
  deriving DecidableEq, Repr

namespace Level

def text : Level → String
  | error => "ERROR"
  | warn => "WARN"
  | info => "INFO"
  | debug => "DEBUG"
  | trace => "TRACE"

def rank : Level → Nat
  | error => 1
  | warn => 2
  | info => 3
  | debug => 4
  | trace => 5

end Level

inductive Record where
  | loaded (cartridge : Cartridge)
  | reset (pc : UInt16)
  -- A serial register has taken a value; `registers` is the state after it.
  | latched (address : UInt16) (value : BitVec 5) (registers : Mmc1)
  -- An opcode was stepped over, for the first time or again.
  | skipped (unknown : UnknownOpcode) (first : Bool)
  | halted (unknown : UnknownOpcode) (frames : UInt64)

namespace Record

def level : Record → Level
  | loaded _ => .info
  | reset _ => .debug
  | latched _ _ _ => .debug
  | skipped _ first => if first then .warn else .trace
  | halted _ _ => .error

private def fiveBits (v : BitVec 5) : String := numeral 2 5 v.toNat

def text : Record → String
  | loaded c =>
    let patterns := if c.chrWritable then "8KB RAM" else s!"{c.header.chrBanks}x8KB"
    s!"Loaded cartridge: mapper {c.mapper.number} ({c.mapper.name}), PRG {c.header.prgBanks}x16KB, " ++
      s!"CHR {patterns}, {c.header.mirroring.text} mirroring, trainer: {c.trainer.isSome}, PRG RAM: {c.hasRam}"
  | reset pc => s!"Reset: PC=${hexWord pc}"
  | latched address value registers =>
    s!"MMC1: ${hexWord address} <- {fiveBits value} (control={fiveBits registers.control} " ++
      s!"chr0={registers.chr0.toNat} chr1={registers.chr1.toNat} prg={registers.prg.toNat})"
  | skipped unknown _ => s!"Skipping unimplemented opcode ${hexByte unknown.opcode} at ${hexWord unknown.pc}"
  | halted unknown frames =>
    s!"Unimplemented opcode ${hexByte unknown.opcode} at ${hexWord unknown.pc}, halting after {frames} frames"

def line (r : Record) : String := s!"{r.level.text} {r.text}"

end Record

def Mapper.latched? (m : Mapper) (a : UInt16) (v : UInt8) : Option Record :=
  match m with
  | .nrom => none
  | .mmc1 registers => (registers.completes? v).map (.latched a · (registers.write a v))

-- A bus, and the records made while working on it, newest first.
structure Journal where
  bus : Bus
  records : List Record := []

namespace Journal

def note (j : Journal) (r : Record) : Journal := {j with records := r :: j.records}

def write (j : Journal) (a : UInt16) (v : UInt8) : Journal :=
  match Bus.Region.containing a with
  | .program =>
    match j.bus.cartridge.mapper.latched? a v with
    | some r => {bus := j.bus.write a v,records := r :: j.records}
    | none => {j with bus := j.bus.write a v}
  | _ => {j with bus := j.bus.write a v}

theorem write_bus (j : Journal) (a : UInt16) (v : UInt8) : (j.write a v).bus = j.bus.write a v := by
  unfold write
  split
  · split <;> rfl
  · rfl

instance : AddressSpace Journal where
  read j a :=
    let (v,bus) := j.bus.read a
    (v,{j with bus := bus})
  write := write
  takeStall j :=
    let (n,bus) := AddressSpace.takeStall j.bus
    (n,{j with bus := bus})

end Journal
end Famicom
