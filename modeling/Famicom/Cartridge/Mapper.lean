import Famicom.Cartridge.Mmc1
import Famicom.Cartridge.Nrom

namespace Famicom

-- A mapper holds bank registers only: memory is handed to it, it picks the offset, and an offset
-- outside that memory reads zero and takes no write.
inductive Mapper where
  | nrom
  | mmc1 (registers : Mmc1)
  deriving DecidableEq, Repr

namespace Mapper

def ofNumber? : Nat → Option Mapper
  | 0 => some nrom
  | 1 => some (mmc1 .powerOn)
  | _ => none

def number : Mapper → Nat
  | nrom => 0
  | mmc1 _ => 1

def name : Mapper → String
  | nrom => "NROM"
  | mmc1 _ => "MMC1"

def powerOn : Mapper → Mapper
  | nrom => nrom
  | mmc1 _ => mmc1 .powerOn

def prgOffset (m : Mapper) (size : Nat) (a : UInt16) : Nat :=
  match m with
  | nrom => Nrom.prgOffset size a
  | mmc1 registers => registers.prgOffset size a

def chrOffset (m : Mapper) (size : Nat) (a : UInt16) : Nat :=
  match m with
  | nrom => Nrom.chrOffset size a
  | mmc1 registers => registers.chrOffset size a

def prgRead (m : Mapper) (prg : Array UInt8) (a : UInt16) : UInt8 := prg.getD (m.prgOffset prg.size a) 0

def chrRead (m : Mapper) (chr : Array UInt8) (a : UInt16) : UInt8 := chr.getD (m.chrOffset chr.size a) 0

def chrWrite (m : Mapper) (chr : Array UInt8) (a : UInt16) (v : UInt8) : Array UInt8 :=
  chr.setIfInBounds (m.chrOffset chr.size a) v

def prgWrite (m : Mapper) (a : UInt16) (v : UInt8) : Mapper :=
  match m with
  | nrom => nrom
  | mmc1 registers => mmc1 (registers.write a v)

def mirroring (m : Mapper) (board : Mirroring) : Mirroring :=
  match m with
  | nrom => board
  | mmc1 registers => registers.mirroring board

def ramEnabled : Mapper → Bool
  | nrom => true
  | mmc1 registers => registers.ramEnabled

end Mapper
end Famicom
