import Famicom.Cartridge.Header
import Famicom.Cartridge.Mapper

namespace Famicom

structure Cartridge where
  header : Header
  trainer : Option (Array UInt8)
  prg : Array UInt8
  chr : Array UInt8
  -- The pattern memory was not in the image and can be written.
  chrWritable : Bool
  ram : Option (Vector UInt8 0x2000)
  mapper : Mapper

namespace Cartridge

def cut (image : Array UInt8) (start length : Nat) : Array UInt8 := image.extract start (start + length)

-- The sections follow one another without gaps: header, trainer, program, patterns. Bytes after the
-- last section belong to no section. A board has save memory if a battery keeps it or if its mapper
-- is the one that can switch it off.
def ofSections (image : Array UInt8) (h : Header) (mapper : Mapper) : Cartridge :=
  let program := Header.size + h.trainerSize
  {header := h
   trainer := if h.hasTrainer then some (cut image Header.size h.trainerSize) else none
   prg := cut image program h.prgSize
   chr := if h.chrBanks = 0 then Array.replicate chrBankSize 0 else cut image (program + h.prgSize) h.chrSize
   chrWritable := h.chrBanks == 0
   ram := if h.hasBattery || mapper != .nrom then some (Vector.replicate 0x2000 0) else none
   mapper := mapper}

-- The cartridge of an image. Faults are looked for in the order header, program banks, mapper, length,
-- and the first one found is the one reported.
def load (image : Array UInt8) : Except ImageError Cartridge :=
  match Header.parse image with
  | .error e => .error e
  | .ok h =>
    if h.prgBanks = 0 then .error .noProgramBanks
    else match Mapper.ofNumber? h.mapperNumber with
      | none => .error (.unsupportedMapper h.mapperNumber)
      | some mapper =>
        if image.size < h.imageSize then .error (.truncated h.imageSize image.size)
        else .ok (ofSections image h mapper)

def powerOn (c : Cartridge) : Cartridge := {c with mapper := c.mapper.powerOn}

def mirroring (c : Cartridge) : Mirroring := c.mapper.mirroring c.header.mirroring

def hasRam (c : Cartridge) : Bool := c.ram.isSome

def prgRead (c : Cartridge) (a : UInt16) : UInt8 := c.mapper.prgRead c.prg a

def prgWrite (c : Cartridge) (a : UInt16) (v : UInt8) : Cartridge := {c with mapper := c.mapper.prgWrite a v}

def chrRead (c : Cartridge) (a : UInt16) : UInt8 := c.mapper.chrRead c.chr a

def chrWrite (c : Cartridge) (a : UInt16) (v : UInt8) : Cartridge :=
  if c.chrWritable then {c with chr := c.mapper.chrWrite c.chr a v} else c

def ramCell (a : UInt16) : Fin 0x2000 := ⟨a.toNat % 0x2000,by omega⟩

def ramRead (c : Cartridge) (a : UInt16) : UInt8 :=
  match c.ram with
  | some ram => if c.mapper.ramEnabled then ram[ramCell a] else 0
  | none => 0

def ramWrite (c : Cartridge) (a : UInt16) (v : UInt8) : Cartridge :=
  match c.ram with
  | some ram => if c.mapper.ramEnabled then {c with ram := some (ram.set (ramCell a) v)} else c
  | none => c

end Cartridge
end Famicom
