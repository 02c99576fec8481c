import Famicom.Word
import Famicom.Cartridge.Bank
import Famicom.Cartridge.Mirroring

namespace Famicom

inductive ImageError where
  | shorterThanHeader
  | missingSignature
  | noProgramBanks
  | truncated (expected found : Nat)
  | unsupportedMapper (number : Nat)
  deriving DecidableEq, Repr

def ImageError.message : ImageError → String
  | shorterThanHeader => "invalid iNES image: shorter than header"
  | missingSignature => "invalid iNES image: missing NES<EOF> signature"
  | noProgramBanks => "invalid iNES image: no PRG ROM banks"
  | truncated expected found => s!"iNES image truncated: expected {expected} bytes, found {found}"
  | unsupportedMapper number => s!"unsupported iNES mapper {number}"

structure Header where
  prgBanks : UInt8
  chrBanks : UInt8
  flags6 : UInt8
  flags7 : UInt8
  deriving DecidableEq, Repr

namespace Header

def size : Nat := 16

def signature : List UInt8 := [0x4E,0x45,0x53,0x1A]

-- Reads the header of an image; of the bytes that follow it only their presence counts.
def parse (image : Array UInt8) : Except ImageError Header :=
  if image.size < size then .error .shorterThanHeader
  else if (image.extract 0 4).toList ≠ signature then .error .missingSignature
  else .ok ⟨image.getD 4 0,image.getD 5 0,image.getD 6 0,image.getD 7 0⟩

def mapperNumber (h : Header) : Nat := h.flags7.toNat / 16 * 16 + h.flags6.toNat / 16

def hasTrainer (h : Header) : Bool := hasBit h.flags6 0x04

def hasBattery (h : Header) : Bool := hasBit h.flags6 0x02

-- The four-screen flag outranks the flag that chooses between the other two.
def mirroring (h : Header) : Mirroring :=
  if hasBit h.flags6 0x08 then .fourScreen else if hasBit h.flags6 0x01 then .vertical else .horizontal

def prgSize (h : Header) : Nat := h.prgBanks.toNat * prgBankSize

def chrSize (h : Header) : Nat := h.chrBanks.toNat * chrBankSize

def trainerSize (h : Header) : Nat := if h.hasTrainer then 512 else 0

def imageSize (h : Header) : Nat := size + h.trainerSize + h.prgSize + h.chrSize

end Header
end Famicom
