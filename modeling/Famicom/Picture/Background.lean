import Famicom.Picture.Ppu

namespace Famicom

def patternPixel (lo hi : UInt8) (column : Nat) : UInt8 :=
  let bit := UInt8.ofNat (7 - column)
  (hi >>> bit) % 2 * 2 + (lo >>> bit) % 2

-- A colour number of two bits, 0 being transparent, and the palette it is looked up in.
structure Dot where
  color : UInt8 := 0
  palette : UInt8 := 0
  deriving DecidableEq, Repr

namespace Ppu

-- Four nametables side by side make a plane of 512 by 480 points that wraps at its edges.
def planePoint (p : Ppu) (x y : Nat) : Nat × Nat :=
  let corner := p.control.nametable
  ((x + p.scrollX.toNat + corner % 2 * 256) % 512,(y + p.scrollY.toNat + corner / 2 * 240) % 480)

def nametableBase (planeX planeY : Nat) : Nat := 0x2000 + (planeX / 256 + planeY / 240 * 2) * 0x400

def tileAddress (planeX planeY : Nat) : UInt16 :=
  UInt16.ofNat (nametableBase planeX planeY + planeY % 240 / 8 * 32 + planeX % 256 / 8)

-- An attribute byte serves four by four tiles, two bits for each quarter of them.
def attributeAddress (planeX planeY : Nat) : UInt16 :=
  UInt16.ofNat (nametableBase planeX planeY + 0x3C0 + planeY % 240 / 8 / 4 * 8 + planeX % 256 / 8 / 4)

def attributeShift (planeX planeY : Nat) : UInt8 :=
  UInt8.ofNat (planeY % 240 / 8 / 2 % 2 * 4 + planeX % 256 / 8 / 2 % 2 * 2)

def tileRowAddress (p : Ppu) (tile : UInt8) (row : Nat) : UInt16 :=
  p.control.backgroundTable + tile.toUInt16 * 16 + UInt16.ofNat row

def planeDot (p : Ppu) (c : Cartridge) (planeX planeY : Nat) : Dot :=
  let tile := p.read c (tileAddress planeX planeY)
  let row := p.tileRowAddress tile (planeY % 8)
  let attributes := p.read c (attributeAddress planeX planeY)
  {color := patternPixel (p.read c row) (p.read c (row + 8)) (planeX % 8)
   palette := (attributes >>> attributeShift planeX planeY) % 4}

def backgroundDot (p : Ppu) (c : Cartridge) (x y : Nat) : Dot :=
  if p.mask.backgroundAt x then
    let (planeX,planeY) := p.planePoint x y
    p.planeDot c planeX planeY
  else {}

end Ppu
end Famicom
