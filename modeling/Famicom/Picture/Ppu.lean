import Famicom.Cartridge.Image
import Famicom.Picture.Control

namespace Famicom

structure Ppu where
  vram : Vector UInt8 0x1000
  palette : Vector UInt8 0x20
  oam : Vector UInt8 0x100
  control : Control := {}
  mask : Mask := {}
  report : Report := {}
  oamAddress : UInt8 := 0
  scrollX : UInt8 := 0
  scrollY : UInt8 := 0
  address : UInt16 := 0
  -- The next write to the scroll or address register is the second of its pair.
  latch : Bool := false
  -- The byte that the next data read below the palette delivers.
  buffer : UInt8 := 0

inductive Ppu.Register where
  | control
  | mask
  | status
  | oamAddress
  | oamData
  | scroll
  | address
  | data
  deriving DecidableEq, Repr

namespace Ppu

def Register.selected (a : UInt16) : Register :=
  match a.toNat % 8 with
  | 0 => .control
  | 1 => .mask
  | 2 => .status
  | 3 => .oamAddress
  | 4 => .oamData
  | 5 => .scroll
  | 6 => .address
  | _ => .data

def powerOn : Ppu where
  vram := Vector.replicate _ 0
  palette := Vector.ofFn fun i => UInt8.ofNat (i.val % 16)
  oam := Vector.replicate _ 0

def paletteBase : UInt16 := 0x3F00

def fold (a : UInt16) : UInt16 := a % 0x4000

-- The first cell of a sprite palette is the first cell of the background palette of the same number.
def paletteCell (a : UInt16) : Fin 0x20 :=
  let i : Fin 0x20 := ⟨a.toNat % 0x20,by omega⟩
  if 0x10 ≤ i.val ∧ i.val % 4 = 0 then i - 0x10 else i

def read (p : Ppu) (c : Cartridge) (a : UInt16) : UInt8 :=
  let a := fold a
  if a < 0x2000 then c.chrRead a
  else if a < paletteBase then p.vram[c.mirroring.cell a]
  else p.palette[paletteCell a] % 0x40

def write (p : Ppu) (c : Cartridge) (a : UInt16) (v : UInt8) : Ppu × Cartridge :=
  let a := fold a
  if a < 0x2000 then (p,c.chrWrite a v)
  else if a < paletteBase then
    let cell := c.mirroring.cell a
    ({p with vram := p.vram.set cell v},c)
  else ({p with palette := p.palette.set (paletteCell a) (v % 0x40)},c)

def advance (p : Ppu) : Ppu := {p with address := fold (p.address + p.control.step)}

def storeOam (p : Ppu) (v : UInt8) : Ppu :=
  {p with oam := p.oam.set p.oamAddress.toFin v,oamAddress := p.oamAddress + 1}

def oamByte (p : Ppu) : UInt8 := p.oam[p.oamAddress.toFin]

-- A data read below the palette lags one read behind. A palette byte comes at once, and the buffer
-- takes the nametable byte that lies under the palette.
def readData (p : Ppu) (c : Cartridge) : UInt8 × Ppu :=
  let a := fold p.address
  if paletteBase ≤ a then
    (p.read c a,{p with buffer := p.read c (a - 0x1000)}.advance)
  else (p.buffer,{p with buffer := p.read c a}.advance)

def readRegister (p : Ppu) (c : Cartridge) (register : Register) : UInt8 × Ppu :=
  match register with
  | .status => (p.report.toByte,{p with report := {p.report with vblank := false},latch := false})
  | .oamData => (p.oamByte,p)
  | .data => p.readData c
  | _ => (0,p)

def peekRegister (p : Ppu) (c : Cartridge) (register : Register) : UInt8 :=
  match register with
  | .status => p.report.toByte
  | .oamData => p.oamByte
  | .data =>
    let a := fold p.address
    if paletteBase ≤ a then p.read c a else p.buffer
  | _ => 0

-- Scroll and address take two writes each and share one latch. Of the address the high byte comes
-- first, and only six bits of it exist.
def writeRegister (p : Ppu) (c : Cartridge) (register : Register) (v : UInt8) : Ppu × Cartridge :=
  match register with
  | .control => ({p with control := ⟨v⟩},c)
  | .mask => ({p with mask := ⟨v⟩},c)
  | .status => (p,c)
  | .oamAddress => ({p with oamAddress := v},c)
  | .oamData => (p.storeOam v,c)
  | .scroll =>
    if p.latch then ({p with scrollY := v,latch := false},c) else ({p with scrollX := v,latch := true},c)
  | .address =>
    if p.latch then ({p with address := word v (highByte p.address),latch := false},c)
    else ({p with address := word (lowByte p.address) (v % 0x40),latch := true},c)
  | .data =>
    let (p,c) := p.write c (fold p.address) v
    (p.advance,c)

def beginFrame (p : Ppu) : Ppu := {p with report := {}}

def enterVblank (p : Ppu) : Ppu := {p with report := {p.report with vblank := true}}

def publishSprites (p : Ppu) (hit overflow : Bool) : Ppu :=
  {p with report := {p.report with spriteZeroHit := hit,spriteOverflow := overflow}}

end Ppu
end Famicom
