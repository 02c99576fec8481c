import Famicom.Proofs.Checked.Cartridge

namespace Famicom.Ppu

open Checked

def paletteIndex? (a : UInt16) : Option Nat :=
  let i := a.toNat % 0x20
  if 0x10 ≤ i ∧ i % 4 = 0 then difference? i 0x10 else some i

def read? (p : Ppu) (c : Cartridge) (a : UInt16) : Option UInt8 :=
  let a := fold a
  if a < 0x2000 then c.chrRead? a
  else if a < paletteBase then p.vram[(c.mirroring.cell a).val]?
  else do
    let i ← paletteIndex? a
    let v ← p.palette[i]?
    some (v % 0x40)

def write? (p : Ppu) (c : Cartridge) (a : UInt16) (v : UInt8) : Option (Ppu × Cartridge) :=
  let a := fold a
  if a < 0x2000 then do
    let c ← c.chrWrite? a v
    some (p,c)
  else if a < paletteBase then do
    let vram ← set? p.vram (c.mirroring.cell a).val v
    some ({p with vram := vram},c)
  else do
    let i ← paletteIndex? a
    let palette ← set? p.palette i (v % 0x40)
    some ({p with palette := palette},c)

def storeOam? (p : Ppu) (v : UInt8) : Option Ppu := do
  let oam ← set? p.oam p.oamAddress.toNat v
  some {p with oam := oam,oamAddress := p.oamAddress + 1}

def oamByte? (p : Ppu) : Option UInt8 := p.oam[p.oamAddress.toNat]?

-- The nametable byte under the palette lies a kilobyte of tables lower.
def underPalette? (a : UInt16) : Option UInt16 := do
  let under ← difference? a.toNat 0x1000
  address? under

def readData? (p : Ppu) (c : Cartridge) : Option (UInt8 × Ppu) :=
  let a := fold p.address
  if paletteBase ≤ a then do
    let under ← underPalette? a
    let buffer ← p.read? c under
    let v ← p.read? c a
    some (v,{p with buffer := buffer}.advance)
  else do
    let buffer ← p.read? c a
    some (p.buffer,{p with buffer := buffer}.advance)

def readRegister? (p : Ppu) (c : Cartridge) (register : Register) : Option (UInt8 × Ppu) :=
  match register with
  | .oamData => do
    let v ← p.oamByte?
    some (v,p)
  | .data => p.readData? c
  | _ => some (p.readRegister c register)

def peekRegister? (p : Ppu) (c : Cartridge) (register : Register) : Option UInt8 :=
  match register with
  | .oamData => p.oamByte?
  | .data =>
    let a := fold p.address
    if paletteBase ≤ a then p.read? c a else some p.buffer
  | _ => some (p.peekRegister c register)

def writeRegister? (p : Ppu) (c : Cartridge) (register : Register) (v : UInt8) : Option (Ppu × Cartridge) :=
  match register with
  | .oamData => do
    let p ← p.storeOam? v
    some (p,c)
  | .data => do
    let (p,c) ← p.write? c (fold p.address) v
    some (p.advance,c)
  | _ => some (p.writeRegister c register v)

theorem paletteIndex?_eq (a : UInt16) : paletteIndex? a = some (paletteCell a).val := by
  have all : ∀ i : Fin 0x20, (if 0x10 ≤ i.val ∧ i.val % 4 = 0 then difference? i.val 0x10 else some i.val) =
      some (if 0x10 ≤ i.val ∧ i.val % 4 = 0 then i - 0x10 else i).val := by decide
  exact all ⟨a.toNat % 0x20,by omega⟩

theorem underPalette?_eq {a : UInt16} (above : paletteBase ≤ a) : underPalette? a = some (a - 0x1000) := by
  have enough : (0x1000 : UInt16) ≤ a := UInt16.le_trans (by decide) above
  have less : a.toNat - 0x1000 = (a - 0x1000).toNat := (UInt16.toNat_sub_of_le _ _ enough).symm
  have within : 0x1000 ≤ a.toNat := UInt16.le_iff_toNat_le.mp enough
  rw [underPalette?,difference?_eq within,Option.bind_eq_bind,Option.bind_some,less,address?_toNat]

variable {c : Cartridge}

theorem read?_eq (whole : c.Whole) (p : Ppu) (a : UInt16) : p.read? c a = some (p.read c a) := by
  have lookup := (paletteCell (fold a)).isLt
  have cell := (c.mirroring.cell (fold a)).isLt
  simp only [read?,read,c.chrRead?_eq whole,paletteIndex?_eq,Option.bind_eq_bind,Option.bind_some,
    Vector.getElem?_eq_getElem lookup,Vector.getElem?_eq_getElem cell]
  split
  · rfl
  · exact (apply_ite some _ _ _).symm

theorem write?_eq (whole : c.Whole) (p : Ppu) (a : UInt16) (v : UInt8) : p.write? c a v = some (p.write c a v) := by
  simp only [write?,write,Cartridge.chrWrite?_eq whole,paletteIndex?_eq,Option.bind_eq_bind,Option.bind_some,
    set?_eq _ _ (Fin.isLt _)]
  split
  · rfl
  · exact (apply_ite some _ _ _).symm

theorem storeOam?_eq (p : Ppu) (v : UInt8) : p.storeOam? v = some (p.storeOam v) := by
  rw [storeOam?,set?_eq _ _ p.oamAddress.toNat_lt]
  rfl

theorem oamByte?_eq (p : Ppu) : p.oamByte? = some p.oamByte := Vector.getElem?_eq_getElem p.oamAddress.toNat_lt

theorem readData?_eq (whole : c.Whole) (p : Ppu) : p.readData? c = some (p.readData c) := by
  unfold readData? readData
  simp only
  split
  · rename_i above
    rw [underPalette?_eq above,read?_eq whole]
    simp only [Option.bind_eq_bind,Option.bind_some,read?_eq whole]
  · rw [read?_eq whole]
    rfl

theorem readRegister?_eq (whole : c.Whole) (p : Ppu) (register : Register) :
    p.readRegister? c register = some (p.readRegister c register) := by
  cases register with
  | oamData =>
      rw [readRegister?,oamByte?_eq]
      rfl
  | data => exact p.readData?_eq whole
  | control | mask | status | oamAddress | scroll | address => rfl

theorem peekRegister?_eq (whole : c.Whole) (p : Ppu) (register : Register) :
    p.peekRegister? c register = some (p.peekRegister c register) := by
  cases register with
  | oamData => exact p.oamByte?_eq
  | data =>
      simp only [peekRegister?,peekRegister,read?_eq whole]
      exact (apply_ite some _ _ _).symm
  | control | mask | status | oamAddress | scroll | address => rfl

theorem writeRegister?_eq (whole : c.Whole) (p : Ppu) (register : Register) (v : UInt8) :
    p.writeRegister? c register v = some (p.writeRegister c register v) := by
  cases register with
  | oamData =>
      rw [writeRegister?,storeOam?_eq]
      rfl
  | data =>
      rw [writeRegister?,write?_eq whole]
      rfl
  | control | mask | status | oamAddress | scroll | address => rfl

end Famicom.Ppu
