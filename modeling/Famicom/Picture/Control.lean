import Famicom.Word

namespace Famicom

structure Control where
  bits : UInt8 := 0
  deriving DecidableEq, Repr

namespace Control

def step (c : Control) : UInt16 := if hasBit c.bits 0x04 then 32 else 1

def nametable (c : Control) : Nat := c.bits.toNat % 4

def spriteTable (c : Control) : UInt16 := if hasBit c.bits 0x08 then 0x1000 else 0

def backgroundTable (c : Control) : UInt16 := if hasBit c.bits 0x10 then 0x1000 else 0

def spriteHeight (c : Control) : Nat := if hasBit c.bits 0x20 then 16 else 8

def nmiEnabled (c : Control) : Bool := hasBit c.bits 0x80

end Control

structure Mask where
  bits : UInt8 := 0
  deriving DecidableEq, Repr

namespace Mask

def greyscale (m : Mask) : Bool := hasBit m.bits 0x01

def backgroundInLeftColumn (m : Mask) : Bool := hasBit m.bits 0x02

def spritesInLeftColumn (m : Mask) : Bool := hasBit m.bits 0x04

def background (m : Mask) : Bool := hasBit m.bits 0x08

def sprites (m : Mask) : Bool := hasBit m.bits 0x10

def rendering (m : Mask) : Bool := m.background || m.sprites

-- The background is shown in a column of pixels. The leftmost eight columns have a switch of their own.
def backgroundAt (m : Mask) (x : Nat) : Bool := m.background && (decide (8 ≤ x) || m.backgroundInLeftColumn)

def spritesAt (m : Mask) (x : Nat) : Bool := m.sprites && (decide (8 ≤ x) || m.spritesInLeftColumn)

end Mask

structure Report where
  vblank : Bool := false
  spriteZeroHit : Bool := false
  spriteOverflow : Bool := false
  deriving DecidableEq, Repr

namespace Report

def toByte (r : Report) : UInt8 :=
  (if r.vblank then 0x80 else 0) + (if r.spriteZeroHit then 0x40 else 0) + (if r.spriteOverflow then 0x20 else 0)

def ofByte (v : UInt8) : Report := ⟨hasBit v 0x80,hasBit v 0x40,hasBit v 0x20⟩

@[simp] theorem ofByte_toByte (r : Report) : ofByte r.toByte = r := by
  obtain ⟨v,h,o⟩ := r
  revert v h o
  decide

theorem toByte_ofByte (v : UInt8) : (ofByte v).toByte = v &&& 0xE0 := by
  have all : ∀ n : Fin 256, (ofByte (UInt8.ofFin n)).toByte = UInt8.ofFin n &&& 0xE0 := by decide +kernel
  exact all v.toFin

end Report
end Famicom
