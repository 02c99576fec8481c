import Famicom.Word
import Famicom.Numeral

namespace Famicom

structure Color where
  red : UInt8
  green : UInt8
  blue : UInt8
  deriving DecidableEq, Repr

namespace Color

def black : Color := ⟨0,0,0⟩

def packed (c : Color) : UInt32 := c.red.toUInt32 * 0x10000 + c.green.toUInt32 * 0x100 + c.blue.toUInt32

def ofPacked (n : UInt32) : Color := ⟨(n / 0x10000).toUInt8,(n / 0x100).toUInt8,n.toUInt8⟩

theorem ofPacked_packed (c : Color) : ofPacked c.packed = c := by
  obtain ⟨r,g,b⟩ := c
  have := r.toNat_lt
  have := g.toNat_lt
  have := b.toNat_lt
  simp only [ofPacked,packed,mk.injEq]
  refine ⟨?_,?_,?_⟩ <;> apply UInt8.toNat_inj.mp <;>
    simp only [UInt32.toNat_toUInt8,UInt32.toNat_div,UInt32.toNat_add,UInt32.toNat_mul,
      UInt8.toNat_toUInt32,UInt32.reduceToNat] <;> omega

end Color

private def rgb (n : UInt32) : Color := .ofPacked n

def systemPalette : Vector Color 64 := #v[
  rgb 0x7C7C7C, rgb 0x0000FC, rgb 0x0000BC, rgb 0x4428BC,
  rgb 0x940084, rgb 0xA80020, rgb 0xA81000, rgb 0x881400,
  rgb 0x503000, rgb 0x007800, rgb 0x006800, rgb 0x005800,
  rgb 0x004058, rgb 0x000000, rgb 0x000000, rgb 0x000000,
  rgb 0xBCBCBC, rgb 0x0078F8, rgb 0x0058F8, rgb 0x6844FC,
  rgb 0xD800CC, rgb 0xE40058, rgb 0xF83800, rgb 0xE45C10,
  rgb 0xAC7C00, rgb 0x00B800, rgb 0x00A800, rgb 0x00A844,
  rgb 0x008888, rgb 0x000000, rgb 0x000000, rgb 0x000000,
  rgb 0xF8F8F8, rgb 0x3CBCFC, rgb 0x6888FC, rgb 0x9878F8,
  rgb 0xF878F8, rgb 0xF85898, rgb 0xF87858, rgb 0xFCA044,
  rgb 0xF8B800, rgb 0xB8F818, rgb 0x58D854, rgb 0x58F898,
  rgb 0x00E8D8, rgb 0x787878, rgb 0x000000, rgb 0x000000,
  rgb 0xFCFCFC, rgb 0xA4E4FC, rgb 0xB8B8F8, rgb 0xD8B8F8,
  rgb 0xF8B8F8, rgb 0xF8A4C0, rgb 0xF0D0B0, rgb 0xFCE0A8,
  rgb 0xF8D878, rgb 0xD8F878, rgb 0xB8F8B8, rgb 0xB8F8D8,
  rgb 0x00FCFC, rgb 0xF8D8F8, rgb 0x000000, rgb 0x000000]

def systemColor (v : UInt8) : Color := systemPalette[v.toNat % 64]

end Famicom
