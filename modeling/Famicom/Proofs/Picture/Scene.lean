import Famicom.Picture.Raster

namespace Famicom.Scene

def bit (v : UInt8) (place : Nat) : Nat := (v.toNat >>> place) % 2

theorem bit_lt (v : UInt8) (place : Nat) : bit v place < 2 := Nat.mod_lt _ (by decide)

section
variable (p : Ppu) (c : Cartridge)

def byte (a : Nat) : UInt8 := p.read c (UInt16.ofNat a)

-- The colour number in a column of a pattern row, the leftmost column standing in the top bits. The
-- row's upper plane lies eight bytes above its lower one.
def pattern (row column : Nat) : Nat :=
  2 * bit (byte p c (row + 8)) (7 - column) + bit (byte p c row) (7 - column)

theorem pattern_lt (row column : Nat) : pattern p c row column < 4 := by
  have := bit_lt (byte p c (row + 8)) (7 - column)
  have := bit_lt (byte p c row) (7 - column)
  unfold pattern
  omega

def planeX (x : Nat) : Nat := (x + p.scrollX.toNat + 256 * bit p.control.bits 0) % 512

def planeY (y : Nat) : Nat := (y + p.scrollY.toNat + 240 * bit p.control.bits 1) % 480

def nametable (u v : Nat) : Nat := 0x2000 + 0x400 * (u / 256 + 2 * (v / 240))

def tile (u v : Nat) : UInt8 := byte p c (nametable u v + 32 * (v % 240 / 8) + u % 256 / 8)

def tileRow (u v : Nat) : Nat := 0x1000 * bit p.control.bits 4 + 16 * (tile p c u v).toNat + v % 240 % 8

-- One attribute byte serves a square of 32 by 32 points, and two bits of it each quarter of that.
def attributes (u v : Nat) : UInt8 := byte p c (nametable u v + 0x3C0 + 8 * (v % 240 / 32) + u % 256 / 32)

def quarter (u v : Nat) : Nat := 2 * (v % 240 / 16 % 2) + u % 256 / 16 % 2

def layerShown (layer left x : Nat) : Prop :=
  bit p.mask.bits layer = 1 ∧ (8 ≤ x ∨ bit p.mask.bits left = 1)

instance (layer left x : Nat) : Decidable (layerShown p layer left x) :=
  inferInstanceAs (Decidable (_ ∧ _))

def background (x y : Nat) : Nat :=
  if layerShown p 3 1 x then pattern p c (tileRow p c (planeX p x) (planeY p y)) (planeX p x % 256 % 8) else 0

def backgroundPalette (x y : Nat) : Nat :=
  ((attributes p c (planeX p x) (planeY p y)).toNat >>> (2 * quarter (planeX p x) (planeY p y))) % 4

end

section
variable (p : Ppu)

def entry (i : Fin 64) (k : Fin 4) : UInt8 := p.oam[i.val * 4 + k.val]

def top (i : Fin 64) : Nat := (entry p i ⟨0,by decide⟩).toNat + 1

def spriteTile (i : Fin 64) : UInt8 := entry p i ⟨1,by decide⟩

def spriteAttributes (i : Fin 64) : UInt8 := entry p i ⟨2,by decide⟩

def left (i : Fin 64) : Nat := (entry p i ⟨3,by decide⟩).toNat

def height : Nat := 8 + 8 * bit p.control.bits 5

def coversLine (y : Nat) (i : Fin 64) : Prop := top p i ≤ y ∧ y < top p i + height p

instance (y : Nat) (i : Fin 64) : Decidable (coversLine p y i) := inferInstanceAs (Decidable (_ ∧ _))

-- A line shows the first eight of the sprites that cover it.
def candidates (y : Nat) : List (Fin 64) :=
  ((List.finRange 64).filter fun i => decide (coversLine p y i)).take 8

def row (i : Fin 64) (y : Nat) : Nat :=
  if bit (spriteAttributes p i) 7 = 1 then height p - 1 - (y - top p i) else y - top p i

def column (i : Fin 64) (x : Nat) : Nat :=
  if bit (spriteAttributes p i) 6 = 1 then 7 - (x - left p i) else x - left p i

-- A tall sprite is a pair of tiles in the table that its tile number's lowest bit picks; a short one
-- is a single tile in the table that the control register picks.
def rowAddress (i : Fin 64) (row : Nat) : Nat :=
  let tile := (spriteTile p i).toNat
  if bit p.control.bits 5 = 1 then 0x1000 * (tile % 2) + 16 * (tile / 2 * 2 + row / 8) + row % 8
  else 0x1000 * bit p.control.bits 3 + 16 * tile + row

variable (c : Cartridge)

def spriteColor (i : Fin 64) (x y : Nat) : Nat :=
  if left p i ≤ x ∧ x < left p i + 8 then pattern p c (rowAddress p i (row p i y)) (column p i x) else 0

theorem spriteColor_lt (i : Fin 64) (x y : Nat) : spriteColor p c i x y < 4 := by
  unfold spriteColor
  split
  · exact pattern_lt ..
  · decide

def front? (x y : Nat) : Option (Fin 64) :=
  if layerShown p 4 2 x then (candidates p y).find? fun i => decide (spriteColor p c i x y ≠ 0) else none

def backgroundCell (x y : Nat) : Nat := 0x3F00 + 4 * backgroundPalette p c x y + background p c x y

def spriteCell (i : Fin 64) (x y : Nat) : Nat :=
  0x3F10 + 4 * ((spriteAttributes p i).toNat % 4) + spriteColor p c i x y

-- The palette cell shown at a point. A sprite of low priority gives way to any background colour but 0.
def cell (x y : Nat) : Nat :=
  match front? p c x y with
  | some i =>
    if background p c x y ≠ 0 ∧ bit (spriteAttributes p i) 5 = 1 then backgroundCell p c x y else spriteCell p c i x y
  | none => if background p c x y ≠ 0 then backgroundCell p c x y else 0x3F00

def color (x y : Nat) : Color :=
  let v := byte p c (cell p c x y)
  systemColor (if bit p.mask.bits 0 = 1 then v &&& 0x30 else v)

end
end Famicom.Scene
