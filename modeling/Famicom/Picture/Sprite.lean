import Famicom.Picture.Background

namespace Famicom

-- An entry of sprite memory. Its picture starts one line below `y`.
structure Sprite where
  index : Nat
  y : UInt8
  tile : UInt8
  attributes : UInt8
  x : UInt8
  deriving DecidableEq, Repr

namespace Sprite

def palette (s : Sprite) : UInt8 := s.attributes % 4

def behindBackground (s : Sprite) : Bool := hasBit s.attributes 0x20

def flippedAcross (s : Sprite) : Bool := hasBit s.attributes 0x40

def flippedDown (s : Sprite) : Bool := hasBit s.attributes 0x80

def covers (s : Sprite) (height line : Nat) : Bool :=
  decide (s.y.toNat + 1 ≤ line) && decide (line < s.y.toNat + 1 + height)

def patternRow (s : Sprite) (height line : Nat) : Nat :=
  let row := line - (s.y.toNat + 1)
  if s.flippedDown then height - 1 - row else row

end Sprite

namespace Ppu

def spriteAt (p : Ppu) (i : Fin 64) : Sprite :=
  ⟨i,p.oam[i.val * 4],p.oam[i.val * 4 + 1],p.oam[i.val * 4 + 2],p.oam[i.val * 4 + 3]⟩

def sprites (p : Ppu) : List Sprite := (List.finRange 64).map p.spriteAt

-- A tall sprite is two tiles, one above the other. Its tile number is even, and the bit that this
-- leaves over picks the pattern table.
def spriteRowAddress (p : Ppu) (tile : UInt8) (row : Nat) : UInt16 :=
  if p.control.spriteHeight = 16 then
    tile.toUInt16 % 2 * 0x1000 + (tile.toUInt16 / 2 * 2 + UInt16.ofNat (row / 8)) * 16 + UInt16.ofNat (row % 8)
  else p.control.spriteTable + tile.toUInt16 * 16 + UInt16.ofNat row

end Ppu

structure LineSprite where
  sprite : Sprite
  lo : UInt8
  hi : UInt8
  deriving DecidableEq, Repr

namespace LineSprite

def color? (s : LineSprite) (x : Nat) : Option UInt8 :=
  let left := s.sprite.x.toNat
  if left ≤ x ∧ x < left + 8 then
    let column := if s.sprite.flippedAcross then 7 - (x - left) else x - left
    let color := patternPixel s.lo s.hi column
    if color = 0 then none else some color
  else none

end LineSprite

structure LineSprites where
  shown : List LineSprite
  overflow : Bool

-- Picks sprites in order while there is room. The first that finds none ends the scan.
def pickSprites (covers : Sprite → Bool) : Nat → List Sprite → List Sprite × Bool
  | _, [] => ([],false)
  | room, s :: rest =>
    if covers s then
      match room with
      | 0 => ([],true)
      | room + 1 =>
        let (picked,overflow) := pickSprites covers room rest
        (s :: picked,overflow)
    else pickSprites covers room rest

-- The scan picks what filtering and cutting would pick, and reports what cutting would lose.
theorem pickSprites_exact (covers : Sprite → Bool) (room : Nat) (sprites : List Sprite) :
    pickSprites covers room sprites =
      ((sprites.filter covers).take room,decide (room < (sprites.filter covers).length)) := by
  induction sprites generalizing room with
  | nil => simp [pickSprites]
  | cons s rest ih =>
      cases covered : covers s with
      | false => simp [pickSprites,covered,ih]
      | true =>
          cases room with
          | zero => simp [pickSprites,covered]
          | succ room => simp [pickSprites,covered,ih]

def spritesPerLine : Nat := 8

namespace Ppu

def lineSprite (p : Ppu) (c : Cartridge) (line : Nat) (s : Sprite) : LineSprite :=
  let row := p.spriteRowAddress s.tile (s.patternRow p.control.spriteHeight line)
  ⟨s,p.read c row,p.read c (row + 8)⟩

def lineSprites (p : Ppu) (c : Cartridge) (line : Nat) : LineSprites :=
  let (picked,overflow) := pickSprites (·.covers p.control.spriteHeight line) spritesPerLine p.sprites
  ⟨picked.map (p.lineSprite c line),overflow⟩

def frontSprite (p : Ppu) (shown : List LineSprite) (x : Nat) : Option (Sprite × UInt8) :=
  if p.mask.spritesAt x then shown.findSome? fun s => (s.color? x).map (s.sprite,·) else none

end Ppu
end Famicom
