import Famicom.Picture.Frame
import Famicom.Picture.Sprite

namespace Famicom

structure Raster where
  frame : Frame := .blank
  spriteZeroHit : Bool := false
  spriteOverflow : Bool := false
  deriving DecidableEq

namespace Ppu

def color (p : Ppu) (c : Cartridge) (a : UInt16) : Color :=
  let v := p.read c a
  systemColor (if p.mask.greyscale then v &&& 0x30 else v)

def backgroundCell (dot : Dot) : UInt16 := paletteBase + dot.palette.toUInt16 * 4 + dot.color.toUInt16

def spriteCell (s : Sprite) (color : UInt8) : UInt16 :=
  paletteBase + 0x10 + s.palette.toUInt16 * 4 + color.toUInt16

def pointCell (dot : Dot) (front : Option (Sprite × UInt8)) : UInt16 :=
  match front with
  | some (s,color) => if dot.color ≠ 0 ∧ s.behindBackground then backgroundCell dot else spriteCell s color
  | none => if dot.color ≠ 0 then backgroundCell dot else paletteBase

-- The last column never counts, and a sprite counts even where it is hidden behind the background.
def hits (dot : Dot) (front : Option (Sprite × UInt8)) (x : Nat) : Bool :=
  match front with
  | some (s,_) => dot.color != 0 && s.index == 0 && x != 255
  | none => false

end Ppu

namespace Raster

def drawPoint (p : Ppu) (c : Cartridge) (shown : List LineSprite) (x y : Nat) (r : Raster) : Raster :=
  let dot := p.backgroundDot c x y
  let front := p.frontSprite shown x
  let color := p.color c (Ppu.pointCell dot front)
  {r with
    frame := r.frame.setPixel x y color
    spriteZeroHit := r.spriteZeroHit || Ppu.hits dot front x}

def drawLine (p : Ppu) (c : Cartridge) (y : Nat) (r : Raster) : Raster :=
  let sprites := p.lineSprites c y
  Nat.fold screenWidth (fun x _ r => drawPoint p c sprites.shown x y r)
    {r with spriteOverflow := r.spriteOverflow || sprites.overflow}

def draw (p : Ppu) (c : Cartridge) (r : Raster) : Raster :=
  if p.mask.rendering then
    Nat.fold screenHeight (fun y _ r => drawLine p c y r) {r with spriteZeroHit := false,spriteOverflow := false}
  else {frame := .filled (p.color c Ppu.paletteBase)}

end Raster
end Famicom
