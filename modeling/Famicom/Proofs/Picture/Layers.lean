import Mathlib.Data.List.Find
import Famicom.Proofs.Picture.Plane
import Famicom.Proofs.Picture.SpriteEvaluation
import Famicom.Proofs.Picture.SpriteZero

namespace Famicom

namespace Scene

def shade (p : Ppu) (c : Cartridge) (a : Nat) : Color :=
  let v := byte p c a
  systemColor (if bit p.mask.bits 0 = 1 then v &&& 0x30 else v)

theorem front?_hidden (p : Ppu) (c : Cartridge) (hidden : bit p.mask.bits 4 = 0) (x y : Nat) :
    front? p c x y = none := by
  apply if_neg
  rintro ⟨on,_⟩
  rw [hidden] at on
  cases on

structure SameColors (p q : Ppu) : Prop where
  switches : ∀ place < 5, bit q.mask.bits place = bit p.mask.bits place
  cells : ∀ i : Fin 0x20, i.val = 0 ∨ i.val % 4 ≠ 0 → q.palette.get i = p.palette.get i

structure SameGround (p q : Ppu) (c d : Cartridge) : Prop extends SameColors p q where
  background : ∀ x y, background q d x y = background p c x y
  palettes : ∀ x y, backgroundPalette q d x y = backgroundPalette p c x y

structure SameSprites (p q : Ppu) (c d : Cartridge) : Prop where
  covers : ∀ y i, coversLine q y i ↔ coversLine p y i
  dots : ∀ y i, coversLine p y i → ∀ x, spriteColor q d i x y = spriteColor p c i x y
  palettes : ∀ i, (spriteAttributes q i).toNat % 4 = (spriteAttributes p i).toNat % 4
  behind : ∀ i, bit (spriteAttributes q i) 5 = bit (spriteAttributes p i) 5

variable {p q : Ppu} {c d : Cartridge}

namespace SameColors

variable (colors : SameColors p q)
include colors

theorem layer {layer left : Nat} (first : layer < 5) (second : left < 5) (x : Nat) :
    layerShown q layer left x ↔ layerShown p layer left x := by
  rw [layerShown,layerShown,colors.switches layer first,colors.switches left second]

theorem rendering : q.mask.rendering = p.mask.rendering := by
  apply Bool.eq_iff_iff.mpr
  rw [rendering_eq,rendering_eq,colors.switches 3 (by decide),colors.switches 4 (by decide)]

theorem shade (c d : Cartridge) {a : Nat} (shown : Shown a) : Scene.shade q d a = Scene.shade p c a := by
  obtain ⟨above,below⟩ := shown.within
  obtain ⟨index,kept⟩ := shown.index
  have cell : q.palette[Ppu.paletteCell (UInt16.ofNat a)] = p.palette[Ppu.paletteCell (UInt16.ofNat a)] := by
    apply colors.cells
    rw [index]
    exact kept
  have byte : byte q d a = byte p c a := by rw [byte_palette q d above below,byte_palette p c above below,cell]
  rw [Scene.shade,Scene.shade,byte,colors.switches 0 (by decide)]

end SameColors

namespace SameGround

variable (ground : SameGround p q c d)
include ground

variable {x y : Nat} (front : front? q d x y = front? p c x y)
  (sprite : ∀ i, front? p c x y = some i → spriteCell q d i x y = spriteCell p c i x y ∧
    bit (spriteAttributes q i) 5 = bit (spriteAttributes p i) 5)
include front sprite

theorem color : color q d x y = color p c x y := by
  have behind : backgroundCell q d x y = backgroundCell p c x y := by
    rw [backgroundCell,ground.palettes,ground.background]
    rfl
  have cell : cell q d x y = cell p c x y := by
    rw [Scene.cell,Scene.cell,front,ground.background,behind]
    cases found : front? p c x y with
    | none => rfl
    | some i =>
        obtain ⟨cell,priority⟩ := sprite i found
        simp only [cell,priority]
  calc Scene.color q d x y
      = Scene.shade q d (Scene.cell p c x y) := by rw [← cell]; rfl
    _ = Scene.color p c x y := ground.shade c d (cell_shown p c x y)

end SameGround

namespace SameSprites

variable (sprites : SameSprites p q c d)
include sprites

theorem candidates (y : Nat) : candidates q y = candidates p y := by
  simp only [Scene.candidates,sprites.covers]

theorem coverage (y : Nat) : coverage q y = coverage p y := by
  simp only [Scene.coverage,sprites.covers]

theorem front (ground : SameGround p q c d) (x y : Nat) : front? q d x y = front? p c x y := by
  have solid : ∀ i ∈ Scene.candidates p y,
      decide (spriteColor q d i x y ≠ 0) = decide (spriteColor p c i x y ≠ 0) := by
    intro i picked
    rw [sprites.dots y i ((candidates_picked p y).covering i picked)]
  have shown := ground.layer (show 4 < 5 by decide) (show 2 < 5 by decide) x
  simp only [front?,shown,sprites.candidates]
  rw [List.find?_congr solid]

theorem color (ground : SameGround p q c d) (x y : Nat) : color q d x y = color p c x y := by
  apply ground.color (sprites.front ground x y)
  intro i found
  obtain ⟨picked,_⟩ := front?_solid p c found
  have dot := sprites.dots y i ((candidates_picked p y).covering i picked) x
  refine ⟨?_,sprites.behind i⟩
  rw [spriteCell,sprites.palettes,dot]
  rfl

theorem meets (ground : SameGround p q c d) (x y : Nat) : Meets q d x y ↔ Meets p c x y := by
  have shown := ground.layer (show 4 < 5 by decide) (show 2 < 5 by decide) x
  rw [meets_layers,meets_layers,ground.background,shown,sprites.covers]
  refine and_congr_right fun _ => and_congr_right fun _ => and_congr_right fun covers => ?_
  rw [sprites.dots y 0 covers]

end SameSprites

structure SameMemory (p q : Ppu) (c d : Cartridge) : Prop extends SamePages p q c d, SameColors p q

theorem SameMemory.ground (memory : SameMemory p q c d) (beside : ∀ x, planeX q x % 256 = planeX p x % 256)
    (along : ∀ y, planeY q y % 240 = planeY p y % 240)
    (pages : ∀ x y, d.mirroring.page (table (planeX q x) (planeY q y)) =
      c.mirroring.page (table (planeX p x) (planeY p y))) : SameGround p q c d := by
  have dots := fun x y => memory.dots (planeX_lt p x) (planeY_lt p y) (planeX_lt q x) (planeY_lt q y) (pages x y)
    (beside x) (along y)
  refine ⟨memory.toSameColors,?_,fun x y => (dots x y).2⟩
  intro x y
  have shown := memory.layer (show 3 < 5 by decide) (show 1 < 5 by decide) x
  simp only [background_dot,shown,(dots x y).1]

-- Sprite memory, but for the bits of the attributes that mean nothing.
structure SameOam (p q : Ppu) : Prop where
  entries : ∀ i k, k ≠ 2 → entry q i k = entry p i k
  attributes : ∀ i, ∀ place < 8, place < 2 ∨ 5 ≤ place →
    bit (spriteAttributes q i) place = bit (spriteAttributes p i) place

theorem bits_palette (v : UInt8) : v.toNat % 4 = 2 * bit v 1 + bit v 0 := by
  simp only [bit,Nat.shiftRight_succ,Nat.shiftRight_zero]
  omega

-- The table that the control register picks means nothing to tall sprites.
theorem SameOam.sprites (oam : SameOam p q) (patterns : ∀ a, d.chrRead a = c.chrRead a)
    (tall : bit q.control.bits 5 = bit p.control.bits 5)
    (table : bit p.control.bits 5 = 1 ∨ bit q.control.bits 3 = bit p.control.bits 3) : SameSprites p q c d := by
  have high : height q = height p := by rw [height,tall]; rfl
  have top : ∀ i, top q i = top p i := fun i => congrArg (·.toNat + 1) (oam.entries i 0 (by decide))
  have tile : ∀ i, spriteTile q i = spriteTile p i := fun i => oam.entries i 1 (by decide)
  have left : ∀ i, left q i = left p i := fun i => congrArg UInt8.toNat (oam.entries i 3 (by decide))
  have row : ∀ i y, row q i y = row p i y := by
    intro i y
    rw [row,oam.attributes i 7 (by decide) (by decide),high,top]
    rfl
  have column : ∀ i x, column q i x = column p i x := by
    intro i x
    rw [column,oam.attributes i 6 (by decide) (by decide),left]
    rfl
  -- Of a tall sprite the tile says the table, and of a short one the register, which is then the same.
  have address : ∀ i k, rowAddress q i k = rowAddress p i k := by
    intro i k
    simp only [rowAddress,tile,tall]
    rcases table with pair | same
    · rw [if_pos pair,if_pos pair]
    · rw [same]
  refine ⟨?_,?_,?_,fun i => oam.attributes i 5 (by decide) (by decide)⟩
  · intro y i
    rw [coversLine,coversLine,top,high]
  · intro y i covers x
    have within := rowAddress_lt p i (row_lt p covers)
    rw [spriteColor,left,row,column,address,pattern_alike p c patterns q within]
    rfl
  · intro i
    rw [bits_palette,bits_palette,oam.attributes i 1 (by decide) (by decide),oam.attributes i 0 (by decide) (by decide)]

end Scene

namespace Raster

open Scene

variable {p q : Ppu} {c d : Cartridge} (ground : SameGround p q c d)

theorem draw_color (r : Raster) {x y : Nat} (column : x < screenWidth) (line : y < screenHeight) :
    (draw p c r).frame.pixel x y = if p.mask.rendering then color p c x y else shade p c 0x3F00 := by
  have backdrop : p.color c Ppu.paletteBase = shade p c 0x3F00 := by
    have grey : p.mask.greyscale = decide (bit p.mask.bits 0 = 1) := hasBit_place _ 0
    simp only [Ppu.color,grey,decide_eq_true_eq]
    rfl
  rw [draw_redrawn p c r x y column line,redrawn,drawn,pointColor_eq,backdrop]

include ground

theorem frame_same (r r' : Raster) (colors : ∀ x y, color q d x y = color p c x y) :
    (draw q d r').frame = (draw p c r).frame := by
  apply Frame.ext_pixel
  intro x y column line
  rw [draw_color r' column line,draw_color r column line,ground.rendering,colors,ground.shade c d (.inl rfl)]

theorem draw_same (sprites : SameSprites p q c d) (r r' : Raster) : draw q d r' = draw p c r := by
  have frame := frame_same ground r r' (sprites.color ground)
  have hit : (draw q d r').spriteZeroHit = (draw p c r).spriteZeroHit := by
    apply Bool.eq_iff_iff.mpr
    simp only [draw_hit,sprites.meets ground]
  have overflow : (draw q d r').spriteOverflow = (draw p c r).spriteOverflow := by
    apply Bool.eq_iff_iff.mpr
    simp only [draw_overflow,sprites.coverage,ground.switches 3 (by decide),ground.switches 4 (by decide)]
  rw [Raster.mk.injEq]
  exact ⟨frame,hit,overflow⟩

end Raster
end Famicom
