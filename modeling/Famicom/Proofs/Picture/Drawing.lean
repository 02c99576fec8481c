import Famicom.Proofs.Picture.Agreement

namespace Famicom

theorem fold_keeps {α : Type} {n : Nat} {round : (i : Nat) → i < n → α → α} {start : α}
    (holds : Nat → α → Prop) (first : holds 0 start)
    (next : ∀ i (h : i < n) a, holds i a → holds (i + 1) (round i h a)) :
    holds n (Nat.fold n round start) := by
  induction n with
  | zero => exact first
  | succ n ih =>
      rw [Nat.fold_succ]
      exact next n (Nat.lt_succ_self n) _ (ih fun i h a => next i (Nat.lt_succ_of_lt h) a)

namespace Raster

variable (p : Ppu) (c : Cartridge)

def drawn (shown : List LineSprite) (x y : Nat) : Color :=
  p.color c (Ppu.pointCell (p.backgroundDot c x y) (p.frontSprite shown x))

theorem drawPoint_frame (shown : List LineSprite) (x y : Nat) (r : Raster) :
    (drawPoint p c shown x y r).frame = r.frame.setPixel x y (drawn p c shown x y) := rfl

theorem pixel_setPixel (f : Frame) (x y x' y' : Nat) (color : Color) (inside : x < screenWidth ∧ y < screenHeight) :
    (f.setPixel x y color).pixel x' y' = if x = x' ∧ y = y' then color else f.pixel x' y' := by
  split
  · rename_i same
    obtain ⟨rfl,rfl⟩ := same
    exact f.pixel_setPixel_same x y color inside
  · rename_i different
    exact f.pixel_setPixel_other x y x' y' color different

theorem drawLine_pixel (y : Nat) (r : Raster) (x' y' : Nat) (line : y < screenHeight) (column : x' < screenWidth) :
    (drawLine p c y r).frame.pixel x' y' =
      if y = y' then drawn p c (p.lineSprites c y).shown x' y else r.frame.pixel x' y' := by
  have points := @fold_keeps _ screenWidth (fun x _ r => drawPoint p c (p.lineSprites c y).shown x y r)
    {r with spriteOverflow := r.spriteOverflow || (p.lineSprites c y).overflow}
    (fun n s => s.frame.pixel x' y' =
      if x' < n ∧ y = y' then drawn p c (p.lineSprites c y).shown x' y else r.frame.pixel x' y')
    (by simp)
    (by
      intro x inside s before
      rw [drawPoint_frame,pixel_setPixel _ _ _ _ _ _ ⟨inside,line⟩,before]
      by_cases here : x = x' ∧ y = y'
      · obtain ⟨rfl,rfl⟩ := here
        simp
      · have same : (x' < x + 1 ∧ y = y') ↔ (x' < x ∧ y = y') := by omega
        simp only [here,if_false,same])
  simp only [column,true_and] at points
  exact points

theorem draw_drawn (r : Raster) (x y : Nat) (rendering : p.mask.rendering = true)
    (column : x < screenWidth) (line : y < screenHeight) :
    (draw p c r).frame.pixel x y = drawn p c (p.lineSprites c y).shown x y := by
  have lines := @fold_keeps _ screenHeight (fun y _ r => drawLine p c y r)
    {r with spriteZeroHit := false,spriteOverflow := false}
    (fun n s => y < n → s.frame.pixel x y = drawn p c (p.lineSprites c y).shown x y)
    (fun none => absurd none (Nat.not_lt_zero _))
    (by
      intro y' inside s before above
      rw [drawLine_pixel p c y' s x y inside column]
      by_cases here : y' = y
      · simp [here]
      · simpa [here] using before (by omega))
  simp only [draw,rendering,if_true]
  exact lines line

-- A frame drawn with a layer switched on is the scene.
theorem draw_shows_scene (r : Raster) (x y : Nat)
    (rendering : Scene.bit p.mask.bits 3 = 1 ∨ Scene.bit p.mask.bits 4 = 1)
    (column : x < 256) (line : y < 240) : (draw p c r).frame.pixel x y = Scene.color p c x y := by
  have background : p.mask.background = decide (Scene.bit p.mask.bits 3 = 1) := Scene.hasBit_place _ 3
  have sprites : p.mask.sprites = decide (Scene.bit p.mask.bits 4 = 1) := Scene.hasBit_place _ 4
  have on : p.mask.rendering = true := by
    rw [Mask.rendering,background,sprites,← Bool.decide_or]
    exact decide_eq_true rendering
  rw [draw_drawn p c r x y on column line]
  exact Scene.pointColor_eq p c x y

def tallSprite : Ppu := {Ppu.powerOn with
  oam := ((((Vector.replicate 0x100 0xF0).set 4 9).set 5 3).set 6 0xC1).set 7 20
  control := ⟨0x21⟩
  mask := ⟨0x18⟩
  scrollX := 250}

def stripes : Cartridge where
  header := ⟨1,1,0,0⟩
  trainer := none
  prg := #[]
  chr := #[0,1,2,3,4,5,6,7,0,0,0xFF,0,0x0F,0,0,0]
  chrWritable := false
  ram := none
  mapper := .nrom

theorem tallSprite_drawn :
    (Scene.bit tallSprite.mask.bits 3 = 1 ∨ Scene.bit tallSprite.mask.bits 4 = 1) ∧ 21 < 256 ∧ 21 < 240 ∧
      (draw tallSprite stripes {}).frame.pixel 21 21 = ⟨0xA8,0x10,0x00⟩ := by
  have shown := draw_shows_scene tallSprite stripes {} 21 21 (by decide) (by decide) (by decide)
  refine ⟨by decide,by decide,by decide,shown.trans ?_⟩
  decide +kernel

end Raster
end Famicom
