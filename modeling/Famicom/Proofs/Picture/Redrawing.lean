import Famicom.Proofs.Picture.Drawing

namespace Famicom

theorem Frame.ext_pixel {f g : Frame}
    (same : ∀ x y, x < screenWidth → y < screenHeight → f.pixel x y = g.pixel x y) : f = g := by
  obtain ⟨pixels⟩ := f
  obtain ⟨others⟩ := g
  congr 1
  apply Vector.ext
  intro i inside
  have column : i % screenWidth < screenWidth := Nat.mod_lt _ (by decide)
  have row : i / screenWidth < screenHeight := Nat.div_lt_of_lt_mul inside
  have whole : i / screenWidth * screenWidth + i % screenWidth = i := Nat.div_add_mod' i screenWidth
  have here := same _ _ column row
  simpa only [pixel,column,row,and_self,dite_true,whole] using here

namespace Raster

variable (p : Ppu) (c : Cartridge)

def met (x y : Nat) : Bool :=
  Ppu.hits (p.backgroundDot c x y) (p.frontSprite (p.lineSprites c y).shown x) x

-- A line adds to what was seen above it, and what it adds does not depend on that.
theorem drawLine_flags (y : Nat) (r : Raster) :
    ((drawLine p c y r).spriteZeroHit = true ↔
      r.spriteZeroHit = true ∨ ∃ x < screenWidth, met p c x y = true) ∧
    ((drawLine p c y r).spriteOverflow = true ↔
      r.spriteOverflow = true ∨ (p.lineSprites c y).overflow = true) := by
  apply @fold_keeps _ screenWidth (fun x _ r => drawPoint p c (p.lineSprites c y).shown x y r)
    {r with spriteOverflow := r.spriteOverflow || (p.lineSprites c y).overflow}
    (fun n s => (s.spriteZeroHit = true ↔ r.spriteZeroHit = true ∨ ∃ x < n, met p c x y = true) ∧
      (s.spriteOverflow = true ↔ r.spriteOverflow = true ∨ (p.lineSprites c y).overflow = true))
  · exact ⟨by simp,Bool.or_eq_true_iff⟩
  · intro x inside s before
    refine ⟨?_,before.2⟩
    have here : (drawPoint p c (p.lineSprites c y).shown x y s).spriteZeroHit = (s.spriteZeroHit || met p c x y) := rfl
    rw [here,Bool.or_eq_true_iff,before.1,or_assoc,Nat.exists_lt_succ_right]

theorem draw_flags (r : Raster) (rendering : p.mask.rendering = true) :
    ((draw p c r).spriteZeroHit = true ↔ ∃ y < screenHeight, ∃ x < screenWidth, met p c x y = true) ∧
    ((draw p c r).spriteOverflow = true ↔ ∃ y < screenHeight, (p.lineSprites c y).overflow = true) := by
  simp only [draw,rendering,if_true]
  apply @fold_keeps _ screenHeight (fun y _ r => drawLine p c y r)
    {r with spriteZeroHit := false,spriteOverflow := false}
    (fun n s => (s.spriteZeroHit = true ↔ ∃ y < n, ∃ x < screenWidth, met p c x y = true) ∧
      (s.spriteOverflow = true ↔ ∃ y < n, (p.lineSprites c y).overflow = true))
  · exact ⟨by simp,by simp⟩
  · intro y inside s before
    have line := drawLine_flags p c y s
    constructor
    · rw [line.1,before.1,Nat.exists_lt_succ_right]
    · rw [line.2,before.2,Nat.exists_lt_succ_right]

theorem draw_blank (r : Raster) (blank : p.mask.rendering = false) :
    draw p c r = {frame := .filled (p.color c Ppu.paletteBase)} := by
  rw [draw,blank]
  exact if_neg Bool.false_ne_true

def redrawn (x y : Nat) : Color :=
  if p.mask.rendering then drawn p c (p.lineSprites c y).shown x y else p.color c Ppu.paletteBase

theorem draw_redrawn (r : Raster) (x y : Nat) (column : x < screenWidth) (line : y < screenHeight) :
    (draw p c r).frame.pixel x y = redrawn p c x y := by
  unfold redrawn
  cases rendering : p.mask.rendering with
  | false =>
      rw [draw_blank p c r rendering,Frame.pixel_filled _ x y ⟨column,line⟩]
      rfl
  | true => exact draw_drawn p c r x y rendering column line

-- What was there before a drawing makes no difference to any point or flag, and drawing once more changes nothing.
theorem draw_forgets (r r' : Raster) :
    (∀ x < 256, ∀ y < 240, (draw p c r).frame.pixel x y = redrawn p c x y) ∧
      (draw p c r).frame = (draw p c r').frame ∧
      (draw p c r).spriteZeroHit = (draw p c r').spriteZeroHit ∧
      (draw p c r).spriteOverflow = (draw p c r').spriteOverflow ∧
      draw p c (draw p c r) = draw p c r := by
  have same : ∀ s s' : Raster, draw p c s = draw p c s' := by
    intro s s'
    have frame : (draw p c s).frame = (draw p c s').frame := by
      apply Frame.ext_pixel
      intro x y column line
      rw [draw_redrawn p c s x y column line,draw_redrawn p c s' x y column line]
    cases rendering : p.mask.rendering with
    | false => rw [draw_blank p c s rendering,draw_blank p c s' rendering]
    | true =>
        obtain ⟨hit,overflow⟩ := draw_flags p c s rendering
        obtain ⟨hit',overflow'⟩ := draw_flags p c s' rendering
        have zero := Bool.eq_iff_iff.mpr (hit.trans hit'.symm)
        have many := Bool.eq_iff_iff.mpr (overflow.trans overflow'.symm)
        rw [Raster.mk.injEq]
        exact ⟨frame,zero,many⟩
  refine ⟨fun x column y line => draw_redrawn p c r x y column line,?_,?_,?_,same _ _⟩
  all_goals rw [same r r']

end Raster
end Famicom
