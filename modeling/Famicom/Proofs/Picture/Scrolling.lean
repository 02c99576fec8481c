import Famicom.Proofs.Picture.Layers

namespace Famicom

def Ppu.toggled (p : Ppu) (place : Fin 8) : Ppu :=
  {p with control := ⟨p.control.bits ^^^ UInt8.ofNat (1 <<< place.val)⟩}

-- One column further on. From the last one of a nametable it goes on in the next nametable.
def Ppu.rightward (p : Ppu) : Ppu :=
  if p.scrollX = 255 then {p.toggled 0 with scrollX := 0} else {p with scrollX := p.scrollX + 1}

namespace Scene

theorem bit_testBit (v : UInt8) (place : Nat) : bit v place = (v.toNat.testBit place).toNat := by
  rw [Nat.toNat_testBit,bit,Nat.shiftRight_eq_div_pow]

theorem bit_toggled (p : Ppu) (place : Fin 8) (other : Nat) :
    bit (p.toggled place).control.bits other =
      if place.val = other then 1 - bit p.control.bits other else bit p.control.bits other := by
  have mask : (UInt8.ofNat (1 <<< place.val)).toNat = 2 ^ place.val := by
    rw [UInt8.toNat_ofNat',Nat.one_shiftLeft]
    exact Nat.mod_eq_of_lt (Nat.pow_lt_pow_right (by decide) place.isLt)
  rw [bit_testBit,bit_testBit,Ppu.toggled,UInt8.toNat_xor,mask,Nat.testBit_xor,Nat.testBit_two_pow]
  split
  · rename_i here
    rw [decide_eq_true here]
    cases p.control.bits.toNat.testBit other <;> rfl
  · rename_i apart
    rw [decide_eq_false apart,Bool.xor_false]

structure Windows (p q : Ppu) : Prop where
  vram : q.vram = p.vram
  palette : q.palette = p.palette
  oam : q.oam = p.oam
  mask : q.mask = p.mask
  control : ∀ place, 2 ≤ place → bit q.control.bits place = bit p.control.bits place

theorem Windows.toggled (p : Ppu) {place : Fin 8} (corner : place.val < 2) : Windows p (p.toggled place) := by
  refine ⟨rfl,rfl,rfl,rfl,?_⟩
  intro other above
  rw [bit_toggled,if_neg (Nat.ne_of_lt (Nat.lt_of_lt_of_le corner above))]

namespace Windows

variable {p q : Ppu} (windows : Windows p q) (c : Cartridge)
include windows

theorem memory : SameMemory p q c c where
  patterns _ := rfl
  vram := windows.vram
  table := windows.control 4 (by decide)
  switches _ _ := by rw [windows.mask]
  cells _ _ := by rw [windows.palette]

theorem oamSame : SameOam p q := by
  refine ⟨?_,?_⟩
  · intro i k _
    simp only [entry,windows.oam]
  · intro i place _ _
    simp only [spriteAttributes,entry,windows.oam]

theorem draw (beside : ∀ x, planeX q x % 256 = planeX p x % 256) (along : ∀ y, planeY q y % 240 = planeY p y % 240)
    (pages : ∀ x y, c.mirroring.page (table (planeX q x) (planeY q y)) =
      c.mirroring.page (table (planeX p x) (planeY p y))) (r r' : Raster) : Raster.draw q c r' = Raster.draw p c r := by
  have ground := (windows.memory c).ground beside along pages
  have sprites : SameSprites p q c c :=
    windows.oamSame.sprites (fun _ => rfl) (windows.control 5 (by decide)) (.inr (windows.control 3 (by decide)))
  exact Raster.draw_same ground sprites r r'

end Windows

section
variable (p : Ppu)

theorem corner_toggled (place : Fin 8) :
    bit (p.toggled place).control.bits place.val = 1 - bit p.control.bits place.val := by
  rw [bit_toggled,if_pos rfl]

theorem planeX_toggled (s : UInt8) (x : Nat) :
    planeX {p.toggled 0 with scrollX := s} x = (planeX {p with scrollX := s} x + 256) % 512 := by
  have corner : bit (p.toggled 0).control.bits 0 = 1 - bit p.control.bits 0 := corner_toggled p 0
  have := bit_lt p.control.bits 0
  simp only [planeX,corner]
  omega

theorem planeY_toggled (s : UInt8) (y : Nat) :
    planeY {p.toggled 1 with scrollY := s} y = (planeY {p with scrollY := s} y + 240) % 480 := by
  have corner : bit (p.toggled 1).control.bits 1 = 1 - bit p.control.bits 1 := corner_toggled p 1
  have := bit_lt p.control.bits 1
  simp only [planeY,corner]
  omega

theorem planeX_kept (x : Nat) : planeX (p.toggled 1) x = planeX p x := by
  have corner : bit (p.toggled 1).control.bits 0 = bit p.control.bits 0 := (bit_toggled p 1 0).trans (if_neg (by decide))
  simp only [planeX,corner]
  rfl

theorem planeY_kept (y : Nat) : planeY (p.toggled 0) y = planeY p y := by
  have corner : bit (p.toggled 0).control.bits 1 = bit p.control.bits 1 := (bit_toggled p 0 1).trans (if_neg (by decide))
  simp only [planeY,corner]
  rfl

theorem planeX_rightward (x : Nat) : planeX p.rightward x = planeX p (x + 1) := by
  unfold Ppu.rightward
  split
  · rename_i last
    rw [planeX_toggled]
    simp only [planeX,last,UInt8.reduceToNat]
    omega
  · rename_i inside
    have next : (p.scrollX + 1).toNat = p.scrollX.toNat + 1 := by
      have := p.scrollX.toNat_lt
      have : p.scrollX.toNat ≠ 255 := fun last => inside (UInt8.toNat_inj.mp last)
      rw [UInt8.toNat_add]
      simp only [UInt8.reduceToNat]
      omega
    simp only [planeX,next]
    omega

theorem planeY_downward (inside : p.scrollY < 255) (y : Nat) :
    planeY {p with scrollY := p.scrollY + 1} y = planeY p (y + 1) := by
  have next : (p.scrollY + 1).toNat = p.scrollY.toNat + 1 := by
    rw [UInt8.lt_iff_toNat_lt] at inside
    rw [UInt8.toNat_add]
    simp only [UInt8.reduceToNat] at inside ⊢
    omega
  simp only [planeY,next]
  omega

-- The lines below the nametable are the first lines of the one below it.
theorem planeY_beyond {k : UInt8} (low : k < 16) (y : Nat) :
    planeY {p with scrollY := 240 + k} y = planeY {p.toggled 1 with scrollY := k} y := by
  have beyond : (240 + k).toNat = 240 + k.toNat := by
    rw [UInt8.lt_iff_toNat_lt] at low
    rw [UInt8.toNat_add]
    simp only [UInt8.reduceToNat] at low ⊢
    omega
  rw [planeY_toggled]
  simp only [planeY,beyond]
  omega

end

def groundCell (p : Ppu) (c : Cartridge) (u v : Nat) : Nat :=
  if dot p c u v ≠ 0 then 0x3F00 + 4 * dotPalette p c u v + dot p c u v else 0x3F00

theorem groundCell_shown (p : Ppu) (c : Cartridge) (u v : Nat) : Shown (groundCell p c u v) := by
  have := pattern_lt p c (tileRow p c u v) (u % 256 % 8)
  have : dotPalette p c u v < 4 := Nat.mod_lt _ (by decide)
  unfold groundCell
  split
  · rename_i solid
    unfold Shown
    unfold dot at solid ⊢
    omega
  · exact .inl rfl

theorem color_ground (p : Ppu) (c : Cartridge) (left : bit p.mask.bits 1 = 1) (layer : bit p.mask.bits 3 = 1)
    (hidden : bit p.mask.bits 4 = 0) (x y : Nat) :
    color p c x y = shade p c (groundCell p c (planeX p x) (planeY p y)) := by
  have front := front?_hidden p c hidden x y
  have background : background p c x y = dot p c (planeX p x) (planeY p y) := if_pos ⟨layer,.inr left⟩
  have cell : cell p c x y = groundCell p c (planeX p x) (planeY p y) := by
    simp only [cell,front,background,backgroundCell,backgroundPalette_dot]
    rfl
  rw [← cell]
  rfl

theorem Windows.shifted {p q : Ppu} (windows : Windows p q) (c : Cartridge) (left : bit p.mask.bits 1 = 1)
    (layer : bit p.mask.bits 3 = 1) (hidden : bit p.mask.bits 4 = 0) {x y x' y' : Nat}
    (column : planeX q x = planeX p x') (line : planeY q y = planeY p y') : color q c x y = color p c x' y' := by
  have memory := windows.memory c
  have right := planeX_lt p x'
  have bottom := planeY_lt p y'
  obtain ⟨dot,palette⟩ := memory.dots right bottom right bottom rfl rfl rfl
  have mask := windows.mask
  have cell : groundCell q c (planeX p x') (planeY p y') = groundCell p c (planeX p x') (planeY p y') := by
    rw [groundCell,dot,palette]
    rfl
  rw [color_ground q c (by rw [mask,left]) (by rw [mask,layer]) (by rw [mask,hidden]),
    color_ground p c left layer hidden,column,line,cell]
  exact memory.shade c c (groundCell_shown p c _ _)

end Scene

namespace Raster

open Scene

variable (p : Ppu)

theorem rightward_windows : Windows p p.rightward := by
  unfold Ppu.rightward
  split
  · exact ⟨rfl,rfl,rfl,rfl,(Windows.toggled p (show (0 : Fin 8).val < 2 by decide)).control⟩
  · exact ⟨rfl,rfl,rfl,rfl,fun _ _ => rfl⟩

theorem planeY_rightward (y : Nat) : planeY p.rightward y = planeY p y := by
  unfold Ppu.rightward
  split
  · exact planeY_kept p y
  · rfl

variable (c : Cartridge) (r r' : Raster)

theorem pixel_shifted {q : Ppu} (windows : Windows p q) (left : bit p.mask.bits 1 = 1) (layer : bit p.mask.bits 3 = 1)
    (hidden : bit p.mask.bits 4 = 0) {x y x' y' : Nat} (inside : x < screenWidth ∧ y < screenHeight)
    (inside' : x' < screenWidth ∧ y' < screenHeight) (column : planeX q x = planeX p x')
    (line : planeY q y = planeY p y') : (draw p c r).frame.pixel x' y' = (draw q c r').frame.pixel x y := by
  have on : p.mask.rendering = true := (rendering_eq p.mask).mpr (.inl layer)
  rw [draw_color r inside'.1 inside'.2,draw_color r' inside.1 inside.2,windows.mask,if_pos on,if_pos on]
  exact (windows.shifted c left layer hidden column line).symm

theorem draw_beyond {k : UInt8} (low : k < 16) :
    draw {p with scrollY := 240 + k} c r = draw {p.toggled 1 with scrollY := k} c r' := by
  have windows : Windows {p with scrollY := 240 + k} {p.toggled 1 with scrollY := k} :=
    ⟨rfl,rfl,rfl,rfl,(Windows.toggled p (show (1 : Fin 8).val < 2 by decide)).control⟩
  have column : ∀ x, planeX {p.toggled 1 with scrollY := k} x = planeX {p with scrollY := 240 + k} x := planeX_kept p
  have line := planeY_beyond p low
  symm
  apply windows.draw c
  · intro x
    rw [column]
  · intro y
    rw [line]
  · intro x y
    rw [column,line]

theorem draw_columns (folds : c.mirroring.FoldsColumns) : draw (p.toggled 0) c r' = draw p c r := by
  have column : ∀ x, planeX (p.toggled 0) x = (planeX p x + 256) % 512 := planeX_toggled p p.scrollX
  have line := planeY_kept p
  apply (Windows.toggled p (show (0 : Fin 8).val < 2 by decide)).draw c
  · intro x
    rw [column]
    omega
  · intro y
    rw [line]
  · intro x y
    have := planeX_lt p x
    have := planeY_lt p y
    apply folds.page
    rw [column,line]
    simp only [table]
    omega

theorem draw_rows (folds : c.mirroring.FoldsRows) : draw (p.toggled 1) c r' = draw p c r := by
  have line : ∀ y, planeY (p.toggled 1) y = (planeY p y + 240) % 480 := planeY_toggled p p.scrollY
  have column := planeX_kept p
  apply (Windows.toggled p (show (1 : Fin 8).val < 2 by decide)).draw c
  · intro x
    rw [column]
  · intro y
    rw [line]
    omega
  · intro x y
    have := planeX_lt p x
    have := planeY_lt p y
    apply folds.page
    rw [column,line]
    simp only [table]
    omega

-- Scrolling moves the picture over the torus that mirroring folds.
theorem scrolling_told :
    (bit p.mask.bits 1 = 1 → bit p.mask.bits 3 = 1 → bit p.mask.bits 4 = 0 →
      (∀ x < 255, ∀ y < 240, (draw p c r).frame.pixel (x + 1) y = (draw p.rightward c r').frame.pixel x y) ∧
      (p.scrollY < 255 → ∀ x < 256, ∀ y < 239, (draw p c r).frame.pixel x (y + 1) =
        (draw {p with scrollY := p.scrollY + 1} c r').frame.pixel x y)) ∧
    (∀ k < 16, draw {p with scrollY := 240 + k} c r = draw {p.toggled 1 with scrollY := k} c r') ∧
    (c.mirroring.FoldsColumns → draw (p.toggled 0) c r' = draw p c r) ∧
    (c.mirroring.FoldsRows → draw (p.toggled 1) c r' = draw p c r) := by
  refine ⟨?_,fun k low => draw_beyond p c r r' low,draw_columns p c r r',draw_rows p c r r'⟩
  intro left layer hidden
  constructor
  · intro x column y line
    exact pixel_shifted p c r r' (rightward_windows p) left layer hidden ⟨Nat.lt_succ_of_lt column,line⟩
      ⟨Nat.succ_lt_succ column,line⟩ (planeX_rightward p x) (planeY_rightward p y)
  · intro inside x column y line
    have windows : Windows p {p with scrollY := p.scrollY + 1} := ⟨rfl,rfl,rfl,rfl,fun _ _ => rfl⟩
    exact pixel_shifted p c r r' windows left layer hidden ⟨column,Nat.lt_succ_of_lt line⟩
      ⟨column,Nat.succ_lt_succ line⟩ rfl (planeY_downward p inside y)

-- A picture of the last column and the last line of a nametable, on a board that shows one page in all of them.
def brink : Ppu := {Ppu.powerOn with
  mask := ⟨0x0A⟩
  scrollX := 255
  scrollY := 239}

def onePage : Cartridge := {stripes with mapper := .mmc1 {Mmc1.powerOn with control := 0}}

theorem brink_scrolled :
    bit brink.mask.bits 1 = 1 ∧ bit brink.mask.bits 3 = 1 ∧ bit brink.mask.bits 4 = 0 ∧
    (7 < 255 ∧ 9 < 239 ∧ (draw brink.rightward onePage {}).frame.pixel 7 10 = ⟨0x00,0x00,0xFC⟩) ∧
    (brink.scrollY < 255 ∧ (draw {brink with scrollY := brink.scrollY + 1} onePage {}).frame.pixel 8 9 =
      ⟨0x00,0x00,0xFC⟩) ∧
    ((9 : UInt8) < 16 ∧ draw {brink with scrollY := 240 + 9} onePage {} =
      draw {brink.toggled 1 with scrollY := 9} onePage {spriteZeroHit := true}) ∧
    (onePage.mirroring.FoldsColumns ∧ draw (brink.toggled 0) onePage {spriteOverflow := true} = draw brink onePage {}) ∧
    onePage.mirroring.FoldsRows ∧ draw (brink.toggled 1) onePage {spriteOverflow := true} = draw brink onePage {} := by
  have left : bit brink.mask.bits 1 = 1 := by decide
  have layer : bit brink.mask.bits 3 = 1 := by decide
  have hidden : bit brink.mask.bits 4 = 0 := by decide
  have inside : brink.scrollY < 255 := by decide
  have folds : onePage.mirroring = .singleScreenLower := by decide
  have lit : (draw brink onePage {}).frame.pixel 8 10 = ⟨0x00,0x00,0xFC⟩ := by
    rw [draw_color {} (by decide) (by decide),if_pos (by decide)]
    decide +kernel
  obtain ⟨shifts,_⟩ := scrolling_told brink onePage {} {}
  obtain ⟨right,down⟩ := shifts left layer hidden
  have right := (right 7 (by decide) 10 (by decide)).symm.trans lit
  have down := (down inside 8 (by decide) 9 (by decide)).symm.trans lit
  have beyond := (scrolling_told brink onePage {} {spriteZeroHit := true}).2.1 9 (by decide)
  obtain ⟨_,_,columns,rows⟩ := scrolling_told brink onePage {} {spriteOverflow := true}
  have columns := columns (.inr (.inl folds))
  have rows := rows (.inr (.inl folds))
  exact ⟨left,layer,hidden,⟨by decide,by decide,right⟩,⟨inside,down⟩,⟨by decide,beyond⟩,
    ⟨.inr (.inl folds),columns⟩,.inr (.inl folds),rows⟩

end Raster
end Famicom
