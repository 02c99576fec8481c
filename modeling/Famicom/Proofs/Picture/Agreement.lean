import Famicom.Proofs.Picture.Scene

namespace Famicom.Scene

open Ppu

theorem hasBit_place (v : UInt8) (place : Fin 8) :
    hasBit v (UInt8.ofNat (1 <<< place.val)) = decide (bit v place = 1) := by
  rw [hasBit_testBit,Nat.testBit_eq_decide_div_mod_eq,bit,Nat.shiftRight_eq_div_pow]

theorem patternPixel_toNat (lo hi : UInt8) (column : Nat) (within : column < 8) :
    (patternPixel lo hi column).toNat = 2 * bit hi (7 - column) + bit lo (7 - column) := by
  have plane : ∀ v : UInt8, ((v >>> UInt8.ofNat (7 - column)) % 2).toNat = bit v (7 - column) := by
    intro v
    have small : (7 - column) % 256 % 8 = 7 - column := by omega
    simp [bit,small]
  have := bit_lt hi (7 - column)
  have := bit_lt lo (7 - column)
  simp only [patternPixel,UInt8.toNat_add,UInt8.toNat_mul,plane,UInt8.reduceToNat]
  omega

theorem patternPixel_eq (p : Ppu) (c : Cartridge) (row column : Nat) (within : column < 8) :
    patternPixel (byte p c row) (byte p c (row + 8)) column = UInt8.ofNat (pattern p c row column) := by
  apply UInt8.toNat_inj.mp
  have := pattern_lt p c row column
  rw [patternPixel_toNat _ _ _ within,UInt8.toNat_ofNat']
  change pattern p c row column = _
  omega

theorem planePoint_eq (p : Ppu) (x y : Nat) : p.planePoint x y = (planeX p x,planeY p y) := by
  have corner : p.control.nametable % 2 = bit p.control.bits 0 ∧ p.control.nametable / 2 = bit p.control.bits 1 := by
    simp only [Control.nametable,bit]
    omega
  simp only [planePoint,planeX,planeY,corner,Nat.mul_comm]

theorem tableSwitch_toNat (v : UInt8) (place : Fin 8) :
    (if hasBit v (UInt8.ofNat (1 <<< place.val)) then 0x1000 else 0 : UInt16).toNat = 0x1000 * bit v place := by
  have := bit_lt v place
  rw [hasBit_place]
  by_cases on : bit v place = 1
  · simp [on]
  · have off : bit v place = 0 := by omega
    simp [off]

theorem tileAddress_eq (u v : Nat) :
    tileAddress u v = UInt16.ofNat (nametable u v + 32 * (v % 240 / 8) + u % 256 / 8) := by
  simp only [tileAddress,nametableBase,nametable]
  congr 1
  omega

theorem attributeAddress_eq (u v : Nat) :
    attributeAddress u v = UInt16.ofNat (nametable u v + 0x3C0 + 8 * (v % 240 / 32) + u % 256 / 32) := by
  simp only [attributeAddress,nametableBase,nametable]
  congr 1
  omega

theorem backgroundTable_toNat (b : Control) : b.backgroundTable.toNat = 0x1000 * bit b.bits 4 :=
  tableSwitch_toNat b.bits 4

theorem spriteTable_toNat (b : Control) : b.spriteTable.toNat = 0x1000 * bit b.bits 3 :=
  tableSwitch_toNat b.bits 3

theorem tileRowAddress_eq (p : Ppu) (c : Cartridge) (u v : Nat) :
    p.tileRowAddress (p.read c (tileAddress u v)) (v % 8) = UInt16.ofNat (tileRow p c u v) := by
  apply UInt16.toNat_inj.mp
  have := (tile p c u v).toNat_lt
  have := bit_lt p.control.bits 4
  rw [tileAddress_eq]
  change (p.tileRowAddress (tile p c u v) (v % 8)).toNat = _
  simp only [tileRowAddress,tileRow,UInt16.toNat_add,UInt16.toNat_mul,UInt8.toNat_toUInt16,
    UInt16.toNat_ofNat',backgroundTable_toNat,UInt16.reduceToNat]
  omega

theorem attributeField_toNat (a : UInt8) (u v : Nat) :
    ((a >>> attributeShift u v) % 4).toNat = (a.toNat >>> (2 * quarter u v)) % 4 := by
  have shift : (attributeShift u v).toNat = 2 * quarter u v := by
    simp only [attributeShift,quarter,UInt8.toNat_ofNat']
    omega
  have small : 2 * quarter u v % 8 = 2 * quarter u v := by
    simp only [quarter]
    omega
  simp only [UInt8.toNat_mod,UInt8.toNat_shiftRight,shift,small,UInt8.reduceToNat]

theorem planeDot_toNat (p : Ppu) (c : Cartridge) (u v : Nat) :
    (p.planeDot c u v).color.toNat = pattern p c (tileRow p c u v) (u % 256 % 8) ∧
      (p.planeDot c u v).palette.toNat = ((attributes p c u v).toNat >>> (2 * quarter u v)) % 4 := by
  have same : u % 256 % 8 = u % 8 := Nat.mod_mod_of_dvd u (by decide)
  have upper : UInt16.ofNat (tileRow p c u v) + 8 = UInt16.ofNat (tileRow p c u v + 8) :=
    (UInt16.ofNat_add _ 8).symm
  refine ⟨?_,?_⟩
  · simp only [planeDot,tileRowAddress_eq,upper]
    rw [patternPixel_toNat _ _ _ (Nat.mod_lt u (by decide)),same]
    rfl
  · simp only [planeDot,attributeAddress_eq]
    exact attributeField_toNat _ u v

theorem backgroundLayer_eq (m : Mask) : m.background = decide (bit m.bits 3 = 1) := hasBit_place _ 3

theorem spriteLayer_eq (m : Mask) : m.sprites = decide (bit m.bits 4 = 1) := hasBit_place _ 4

theorem rendering_eq (m : Mask) : m.rendering = true ↔ bit m.bits 3 = 1 ∨ bit m.bits 4 = 1 := by
  rw [Mask.rendering,backgroundLayer_eq,spriteLayer_eq,← Bool.decide_or,decide_eq_true_eq]

theorem backgroundAt_eq (p : Ppu) (x : Nat) : p.mask.backgroundAt x = decide (layerShown p 3 1 x) := by
  have leftmost : p.mask.backgroundInLeftColumn = decide (bit p.mask.bits 1 = 1) := hasBit_place _ 1
  rw [Mask.backgroundAt,backgroundLayer_eq,leftmost,← Bool.decide_or,← Bool.decide_and]
  rfl

theorem spritesAt_eq (p : Ppu) (x : Nat) : p.mask.spritesAt x = decide (layerShown p 4 2 x) := by
  have leftmost : p.mask.spritesInLeftColumn = decide (bit p.mask.bits 2 = 1) := hasBit_place _ 2
  rw [Mask.spritesAt,spriteLayer_eq,leftmost,← Bool.decide_or,← Bool.decide_and]
  rfl

theorem backgroundDot_color (p : Ppu) (c : Cartridge) (x y : Nat) :
    (p.backgroundDot c x y).color.toNat = background p c x y := by
  simp only [backgroundDot,background,backgroundAt_eq,planePoint_eq,decide_eq_true_eq]
  split
  · exact (planeDot_toNat p c _ _).1
  · rfl

-- Where the background is transparent its palette is never looked up.
theorem backgroundDot_palette (p : Ppu) (c : Cartridge) (x y : Nat) (solid : background p c x y ≠ 0) :
    (p.backgroundDot c x y).palette.toNat = backgroundPalette p c x y := by
  have shown : layerShown p 3 1 x := by
    apply Decidable.byContradiction
    intro hidden
    exact solid (if_neg hidden)
  simp only [backgroundDot,backgroundAt_eq,planePoint_eq,decide_eq_true_eq,if_pos shown]
  exact (planeDot_toNat p c _ _).2

theorem spriteHeight_eq (p : Ppu) : p.control.spriteHeight = height p := by
  have tall : hasBit p.control.bits 0x20 = decide (bit p.control.bits 5 = 1) := hasBit_place _ 5
  have := bit_lt p.control.bits 5
  simp only [Control.spriteHeight,height,tall,decide_eq_true_eq]
  split <;> omega

theorem spriteAt_covers (p : Ppu) (y : Nat) (i : Fin 64) :
    (p.spriteAt i).covers p.control.spriteHeight y = decide (coversLine p y i) := by
  rw [spriteHeight_eq,Sprite.covers,← Bool.decide_and]
  rfl

theorem spriteAt_patternRow (p : Ppu) (i : Fin 64) (y : Nat) :
    (p.spriteAt i).patternRow p.control.spriteHeight y = row p i y := by
  have flipped : (p.spriteAt i).flippedDown = decide (bit (spriteAttributes p i) 7 = 1) := hasBit_place _ 7
  simp only [spriteHeight_eq,Sprite.patternRow,flipped,decide_eq_true_eq]
  rfl

theorem spriteRowAddress_eq (p : Ppu) (i : Fin 64) (k : Nat) :
    p.spriteRowAddress (p.spriteAt i).tile k = UInt16.ofNat (rowAddress p i k) := by
  apply UInt16.toNat_inj.mp
  change (p.spriteRowAddress (spriteTile p i) k).toNat = _
  have := (spriteTile p i).toNat_lt
  have := bit_lt p.control.bits 3
  have := bit_lt p.control.bits 5
  simp only [Ppu.spriteRowAddress,rowAddress,spriteHeight_eq,height]
  by_cases tall : bit p.control.bits 5 = 1
  · simp only [tall,if_true,UInt16.toNat_add,UInt16.toNat_mul,UInt16.toNat_div,UInt16.toNat_mod,
      UInt8.toNat_toUInt16,UInt16.toNat_ofNat',UInt16.reduceToNat]
    omega
  · have short : bit p.control.bits 5 = 0 := by omega
    simp only [short,Nat.reduceMul,Nat.reduceAdd,Nat.reduceEqDiff,if_false,UInt16.toNat_add,UInt16.toNat_mul,
      UInt8.toNat_toUInt16,UInt16.toNat_ofNat',spriteTable_toNat,UInt16.reduceToNat]
    omega

theorem color?_eq (p : Ppu) (c : Cartridge) (i : Fin 64) (x y : Nat) :
    (p.lineSprite c y (p.spriteAt i)).color? x =
      if spriteColor p c i x y ≠ 0 then some (UInt8.ofNat (spriteColor p c i x y)) else none := by
  have flipped : (p.spriteAt i).flippedAcross = decide (bit (spriteAttributes p i) 6 = 1) := hasBit_place _ 6
  have address := spriteRowAddress_eq p i (row p i y)
  have upper : UInt16.ofNat (rowAddress p i (row p i y)) + 8 = UInt16.ofNat (rowAddress p i (row p i y) + 8) :=
    (UInt16.ofNat_add _ 8).symm
  have edge : (p.spriteAt i).x.toNat = left p i := rfl
  simp only [LineSprite.color?,Ppu.lineSprite,spriteAt_patternRow,address,upper,flipped,edge,
    decide_eq_true_eq,spriteColor]
  -- A column that the sprite reaches lies in its eight, which is what the pattern row needs.
  by_cases reached : left p i ≤ x ∧ x < left p i + 8
  · have within : column p i x < 8 := by
      unfold column
      split <;> omega
    have dots := patternPixel_eq p c (rowAddress p i (row p i y)) (column p i x) within
    have := pattern_lt p c (rowAddress p i (row p i y)) (column p i x)
    simp only [if_pos reached]
    change (if patternPixel (byte p c _) (byte p c _) (column p i x) = 0 then none
      else some (patternPixel (byte p c _) (byte p c _) (column p i x))) = _
    rw [dots]
    by_cases clear : pattern p c (rowAddress p i (row p i y)) (column p i x) = 0
    · simp [clear]
    · have solid : UInt8.ofNat (pattern p c (rowAddress p i (row p i y)) (column p i x)) ≠ 0 := by
        intro zero
        have same := congrArg UInt8.toNat zero
        simp only [UInt8.toNat_ofNat',UInt8.reduceToNat] at same
        omega
      simp [clear,solid]
  · simp only [if_neg reached]
    rfl

theorem shown_eq (p : Ppu) (c : Cartridge) (y : Nat) :
    (p.lineSprites c y).shown = (candidates p y).map fun i => p.lineSprite c y (p.spriteAt i) := by
  simp only [Ppu.lineSprites,pickSprites_exact,Ppu.sprites,List.filter_map,← List.map_take,List.map_map,
    candidates,spritesPerLine]
  congr 2
  congr 1
  funext i
  exact spriteAt_covers p y i

theorem frontSprite_eq (p : Ppu) (c : Cartridge) (x y : Nat) :
    p.frontSprite (p.lineSprites c y).shown x =
      (front? p c x y).map fun i => (p.spriteAt i,UInt8.ofNat (spriteColor p c i x y)) := by
  simp only [Ppu.frontSprite,front?,spritesAt_eq,decide_eq_true_eq]
  split
  · rw [shown_eq,List.findSome?_map,← List.findSome?_guard,List.map_findSome?]
    congr 1
    funext i
    simp only [Function.comp,color?_eq,Option.guard,decide_eq_true_eq]
    split <;> rfl
  · rfl

theorem backgroundDot_clear (p : Ppu) (c : Cartridge) (x y : Nat) :
    (p.backgroundDot c x y).color = 0 ↔ background p c x y = 0 := by
  rw [← backgroundDot_color]
  exact UInt8.toNat_inj.symm

theorem backgroundCell_eq (p : Ppu) (c : Cartridge) (x y : Nat) (solid : background p c x y ≠ 0) :
    Ppu.backgroundCell (p.backgroundDot c x y) = UInt16.ofNat (backgroundCell p c x y) := by
  apply UInt16.toNat_inj.mp
  simp only [Ppu.backgroundCell,backgroundCell,paletteBase,UInt16.toNat_add,UInt16.toNat_mul,
    UInt8.toNat_toUInt16,backgroundDot_color,backgroundDot_palette p c x y solid,UInt16.toNat_ofNat',
    UInt16.reduceToNat]
  omega

theorem spriteCell_eq (p : Ppu) (c : Cartridge) (i : Fin 64) (x y : Nat) :
    Ppu.spriteCell (p.spriteAt i) (UInt8.ofNat (spriteColor p c i x y)) = UInt16.ofNat (spriteCell p c i x y) := by
  apply UInt16.toNat_inj.mp
  have := spriteColor_lt p c i x y
  have palette : (p.spriteAt i).palette.toNat = (spriteAttributes p i).toNat % 4 := UInt8.toNat_mod ..
  simp only [Ppu.spriteCell,spriteCell,paletteBase,UInt16.toNat_add,UInt16.toNat_mul,UInt8.toNat_toUInt16,
    palette,UInt8.toNat_ofNat',UInt16.toNat_ofNat',UInt16.reduceToNat]
  omega

theorem pointCell_eq (p : Ppu) (c : Cartridge) (x y : Nat) :
    Ppu.pointCell (p.backgroundDot c x y) (p.frontSprite (p.lineSprites c y).shown x) =
      UInt16.ofNat (cell p c x y) := by
  rw [frontSprite_eq]
  unfold Ppu.pointCell cell
  cases front? p c x y with
  | none =>
      simp only [Option.map_none,ne_eq,backgroundDot_clear]
      split
      · rename_i solid; exact backgroundCell_eq p c x y solid
      · rfl
  | some i =>
      have behind : (p.spriteAt i).behindBackground = decide (bit (spriteAttributes p i) 5 = 1) := hasBit_place _ 5
      simp only [Option.map_some,ne_eq,backgroundDot_clear,behind,decide_eq_true_eq]
      split
      · rename_i covered; exact backgroundCell_eq p c x y covered.1
      · exact spriteCell_eq p c i x y

theorem pointColor_eq (p : Ppu) (c : Cartridge) (x y : Nat) :
    p.color c (Ppu.pointCell (p.backgroundDot c x y) (p.frontSprite (p.lineSprites c y).shown x)) =
      color p c x y := by
  have grey : p.mask.greyscale = decide (bit p.mask.bits 0 = 1) := hasBit_place _ 0
  simp only [Ppu.color,color,pointCell_eq,grey,decide_eq_true_eq]
  rfl

end Famicom.Scene
