import Famicom.Proofs.Picture.Fetches
import Famicom.Proofs.Picture.Redrawing

namespace Famicom

namespace Scene

section
variable (p : Ppu) (c : Cartridge)

def plane (x y : Nat) : Nat := pattern p c (tileRow p c (planeX p x) (planeY p y)) (planeX p x % 256 % 8)

structure Meets (x y : Nat) : Prop where
  shown : bit p.mask.bits 3 = 1 ∧ bit p.mask.bits 4 = 1
  unclipped : 8 ≤ x ∨ bit p.mask.bits 1 = 1 ∧ bit p.mask.bits 2 = 1
  covers : coversLine p y 0
  sprite : spriteColor p c 0 x y ≠ 0
  background : plane p c x y ≠ 0

theorem meets_layers (x y : Nat) : Meets p c x y ↔
    background p c x y ≠ 0 ∧ layerShown p 4 2 x ∧ coversLine p y 0 ∧ spriteColor p c 0 x y ≠ 0 := by
  have solid : background p c x y ≠ 0 ↔ layerShown p 3 1 x ∧ plane p c x y ≠ 0 := by
    rw [background]
    split
    · rename_i shown
      exact ⟨fun dot => ⟨shown,dot⟩,And.right⟩
    · rename_i hidden
      exact ⟨fun zero => absurd rfl zero,fun both => absurd both.1 hidden⟩
  rw [solid]
  constructor
  · rintro ⟨⟨layer,sprites⟩,inside,covers,sprite,dot⟩
    exact ⟨⟨⟨layer,inside.imp_right And.left⟩,dot⟩,⟨sprites,inside.imp_right And.right⟩,covers,sprite⟩
  · rintro ⟨⟨⟨layer,left⟩,dot⟩,⟨sprites,right⟩,covers,sprite⟩
    refine ⟨⟨layer,sprites⟩,?_,covers,sprite,dot⟩
    rcases left with inside | column
    · exact .inl inside
    · exact right.imp_right fun other => ⟨column,other⟩

theorem find?_first {n k : Nat} {covers solid : Fin (n + 1) → Bool} :
    (((List.finRange (n + 1)).filter covers).take (k + 1)).find? solid = some 0 ↔ covers 0 = true ∧ solid 0 = true := by
  constructor
  · intro found
    have among := List.mem_of_mem_take (List.mem_of_find?_eq_some found)
    exact ⟨(List.mem_filter.mp among).2,List.find?_some found⟩
  · rintro ⟨covered,dot⟩
    rw [List.finRange_succ,List.filter_cons,if_pos covered,List.take_succ_cons,List.find?_cons_of_pos dot]

-- Neither another sprite nor a full line takes the first sprite's place.
theorem front?_first (x y : Nat) :
    front? p c x y = some 0 ↔ layerShown p 4 2 x ∧ coversLine p y 0 ∧ spriteColor p c 0 x y ≠ 0 := by
  rw [front?]
  split
  · rename_i shown
    refine (find?_first (n := 63) (k := 7)).trans ?_
    rw [decide_eq_true_eq,decide_eq_true_eq]
    exact (and_iff_right shown).symm
  · rename_i hidden
    constructor
    · intro found
      cases found
    · exact fun all => absurd all.1 hidden

end

-- What the meeting depends on: the registers that place the layers, the first sprite's lines, tile, edge and flips, and
-- of the nametables the tiles.
structure Alike (p q : Ppu) : Prop where
  control : q.control = p.control
  mask : q.mask = p.mask
  scrollX : q.scrollX = p.scrollX
  scrollY : q.scrollY = p.scrollY
  top : top q 0 = top p 0
  tile : spriteTile q 0 = spriteTile p 0
  left : left q 0 = left p 0
  across : bit (spriteAttributes q 0) 6 = bit (spriteAttributes p 0) 6
  down : bit (spriteAttributes q 0) 7 = bit (spriteAttributes p 0) 7
  tiles : ∀ i : Fin 0x1000, i.val % 0x400 < 0x3C0 → q.vram[i] = p.vram[i]

namespace Alike

variable {p q : Ppu} (alike : Alike p q) (c : Cartridge)
include alike

theorem coversLine (y : Nat) : Scene.coversLine q y 0 ↔ Scene.coversLine p y 0 := by
  rw [Scene.coversLine,height,alike.top,alike.control]
  rfl

theorem spriteColor {y : Nat} (covers : Scene.coversLine p y 0) (x : Nat) :
    Scene.spriteColor q c 0 x y = Scene.spriteColor p c 0 x y := by
  have row : row q 0 y = row p 0 y := by rw [row,height,alike.down,alike.top,alike.control]; rfl
  have column : column q 0 x = column p 0 x := by rw [column,alike.across,alike.left]; rfl
  have place : ∀ k, rowAddress q 0 k = rowAddress p 0 k := by
    intro k
    rw [rowAddress,alike.tile,alike.control]
    rfl
  have within := rowAddress_lt p 0 (row_lt p covers)
  rw [Scene.spriteColor,row,column,place,alike.left,pattern_same p c q within]
  rfl

theorem plane (x y : Nat) : Scene.plane q c x y = Scene.plane p c x y := by
  have across : planeX q x = planeX p x := by rw [planeX,alike.scrollX,alike.control]; rfl
  have along : planeY q y = planeY p y := by rw [planeY,alike.scrollY,alike.control]; rfl
  obtain ⟨above,below,offset⟩ := tilePlace_within (planeX_lt p x) (planeY_lt p y)
  have inside := Nat.lt_trans below (show 0x3000 < 0x3F00 by decide)
  have tile : Scene.tile q c (planeX p x) (planeY p y) = Scene.tile p c (planeX p x) (planeY p y) := by
    obtain ⟨there,cell⟩ := byte_nametable q c above inside
    obtain ⟨here,_⟩ := byte_nametable p c above inside
    rw [← cell] at offset
    exact there.trans ((alike.tiles _ offset).trans here.symm)
  have row : tileRow q c (planeX p x) (planeY p y) = tileRow p c (planeX p x) (planeY p y) := by
    rw [tileRow,tile,alike.control]
    rfl
  rw [Scene.plane,across,along,row,pattern_same p c q (tileRow_lt p c _ _)]
  rfl

theorem symm : Alike q p where
  control := alike.control.symm
  mask := alike.mask.symm
  scrollX := alike.scrollX.symm
  scrollY := alike.scrollY.symm
  top := alike.top.symm
  tile := alike.tile.symm
  left := alike.left.symm
  across := alike.across.symm
  down := alike.down.symm
  tiles i inside := (alike.tiles i inside).symm

theorem meets {x y : Nat} (meets : Meets p c x y) : Meets q c x y where
  shown := alike.mask ▸ meets.shown
  unclipped := alike.mask ▸ meets.unclipped
  covers := (alike.coversLine y).mpr meets.covers
  sprite := by
    rw [alike.spriteColor c meets.covers]
    exact meets.sprite
  background := by
    rw [alike.plane]
    exact meets.background

end Alike

end Scene

namespace Raster

open Scene

variable (p : Ppu) (c : Cartridge)

theorem met_meets (x y : Nat) : met p c x y = true ↔ x ≠ 255 ∧ Meets p c x y := by
  have first := front?_first p c x y
  have dot : (p.backgroundDot c x y).color ≠ 0 ↔ background p c x y ≠ 0 := not_congr (backgroundDot_clear p c x y)
  rw [met,frontSprite_eq,meets_layers,← first,← dot]
  cases front : front? p c x y with
  | none => simp [Ppu.hits]
  | some i =>
      have index : (p.spriteAt i).index = 0 ↔ i = 0 := Fin.val_eq_zero_iff
      simp only [Option.map_some,Ppu.hits,Bool.and_eq_true,bne_iff_ne,beq_iff_eq,index,Option.some.injEq]
      exact ⟨fun ⟨⟨dot,here⟩,column⟩ => ⟨column,dot,here⟩,fun ⟨column,dot,here⟩ => ⟨⟨dot,here⟩,column⟩⟩

theorem draw_hit (r : Raster) : (draw p c r).spriteZeroHit = true ↔ ∃ y < 240, ∃ x < 255, Meets p c x y := by
  have before : ∀ y, (∃ x < screenWidth, met p c x y = true) ↔ ∃ x < 255, Meets p c x y := by
    intro y
    constructor
    · rintro ⟨x,inside,seen⟩
      obtain ⟨other,meets⟩ := (met_meets p c x y).mp seen
      exact ⟨x,Nat.lt_of_le_of_ne (Nat.le_of_lt_succ inside) other,meets⟩
    · rintro ⟨x,inside,meets⟩
      exact ⟨x,Nat.lt_succ_of_lt inside,(met_meets p c x y).mpr ⟨Nat.ne_of_lt inside,meets⟩⟩
  cases rendering : p.mask.rendering with
  | false =>
      rw [draw_blank p c r rendering]
      constructor
      · exact fun seen => absurd seen Bool.false_ne_true
      · rintro ⟨y,_,x,_,meets⟩
        have shown := (rendering_eq p.mask).mpr (.inl meets.shown.1)
        exact absurd (rendering.symm.trans shown) Bool.false_ne_true
  | true =>
      rw [(draw_flags p c r rendering).1]
      simp only [before]
      rfl

-- The first sprite meets the background exactly where both are solid, and what has no part in that makes no difference.
theorem spriteZero_told (r : Raster) :
    ((draw p c r).spriteZeroHit = true ↔ ∃ y < 240, ∃ x < 255, Meets p c x y) ∧
      ∀ q, Alike p q → ∀ r', (draw q c r').spriteZeroHit = (draw p c r).spriteZeroHit := by
  refine ⟨draw_hit p c r,?_⟩
  intro q alike r'
  have same : ∀ x y, Meets q c x y ↔ Meets p c x y := fun _ _ => ⟨alike.symm.meets c,alike.meets c⟩
  apply Bool.eq_iff_iff.mpr
  simp only [draw_hit,same]

def alone : Ppu := {Ppu.powerOn with
  oam := ((((Vector.replicate _ 0xF0).setIfInBounds 0 9).setIfInBounds 1 0).setIfInBounds 2 0).setIfInBounds 3 20
  mask := ⟨0x18⟩}

def amongOthers : Ppu := {alone with
  oam := (((Vector.replicate _ 9).setIfInBounds 1 0).setIfInBounds 2 0x23).setIfInBounds 3 20
  palette := Vector.replicate _ 0x15
  vram := alone.vram.setIfInBounds 0x3C1 0xFF}

theorem amongOthers_met :
    Meets alone stripes 20 12 ∧ Alike alone amongOthers ∧ (draw alone stripes {}).spriteZeroHit = true ∧
      (draw amongOthers stripes {spriteOverflow := true}).spriteZeroHit = true := by
  obtain ⟨told,same⟩ := spriteZero_told alone stripes {}
  have meets : Meets alone stripes 20 12 := ⟨by decide,by decide,by decide +kernel,by decide +kernel,by decide +kernel⟩
  have alike : Alike alone amongOthers := by
    refine ⟨rfl,rfl,rfl,rfl,by decide +kernel,by decide +kernel,by decide +kernel,by decide +kernel,by decide +kernel,?_⟩
    intro i inside
    have other : 0x3C1 ≠ i.val := by omega
    exact Vector.getElem_setIfInBounds_ne _ other
  have hit : (draw alone stripes {}).spriteZeroHit = true := told.mpr ⟨12,by decide,20,by decide,meets⟩
  exact ⟨meets,alike,hit,(same amongOthers alike {spriteOverflow := true}).trans hit⟩

end Raster
end Famicom
