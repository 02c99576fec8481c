import Famicom.Proofs.Picture.Layers

namespace Famicom

theorem Mmc1.chrOffset_banks {m n : Mmc1} (mode : n.chrMode = m.chrMode) (lower : n.chr0 = m.chr0)
    (upper : n.chr1 = m.chr1) (size : Nat) (a : UInt16) : n.chrOffset size a = m.chrOffset size a := by
  simp only [chrOffset,chrBank,mode,lower,upper]

namespace Scene

structure SameView (p q : Ppu) (c d : Cartridge) : Prop where
  chr : d.chr = c.chr
  banking : ∀ a, d.mapper.chrOffset c.chr.size a = c.mapper.chrOffset c.chr.size a
  mirroring : d.mirroring = c.mirroring
  vram : q.vram = p.vram
  palette : ∀ i : Fin 0x20, i.val ∉ [0x04,0x08,0x0C,0x10,0x14,0x18,0x1C] → q.palette.get i = p.palette.get i
  corner : ∀ place < 2, bit q.control.bits place = bit p.control.bits place
  table : bit q.control.bits 4 = bit p.control.bits 4
  mask : ∀ place < 5, bit q.mask.bits place = bit p.mask.bits place
  scrollX : q.scrollX = p.scrollX
  scrollY : q.scrollY = p.scrollY

-- The same sprites too, of a size, out of the same table where the size leaves a choice.
structure SameSpriteView (p q : Ppu) : Prop extends SameOam p q where
  tall : bit q.control.bits 5 = bit p.control.bits 5
  table : bit p.control.bits 5 = 1 ∨ bit q.control.bits 3 = bit p.control.bits 3

namespace SameView

variable {p q : Ppu} {c d : Cartridge} (view : SameView p q c d)
include view

theorem patterns (a : UInt16) : d.chrRead a = c.chrRead a := by
  simp only [Cartridge.chrRead,Mapper.chrRead,view.chr,view.banking]

theorem cells (i : Fin 0x20) (shown : i.val = 0 ∨ i.val % 4 ≠ 0) : q.palette.get i = p.palette.get i := by
  apply view.palette
  revert i
  decide

theorem memory : SameMemory p q c d where
  patterns := view.patterns
  vram := view.vram
  table := view.table
  switches := view.mask
  cells := view.cells

theorem ground : SameGround p q c d := by
  have column : ∀ x, planeX q x = planeX p x := by
    intro x
    rw [planeX,planeX,view.corner 0 (by decide),view.scrollX]
  have line : ∀ y, planeY q y = planeY p y := by
    intro y
    rw [planeY,planeY,view.corner 1 (by decide),view.scrollY]
  apply view.memory.ground
  · intro x
    rw [column]
  · intro y
    rw [line]
  · intro x y
    rw [column,line,view.mirroring]

theorem sprites (same : SameSpriteView p q) : SameSprites p q c d :=
  same.toSameOam.sprites view.patterns same.tall same.table

theorem color (hidden : bit p.mask.bits 4 = 0) (x y : Nat) : color q d x y = color p c x y := by
  have none := front?_hidden p c hidden x y
  have none' := front?_hidden q d ((view.mask 4 (by decide)).trans hidden) x y
  apply view.ground.color (none'.trans none.symm)
  intro i found
  rw [none] at found
  cases found

end SameView
end Scene

namespace Raster

open Scene

-- Two consoles with the same in view draw the same frame and report the same sprites; where sprites are hidden, sprite
-- memory is no part of the frame either.
theorem picture_view {p q : Ppu} {c d : Cartridge} (view : SameView p q c d) (r r' : Raster) :
    (SameSpriteView p q → draw q d r' = draw p c r) ∧
    (bit p.mask.bits 4 = 0 → (draw q d r').frame = (draw p c r).frame) := by
  constructor
  · intro same
    exact draw_same view.ground (view.sprites same) r r'
  · intro hidden
    exact frame_same view.ground r r' (view.color hidden)

def serial : Cartridge := {stripes with
  chr := ⟨(List.replicate 4 stripes.chr.toList).flatten⟩
  mapper := .mmc1 {Mmc1.powerOn with control := 0b10011,chr1 := 3}}

def refitted : Cartridge where
  header := ⟨2,0,0x13,0⟩
  trainer := some #[1,2,3]
  prg := #[0xEA]
  chr := serial.chr
  chrWritable := true
  ram := some (Vector.replicate _ 0x5A)
  mapper := .mmc1 {shift := 0b101,collected := ⟨3,by decide⟩,chr0 := 0,control := 0b11111,chr1 := 3,prg := 7}

def occupied : Ppu where
  vram := tallSprite.vram
  palette := (tallSprite.palette.setIfInBounds 4 0x3F).setIfInBounds 0x1C 0x21
  oam := (tallSprite.oam.setIfInBounds 6 0xDD).setIfInBounds 2 0xE4
  control := ⟨0xAD⟩
  mask := ⟨0xF8⟩
  report := ⟨true,true,true⟩
  oamAddress := 0x77
  scrollX := 250
  address := 0x1234
  latch := true
  buffer := 0x55

def hiddenSprite : Ppu := {tallSprite with mask := ⟨8⟩}

def noSprite : Ppu := {hiddenSprite with oam := Vector.replicate _ 0}

theorem occupied_entry (i : Fin 64) (k : Fin 4) (kept : k ≠ 2 ∨ 2 ≤ i.val) :
    entry occupied i k = entry tallSprite i k := by
  have apart : 6 ≠ i.val * 4 + k.val ∧ 2 ≠ i.val * 4 + k.val := by
    have : k ≠ 2 → k.val ≠ 2 := fun other same => other (Fin.eq_of_val_eq same)
    omega
  simp only [entry,occupied]
  rw [Vector.getElem_setIfInBounds_ne _ apart.2,Vector.getElem_setIfInBounds_ne _ apart.1]

theorem occupied_sprites : SameSpriteView tallSprite occupied := by
  refine ⟨⟨fun i k other => occupied_entry i k (.inl other),?_⟩,by decide,by decide⟩
  intro i
  by_cases first : i.val < 2
  · revert i
    decide +kernel
  · intro place _ _
    rw [spriteAttributes,occupied_entry i _ (.inr (Nat.le_of_not_lt first))]
    rfl

theorem occupied_view :
    (SameView tallSprite occupied serial refitted ∧ SameSpriteView tallSprite occupied ∧
      (draw occupied refitted {spriteZeroHit := true}).frame.pixel 21 21 = ⟨0xA8,0x10,0x00⟩) ∧
    SameView hiddenSprite noSprite serial refitted ∧ bit hiddenSprite.mask.bits 4 = 0 ∧
      (draw noSprite refitted {}).frame = (draw hiddenSprite serial {}).frame := by
  have banking : ∀ a, refitted.mapper.chrOffset serial.chr.size a = serial.mapper.chrOffset serial.chr.size a :=
    Mmc1.chrOffset_banks rfl rfl rfl _
  have view : SameView tallSprite occupied serial refitted :=
    ⟨rfl,banking,by decide,rfl,by decide +kernel,by decide,by decide,by decide,rfl,rfl⟩
  have same := (picture_view view {} {spriteZeroHit := true}).1 occupied_sprites
  have shown : (draw tallSprite serial {}).frame.pixel 21 21 = ⟨0xA8,0x10,0x00⟩ := by
    rw [draw_color {} (by decide) (by decide),if_pos (by decide)]
    decide +kernel
  have bare : SameView hiddenSprite noSprite serial refitted :=
    ⟨rfl,banking,by decide,rfl,fun _ _ => rfl,fun _ _ => rfl,rfl,fun _ _ => rfl,rfl,rfl⟩
  have hidden : bit hiddenSprite.mask.bits 4 = 0 := by decide
  exact ⟨⟨view,occupied_sprites,by rw [same,shown]⟩,bare,hidden,(picture_view bare {} {}).2 hidden⟩

end Raster
end Famicom
