import Famicom.Proofs.Checked.Drawing
import Famicom.Proofs.Picture.Agreement

namespace Famicom

open Checked

-- A piece of drawing: its result, if no check stops it, and the places it has read, oldest first.
def Fetching (α : Type) : Type := Option (α × List UInt16)

namespace Fetching

variable {α β : Type} {n : Nat}

def told (v : α) (places : List UInt16) : Fetching α := some (v,places)

def behind (places : List UInt16) (x : Fetching α) : Fetching α := x.map fun (v,later) => (v,places ++ later)

instance : Monad Fetching where
  pure v := told v []
  bind x f := Option.bind x fun (v,places) => (f v).behind places

instance : MonadLift Option Fetching where
  monadLift x := x.map (·,[])

theorem pure_told (v : α) : (pure v : Fetching α) = told v [] := rfl

theorem told_bind (v : α) (places : List UInt16) (f : α → Fetching β) : told v places >>= f = (f v).behind places := rfl

theorem behind_told (v : α) (places later : List UInt16) : (told v later).behind places = told v (places ++ later) := rfl

theorem checked_some (v : α) : (liftM (some v) : Fetching α) = told v [] := rfl

def Reads (x : Fetching α) (v : α) (inside : UInt16 → Prop) : Prop :=
  ∃ places, x = told v places ∧ ∀ a ∈ places, inside a

variable {inside : UInt16 → Prop}

theorem Reads.bind {x : Fetching α} {v : α} {f : α → Fetching β} {w : β} (first : x.Reads v inside)
    (second : (f v).Reads w inside) : (x >>= f).Reads w inside := by
  obtain ⟨places,rfl,all⟩ := first
  obtain ⟨later,next,rest⟩ := second
  refine ⟨places ++ later,?_,List.forall_mem_append.mpr ⟨all,rest⟩⟩
  rw [told_bind,next,behind_told]

theorem Reads.pure (v : α) : (Pure.pure v : Fetching α).Reads v inside := ⟨[],rfl,List.forall_mem_nil _⟩

theorem Reads.checked {x : Option α} {v : α} (passes : x = some v) : (liftM x : Fetching α).Reads v inside := by
  rw [passes]
  exact Reads.pure v

def rounds (n : Nat) (round : Nat → α → Fetching α) (start : α) : Fetching α :=
  Nat.fold n (fun i _ x => x >>= round i) (Pure.pure start)

theorem Reads.rounds {round : Nat → α → Fetching α} {plain : (i : Nat) → i < n → α → α}
    (each : ∀ i (h : i < n) a, (round i a).Reads (plain i h a) inside) (start : α) :
    (rounds n round start).Reads (Nat.fold n plain start) inside := by
  unfold Fetching.rounds
  induction n with
  | zero => exact Reads.pure start
  | succ n ih =>
      rw [Nat.fold_succ,Nat.fold_succ]
      exact (ih fun i h => each i (Nat.lt_succ_of_lt h)).bind (each n (Nat.lt_succ_self n) _)

def each (f : α → Fetching β) (xs : List α) : Fetching (List β) :=
  match xs with
  | [] => Pure.pure []
  | x :: rest => do
    let y ← f x
    let ys ← each f rest
    Pure.pure (y :: ys)

theorem Reads.each {f : α → Fetching β} {g : α → β} {xs : List α} (all : ∀ x ∈ xs, (f x).Reads (g x) inside) :
    (each f xs).Reads (xs.map g) inside := by
  induction xs with
  | nil => exact Reads.pure []
  | cons x rest ih =>
      obtain ⟨first,others⟩ := List.forall_mem_cons.mp all
      exact first.bind ((ih others).bind (Reads.pure _))

end Fetching

open Fetching (told)

namespace Ppu

variable (p : Ppu) (c : Cartridge)

def fetch (a : UInt16) : Fetching UInt8 := told (p.read c a) [a]

def fetchRow (row : UInt16) : Fetching (UInt8 × UInt8) := do
  let lo ← p.fetch c row
  let second ← address? (row.toNat + 8)
  let hi ← p.fetch c second
  pure (lo,hi)

def planePoint? (x y : Nat) : Option (Nat × Nat) := do
  let corner := p.control.nametable
  let across ← size? (x + p.scrollX.toNat + corner % 2 * 256)
  let down ← size? (y + p.scrollY.toNat + corner / 2 * 240)
  some (across % 512,down % 480)

def fetchPoint (x y : Nat) : Fetching Dot := do
  let (planeX,planeY) ← p.planePoint? x y
  let tileCell ← tileAddress? planeX planeY
  let tile ← p.fetch c tileCell
  let row ← p.tileRowAddress? tile (planeY % 8)
  let (lo,hi) ← p.fetchRow c row
  let color ← patternPixel? lo hi (planeX % 8)
  let attributeCell ← attributeAddress? planeX planeY
  let attributes ← p.fetch c attributeCell
  let palette ← shiftRight? attributes (attributeShift planeX planeY).toNat
  pure {color := color,palette := palette % 4}

def fetchBackground (x y : Nat) : Fetching Dot := if p.mask.backgroundAt x then p.fetchPoint c x y else pure {}

def fetchSprite (line : Nat) (s : Sprite) : Fetching LineSprite := do
  let row ← s.patternRow? p.control.spriteHeight line
  let start ← p.spriteRowAddress? s.tile row
  let (lo,hi) ← p.fetchRow c start
  pure ⟨s,lo,hi⟩

def sprites? : Option (List Sprite) := (List.finRange 64).mapM p.spriteAt?

def fetchSprites (line : Nat) : Fetching LineSprites := do
  let sprites ← p.sprites?
  let (picked,overflow) := pickSprites (·.covers p.control.spriteHeight line) spritesPerLine sprites
  let shown ← Fetching.each (p.fetchSprite c line) picked
  pure ⟨shown,overflow⟩

def shade? (v : UInt8) : Option Color := systemPalette[(if p.mask.greyscale then v &&& 0x30 else v).toNat % 64]?

def fetchColor (a : UInt16) : Fetching Color := do
  let v ← p.fetch c a
  p.shade? v

end Ppu

namespace Raster

variable (p : Ppu) (c : Cartridge)

def fetchPoint (shown : List LineSprite) (x y : Nat) (r : Raster) : Fetching Raster := do
  let dot ← p.fetchBackground c x y
  let front ← p.frontSprite? shown x
  let cell ← Ppu.pointCell? dot front
  let color ← p.fetchColor c cell
  let frame ← r.frame.setPixel? x y color
  pure {r with frame := frame,spriteZeroHit := r.spriteZeroHit || Ppu.hits dot front x}

def fetchLine (y : Nat) (r : Raster) : Fetching Raster := do
  let sprites ← p.fetchSprites c y
  Fetching.rounds screenWidth (fun x r => fetchPoint p c sprites.shown x y r)
    {r with spriteOverflow := r.spriteOverflow || sprites.overflow}

def fetchFrame (r : Raster) : Fetching Raster :=
  if p.mask.rendering then
    Fetching.rounds screenHeight (fun y r => fetchLine p c y r) {r with spriteZeroHit := false,spriteOverflow := false}
  else do
    let backdrop ← p.fetchColor c Ppu.paletteBase
    pure {frame := .filled backdrop}

end Raster

namespace Ppu

variable (p : Ppu) (c : Cartridge)

theorem planePoint?_eq {x y : Nat} (column : x < 256) (line : y < 240) :
    p.planePoint? x y = some (p.planePoint x y) := by
  have := p.scrollX.toNat_lt
  have := p.scrollY.toNat_lt
  have corner : p.control.nametable < 4 := Nat.mod_lt _ (by decide)
  have across := @size?_eq (x + p.scrollX.toNat + p.control.nametable % 2 * 256) (by omega)
  have down := @size?_eq (y + p.scrollY.toNat + p.control.nametable / 2 * 240) (by omega)
  simp only [planePoint?,across,down,Option.bind_eq_bind,Option.bind_some]
  rfl

theorem fetchRow_eq {row : UInt16} (fits : row.toNat < 0x8000) :
    p.fetchRow c row = told (p.read c row,p.read c (row + 8)) [row,row + 8] := by
  have next : row.toNat + 8 = (row + 8).toNat := by
    rw [UInt16.toNat_add]
    simp only [UInt16.reduceToNat]
    omega
  rw [fetchRow,next,address?_toNat]
  rfl

theorem fetchPoint_eq {x y : Nat} (column : x < 256) (line : y < 240) :
    let (planeX,planeY) := p.planePoint x y
    let row := p.tileRowAddress (p.read c (tileAddress planeX planeY)) (planeY % 8)
    p.fetchPoint c x y =
      told (p.planeDot c planeX planeY) [tileAddress planeX planeY,row,row + 8,attributeAddress planeX planeY] := by
  have across : (p.planePoint x y).1 < 512 := Nat.mod_lt _ (by decide)
  have down : (p.planePoint x y).2 < 480 := Nat.mod_lt _ (by decide)
  have line8 : (p.planePoint x y).2 % 8 < 8 := Nat.mod_lt _ (by decide)
  have column8 : (p.planePoint x y).1 % 8 < 8 := Nat.mod_lt _ (by decide)
  have shift := attributeShift_toNat (p.planePoint x y).1 (p.planePoint x y).2
  simp only [fetchPoint,p.planePoint?_eq column line,tileAddress?_eq across down,attributeAddress?_eq across down,
    p.tileRowAddress?_eq _ line8,p.fetchRow_eq c (p.tileRowAddress_toNat _ line8),patternPixel?_eq _ _ column8,
    shiftRight?_eq _ shift,UInt8.ofNat_toNat,fetch,Fetching.checked_some,Fetching.told_bind,Fetching.behind_told,
    Fetching.pure_told]
  rfl

theorem fetchSprite_eq {line : Nat} {s : Sprite} (covered : s.covers p.control.spriteHeight line = true) :
    let row := p.spriteRowAddress s.tile (s.patternRow p.control.spriteHeight line)
    p.fetchSprite c line s = told (p.lineSprite c line s) [row,row + 8] := by
  obtain ⟨row,inside⟩ := s.patternRow?_eq covered
  obtain ⟨start,fits⟩ := p.spriteRowAddress?_eq s.tile inside
  simp only [fetchSprite,row,start,p.fetchRow_eq c fits,Fetching.checked_some,Fetching.told_bind,Fetching.behind_told,
    Fetching.pure_told]
  rfl

theorem fetchColor_eq (a : UInt16) : p.fetchColor c a = told (p.color c a) [a] := by
  have shade : p.shade? (p.read c a) = some (p.color c a) := Vector.getElem?_eq_getElem (Nat.mod_lt _ (by decide))
  simp only [fetchColor,fetch,shade,Fetching.checked_some,Fetching.told_bind,Fetching.behind_told]
  rfl

end Ppu

def InTiles (table : Nat) (a : UInt16) : Prop := ∃ k < 0x3C0, a.toNat = 0x2000 + 0x400 * table + k

def InAttributes (table : Nat) (a : UInt16) : Prop := ∃ k < 0x40, a.toNat = 0x2000 + 0x400 * table + 0x3C0 + k

def InPatterns (table : Nat) (a : UInt16) : Prop := ∃ k < 0x1000, a.toNat = 0x1000 * table + k

def InPalette (a : UInt16) : Prop := ∃ k < 0x20, a.toNat = 0x3F00 + k

def Fetchable (a : UInt16) : Prop :=
  (∃ table < 2, InPatterns table a) ∨ (∃ table < 4, InTiles table a ∨ InAttributes table a) ∨ InPalette a

namespace Ppu

open Scene (bit bit_lt)

variable (p : Ppu) (c : Cartridge)

theorem point_regions {planeX planeY : Nat} (column : planeX < 512) (line : planeY < 480) :
    ∃ table < 4, InTiles table (tileAddress planeX planeY) ∧ InAttributes table (attributeAddress planeX planeY) := by
  refine ⟨planeX / 256 + planeY / 240 * 2,by omega,⟨planeY % 240 / 8 * 32 + planeX % 256 / 8,by omega,?_⟩,
    ⟨planeY % 240 / 8 / 4 * 8 + planeX % 256 / 8 / 4,by omega,?_⟩⟩
  · rw [tileAddress,nametableBase,UInt16.toNat_ofNat']
    omega
  · rw [attributeAddress,nametableBase,UInt16.toNat_ofNat']
    omega

-- A row of eight lines, with the places eight bytes behind it, lies in the table of its tile.
theorem row_regions {table : Nat} {a : UInt16} (low : table < 2) (tile : UInt8) {row : Nat} (inside : row < 8)
    (place : a.toNat = 0x1000 * table + tile.toNat * 16 + row) : InPatterns table a ∧ InPatterns table (a + 8) := by
  have := tile.toNat_lt
  refine ⟨⟨tile.toNat * 16 + row,by omega,by omega⟩,⟨tile.toNat * 16 + row + 8,by omega,?_⟩⟩
  rw [UInt16.toNat_add,place]
  simp only [UInt16.reduceToNat]
  omega

theorem tileRow_regions (tile : UInt8) {row : Nat} (inside : row < 8) :
    let table := bit p.control.bits 4
    InPatterns table (p.tileRowAddress tile row) ∧ InPatterns table (p.tileRowAddress tile row + 8) := by
  have place := tableRow_toNat _ (backgroundTable_toNat p.control) tile inside
  rw [Scene.backgroundTable_toNat] at place
  exact row_regions (bit_lt _ _) tile inside place

-- The table of a sprite's patterns: a tall one says it itself, and a short one has that of the register.
def spriteTableNumber (s : Sprite) : Nat :=
  if p.control.spriteHeight = 16 then s.tile.toNat % 2 else bit p.control.bits 3

theorem spriteTableNumber_lt (s : Sprite) : p.spriteTableNumber s < 2 := by
  unfold spriteTableNumber
  split
  · exact Nat.mod_lt _ (by decide)
  · exact bit_lt _ _

theorem spriteRow_regions (s : Sprite) {row : Nat} (inside : row < p.control.spriteHeight) :
    InPatterns (p.spriteTableNumber s) (p.spriteRowAddress s.tile row) ∧
      InPatterns (p.spriteTableNumber s) (p.spriteRowAddress s.tile row + 8) := by
  have := s.tile.toNat_lt
  have found := (p.spriteRowAddress?_eq s.tile inside).1
  unfold spriteTableNumber
  rcases spriteHeight_cases p.control with short | tall
  · rw [spriteRowAddress?,short,if_neg (by decide),Scene.spriteTable_toNat] at found
    rw [short] at inside ⊢
    exact row_regions (bit_lt _ _) s.tile inside (address?_some found)
  · rw [spriteRowAddress?,tall,if_pos rfl] at found
    rw [tall] at inside ⊢
    -- The row lies in the even tile or in the one after it.
    have half : (UInt8.ofNat (s.tile.toNat / 2 * 2 + row / 8)).toNat = s.tile.toNat / 2 * 2 + row / 8 :=
      UInt8.toNat_ofNat_of_lt' (by rw [UInt8.size]; omega)
    have place := address?_some found
    rw [← half,Nat.mul_comm (s.tile.toNat % 2)] at place
    exact row_regions (Nat.mod_lt _ (by decide)) _ (Nat.mod_lt row (by decide)) place

theorem cell_palette {color palette : UInt8} (first : UInt16) (half : first.toNat = 0x3F00 ∨ first.toNat = 0x3F10)
    (low : color < 4) (few : palette < 4) : InPalette (first + palette.toUInt16 * 4 + color.toUInt16) := by
  rw [UInt8.lt_iff_toNat_lt] at low few
  simp only [UInt8.reduceToNat] at low few
  have place : (first + palette.toUInt16 * 4 + color.toUInt16).toNat = first.toNat + palette.toNat * 4 + color.toNat := by
    simp only [UInt16.toNat_add,UInt16.toNat_mul,UInt8.toNat_toUInt16,UInt16.reduceToNat]
    omega
  refine ⟨first.toNat - 0x3F00 + palette.toNat * 4 + color.toNat,by omega,?_⟩
  rw [place]
  omega

theorem patternPixel_lt (lo hi : UInt8) (column : Nat) : patternPixel lo hi column < 4 := by
  rw [UInt8.lt_iff_toNat_lt,patternPixel]
  simp only [UInt8.toNat_add,UInt8.toNat_mul,UInt8.toNat_mod,UInt8.reduceToNat]
  omega

theorem backgroundDot_lt (x y : Nat) : (p.backgroundDot c x y).color < 4 ∧ (p.backgroundDot c x y).palette < 4 := by
  unfold backgroundDot
  split
  · exact ⟨patternPixel_lt _ _ _,UInt8.mod_lt _ (by decide)⟩
  · exact ⟨by decide,by decide⟩

theorem spriteColor_lt {s : LineSprite} {x : Nat} {color : UInt8} (dotted : s.color? x = some color) : color < 4 := by
  rw [LineSprite.color?] at dotted
  obtain ⟨_,solid⟩ := Option.ite_none_right_eq_some.mp dotted
  obtain ⟨_,same⟩ := Option.ite_none_left_eq_some.mp solid
  rw [← Option.some.inj same]
  exact patternPixel_lt _ _ _

theorem frontSprite_lt {shown : List LineSprite} {x : Nat} {s : Sprite} {color : UInt8}
    (front : p.frontSprite shown x = some (s,color)) : color < 4 := by
  obtain ⟨_,first⟩ := Option.ite_none_right_eq_some.mp front
  obtain ⟨line,_,found⟩ := List.exists_of_findSome?_eq_some first
  obtain ⟨here,dotted,same⟩ := Option.map_eq_some_iff.mp found
  cases same
  exact spriteColor_lt dotted

theorem pointCell_palette (dot : Dot) (front : Option (Sprite × UInt8)) (low : dot.color < 4 ∧ dot.palette < 4)
    (few : ∀ s color, front = some (s,color) → color < 4) : InPalette (pointCell dot front) := by
  have background : InPalette (backgroundCell dot) := cell_palette paletteBase (.inl rfl) low.1 low.2
  cases front with
  | none =>
      rw [pointCell]
      split
      · exact background
      · exact ⟨0,by decide,rfl⟩
  | some found =>
      obtain ⟨s,color⟩ := found
      rw [pointCell]
      split
      · exact background
      · exact cell_palette (paletteBase + 0x10) (.inr rfl) (few s color rfl) (UInt8.mod_lt _ (by decide))

theorem fetchPoint_regions {x y : Nat} (column : x < 256) (line : y < 240) : ∃ table < 4, ∃ tile row attributes,
    p.fetchPoint c x y = told (p.planeDot c (p.planePoint x y).1 (p.planePoint x y).2) [tile,row,row + 8,attributes] ∧
      InTiles table tile ∧ InAttributes table attributes ∧ InPatterns (bit p.control.bits 4) row ∧
      InPatterns (bit p.control.bits 4) (row + 8) := by
  have across : (p.planePoint x y).1 < 512 := Nat.mod_lt _ (by decide)
  have down : (p.planePoint x y).2 < 480 := Nat.mod_lt _ (by decide)
  have row : (p.planePoint x y).2 % 8 < 8 := Nat.mod_lt _ (by decide)
  obtain ⟨table,few,tiles,attributes⟩ := point_regions across down
  obtain ⟨first,second⟩ := p.tileRow_regions _ row
  exact ⟨table,few,_,_,_,p.fetchPoint_eq c column line,tiles,attributes,first,second⟩

theorem fetchSprite_regions {line : Nat} {s : Sprite} (covered : s.covers p.control.spriteHeight line = true) :
    ∃ row, p.fetchSprite c line s = told (p.lineSprite c line s) [row,row + 8] ∧
      InPatterns (p.spriteTableNumber s) row ∧ InPatterns (p.spriteTableNumber s) (row + 8) := by
  obtain ⟨first,second⟩ := p.spriteRow_regions s (s.patternRow?_eq covered).2
  exact ⟨_,p.fetchSprite_eq c covered,first,second⟩

theorem fetchBackground_reads {x y : Nat} (column : x < 256) (line : y < 240) :
    (p.fetchBackground c x y).Reads (p.backgroundDot c x y) Fetchable := by
  unfold fetchBackground backgroundDot
  split
  · obtain ⟨table,few,tile,row,attributes,fetched,inTiles,inAttributes,first,second⟩ :=
      p.fetchPoint_regions c column line
    refine ⟨_,fetched,?_⟩
    simp only [List.forall_mem_cons]
    exact ⟨.inr (.inl ⟨table,few,.inl inTiles⟩),.inl ⟨_,bit_lt _ _,first⟩,.inl ⟨_,bit_lt _ _,second⟩,
      .inr (.inl ⟨table,few,.inr inAttributes⟩),List.forall_mem_nil _⟩
  · exact Fetching.Reads.pure _

theorem fetchSprite_reads {line : Nat} {s : Sprite} (covered : s.covers p.control.spriteHeight line = true) :
    (p.fetchSprite c line s).Reads (p.lineSprite c line s) Fetchable := by
  obtain ⟨row,fetched,first,second⟩ := p.fetchSprite_regions c covered
  have few := p.spriteTableNumber_lt s
  refine ⟨_,fetched,?_⟩
  simp only [List.forall_mem_cons]
  exact ⟨.inl ⟨_,few,first⟩,.inl ⟨_,few,second⟩,List.forall_mem_nil _⟩

theorem fetchSprites_reads (line : Nat) : (p.fetchSprites c line).Reads (p.lineSprites c line) Fetchable := by
  have sprites : p.sprites? = some p.sprites := mapM_eq fun i _ => p.spriteAt?_eq i
  let picked := (pickSprites (·.covers p.control.spriteHeight line) spritesPerLine p.sprites).1
  have shown : (Fetching.each (p.fetchSprite c line) picked).Reads (picked.map (p.lineSprite c line)) Fetchable := by
    apply Fetching.Reads.each
    intro s first
    simp only [picked,pickSprites_exact] at first
    exact p.fetchSprite_reads c (List.mem_filter.mp (List.mem_of_mem_take first)).2
  exact (Fetching.Reads.checked sprites).bind (shown.bind (Fetching.Reads.pure _))

end Ppu

namespace Raster

variable (p : Ppu) (c : Cartridge)

theorem fetchPoint_told (shown : List LineSprite) {x y : Nat} (column : x < 256) (line : y < 240) (r : Raster) :
    ∃ before cell, fetchPoint p c shown x y r = told (drawPoint p c shown x y r) (before ++ [cell]) ∧
      (∀ a ∈ before, Fetchable a) ∧ InPalette cell := by
  obtain ⟨before,background,all⟩ := p.fetchBackground_reads c column line
  refine ⟨before,Ppu.pointCell (p.backgroundDot c x y) (p.frontSprite shown x),?_,all,?_⟩
  · simp only [fetchPoint,background,p.frontSprite?_eq,Ppu.pointCell?_eq,p.fetchColor_eq,Frame.setPixel?_eq,
      Fetching.checked_some,Fetching.told_bind,Fetching.behind_told,Fetching.pure_told]
    rfl
  · exact Ppu.pointCell_palette _ _ (p.backgroundDot_lt c x y) fun s color front => p.frontSprite_lt front

theorem fetchPoint_reads (shown : List LineSprite) {x y : Nat} (column : x < 256) (line : y < 240) (r : Raster) :
    (fetchPoint p c shown x y r).Reads (drawPoint p c shown x y r) Fetchable := by
  obtain ⟨before,cell,drawn,all,palette⟩ := fetchPoint_told p c shown column line r
  refine ⟨before ++ [cell],drawn,List.forall_mem_append.mpr ⟨all,?_⟩⟩
  intro a last
  rw [List.mem_singleton.mp last]
  exact .inr (.inr palette)

theorem fetchLine_reads {y : Nat} (line : y < 240) (r : Raster) :
    (fetchLine p c y r).Reads (drawLine p c y r) Fetchable :=
  (p.fetchSprites_reads c y).bind (.rounds (fun _ column a => fetchPoint_reads p c _ column line a) _)

theorem fetchFrame_reads (r : Raster) : (fetchFrame p c r).Reads (draw p c r) Fetchable := by
  unfold fetchFrame draw
  split
  · exact .rounds (fun _ line a => fetchLine_reads p c line a) _
  · have backdrop : (p.fetchColor c Ppu.paletteBase).Reads (p.color c Ppu.paletteBase) Fetchable := by
      refine ⟨_,p.fetchColor_eq c _,?_⟩
      intro a only
      rw [List.mem_singleton.mp only]
      exact .inr (.inr ⟨0,by decide,rfl⟩)
    exact backdrop.bind (Fetching.Reads.pure _)

end Raster

open Scene (bit)

-- The drawing never stops, it draws what is drawn without checks, and each of its fetches stays in its region.
theorem Ppu.fetches_told (p : Ppu) (c : Cartridge) :
    (∀ x < 256, ∀ y < 240, ∃ table < 4, ∃ tile row attributes,
      p.fetchPoint c x y = told (p.planeDot c (p.planePoint x y).1 (p.planePoint x y).2) [tile,row,row + 8,attributes] ∧
        InTiles table tile ∧ InAttributes table attributes ∧ InPatterns (bit p.control.bits 4) row ∧
        InPatterns (bit p.control.bits 4) (row + 8)) ∧
    (∀ (line : Nat) (s : Sprite), s.covers p.control.spriteHeight line = true → ∃ row,
      p.fetchSprite c line s = told (p.lineSprite c line s) [row,row + 8] ∧
        InPatterns (p.spriteTableNumber s) row ∧ InPatterns (p.spriteTableNumber s) (row + 8)) ∧
    (∀ (shown : List LineSprite) (r : Raster), ∀ x < 256, ∀ y < 240, ∃ before cell,
      r.fetchPoint p c shown x y = told (r.drawPoint p c shown x y) (before ++ [cell]) ∧ InPalette cell) ∧
    ∀ r, ∃ places, Raster.fetchFrame p c r = told (r.draw p c) places ∧ ∀ a ∈ places, Fetchable a := by
  refine ⟨?_,?_,?_,Raster.fetchFrame_reads p c⟩
  · exact fun x column y line => p.fetchPoint_regions c column line
  · exact fun line s covered => p.fetchSprite_regions c covered
  · intro shown r x column y line
    obtain ⟨before,cell,drawn,_,palette⟩ := Raster.fetchPoint_told p c shown column line r
    exact ⟨before,cell,drawn,palette⟩

end Famicom
