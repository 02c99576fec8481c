import Famicom.Proofs.Checked.Ppu

namespace Famicom

open Checked

def patternPixel? (lo hi : UInt8) (column : Nat) : Option UInt8 := do
  let bit ← difference? 7 column
  let high ← shiftRight? hi bit
  let low ← shiftRight? lo bit
  some (high % 2 * 2 + low % 2)

theorem patternPixel?_eq (lo hi : UInt8) {column : Nat} (inside : column < 8) :
    patternPixel? lo hi column = some (patternPixel lo hi column) := by
  have bit : 7 - column < 8 := by omega
  rw [patternPixel?,difference?_eq (Nat.le_of_lt_succ inside)]
  simp only [Option.bind_eq_bind,Option.bind_some,shiftRight?_eq _ bit]
  rfl

namespace Ppu

variable {c : Cartridge}

def patternRow? (p : Ppu) (c : Cartridge) (row : UInt16) : Option (UInt8 × UInt8) := do
  let lo ← p.read? c row
  let second ← address? (row.toNat + 8)
  let hi ← p.read? c second
  some (lo,hi)

theorem patternRow?_eq (whole : c.Whole) (p : Ppu) {row : UInt16} (fits : row.toNat < 0x8000) :
    p.patternRow? c row = some (p.read c row,p.read c (row + 8)) := by
  have next : row.toNat + 8 = (row + 8).toNat := by
    rw [UInt16.toNat_add]
    simp only [UInt16.reduceToNat]
    omega
  rw [patternRow?,next,address?_toNat]
  simp only [Option.bind_eq_bind,Option.bind_some,read?_eq whole]

def tileAddress? (planeX planeY : Nat) : Option UInt16 :=
  address? (nametableBase planeX planeY + planeY % 240 / 8 * 32 + planeX % 256 / 8)

def attributeAddress? (planeX planeY : Nat) : Option UInt16 :=
  address? (nametableBase planeX planeY + 0x3C0 + planeY % 240 / 8 / 4 * 8 + planeX % 256 / 8 / 4)

def tileRowAddress? (p : Ppu) (tile : UInt8) (row : Nat) : Option UInt16 :=
  address? (p.control.backgroundTable.toNat + tile.toNat * 16 + row)

def planeDot? (p : Ppu) (c : Cartridge) (planeX planeY : Nat) : Option Dot := do
  let tileCell ← tileAddress? planeX planeY
  let tile ← p.read? c tileCell
  let row ← p.tileRowAddress? tile (planeY % 8)
  let (lo,hi) ← p.patternRow? c row
  let color ← patternPixel? lo hi (planeX % 8)
  let attributeCell ← attributeAddress? planeX planeY
  let attributes ← p.read? c attributeCell
  let palette ← shiftRight? attributes (attributeShift planeX planeY).toNat
  some {color := color,palette := palette % 4}

def backgroundDot? (p : Ppu) (c : Cartridge) (x y : Nat) : Option Dot :=
  if p.mask.backgroundAt x then
    let (planeX,planeY) := p.planePoint x y
    p.planeDot? c planeX planeY
  else some {}

theorem tileAddress?_eq {planeX planeY : Nat} (column : planeX < 512) (line : planeY < 480) :
    tileAddress? planeX planeY = some (tileAddress planeX planeY) := by
  apply address?_eq
  simp only [nametableBase]
  omega

theorem attributeAddress?_eq {planeX planeY : Nat} (column : planeX < 512) (line : planeY < 480) :
    attributeAddress? planeX planeY = some (attributeAddress planeX planeY) := by
  apply address?_eq
  simp only [nametableBase]
  omega

theorem backgroundTable_toNat (c : Control) : c.backgroundTable.toNat ≤ 0x1000 := by
  unfold Control.backgroundTable
  split <;> decide

theorem spriteTable_toNat (c : Control) : c.spriteTable.toNat ≤ 0x1000 := by
  unfold Control.spriteTable
  split <;> decide

theorem tableRow_toNat (table : UInt16) (low : table.toNat ≤ 0x1000) (tile : UInt8) {row : Nat} (inside : row < 8) :
    (table + tile.toUInt16 * 16 + UInt16.ofNat row).toNat = table.toNat + tile.toNat * 16 + row := by
  have := tile.toNat_lt
  simp only [UInt16.toNat_add,UInt16.toNat_mul,UInt8.toNat_toUInt16,UInt16.toNat_ofNat',UInt16.reduceToNat]
  omega

theorem tileRowAddress?_eq (p : Ppu) (tile : UInt8) {row : Nat} (inside : row < 8) :
    p.tileRowAddress? tile row = some (p.tileRowAddress tile row) := by
  have place := tableRow_toNat _ (backgroundTable_toNat p.control) tile inside
  rw [tileRowAddress?,← place,address?_toNat]
  rfl

theorem tileRowAddress_toNat (p : Ppu) (tile : UInt8) {row : Nat} (inside : row < 8) :
    (p.tileRowAddress tile row).toNat < 0x8000 := by
  have := tile.toNat_lt
  have := backgroundTable_toNat p.control
  rw [tileRowAddress,tableRow_toNat _ (backgroundTable_toNat p.control) tile inside]
  omega

theorem attributeShift_toNat (planeX planeY : Nat) : (attributeShift planeX planeY).toNat < 8 := by
  simp only [attributeShift,UInt8.toNat_ofNat']
  omega

theorem planeDot?_eq (whole : c.Whole) (p : Ppu) {planeX planeY : Nat} (column : planeX < 512) (line : planeY < 480) :
    p.planeDot? c planeX planeY = some (p.planeDot c planeX planeY) := by
  have row : planeY % 8 < 8 := Nat.mod_lt _ (by decide)
  have bit : planeX % 8 < 8 := Nat.mod_lt _ (by decide)
  have shift := attributeShift_toNat planeX planeY
  simp only [planeDot?,tileAddress?_eq column line,attributeAddress?_eq column line,Option.bind_eq_bind,
    Option.bind_some,read?_eq whole,p.tileRowAddress?_eq _ row,p.patternRow?_eq whole (p.tileRowAddress_toNat _ row),
    patternPixel?_eq _ _ bit,shiftRight?_eq _ shift,UInt8.ofNat_toNat]
  rfl

theorem backgroundDot?_eq (whole : c.Whole) (p : Ppu) (x y : Nat) :
    p.backgroundDot? c x y = some (p.backgroundDot c x y) := by
  have column : (p.planePoint x y).1 < 512 := Nat.mod_lt _ (by decide)
  have line : (p.planePoint x y).2 < 480 := Nat.mod_lt _ (by decide)
  unfold backgroundDot? backgroundDot
  simp only [p.planeDot?_eq whole column line]
  exact (apply_ite some _ _ _).symm

end Ppu

def Sprite.patternRow? (s : Sprite) (height line : Nat) : Option Nat := do
  let row ← difference? line (s.y.toNat + 1)
  let bottom ← difference? height 1
  if s.flippedDown then difference? bottom row else some row

theorem Sprite.patternRow?_eq (s : Sprite) {height line : Nat} (covered : s.covers height line = true) :
    s.patternRow? height line = some (s.patternRow height line) ∧ s.patternRow height line < height := by
  rw [covers,Bool.and_eq_true,decide_eq_true_iff,decide_eq_true_iff] at covered
  unfold patternRow? patternRow
  rw [difference?_eq covered.1,difference?_eq (by omega)]
  simp only [Option.bind_eq_bind,Option.bind_some]
  split
  · exact ⟨difference?_eq (by omega),by omega⟩
  · exact ⟨rfl,by omega⟩

namespace LineSprite

def column? (s : LineSprite) (x : Nat) : Option Nat := do
  let offset ← difference? x s.sprite.x.toNat
  if s.sprite.flippedAcross then difference? 7 offset else some offset

def dot? (s : LineSprite) (x : Nat) : Option (Option UInt8) :=
  let left := s.sprite.x.toNat
  if left ≤ x ∧ x < left + 8 then do
    let column ← s.column? x
    let color ← patternPixel? s.lo s.hi column
    if color = 0 then some none else some (some color)
  else some none

theorem column?_eq (s : LineSprite) {x : Nat} (covered : s.sprite.x.toNat ≤ x ∧ x < s.sprite.x.toNat + 8) :
    let offset := x - s.sprite.x.toNat
    s.column? x = some (if s.sprite.flippedAcross then 7 - offset else offset) ∧
      (if s.sprite.flippedAcross then 7 - offset else offset) < 8 := by
  intro offset
  have within : offset ≤ 7 := by omega
  constructor
  · rw [column?,difference?_eq covered.1]
    simp only [Option.bind_eq_bind,Option.bind_some]
    split
    · exact difference?_eq within
    · rfl
  · split <;> omega

theorem dot?_eq (s : LineSprite) (x : Nat) : s.dot? x = some (s.color? x) := by
  unfold dot? color?
  simp only
  split
  · rename_i covered
    obtain ⟨column,inside⟩ := s.column?_eq covered
    rw [column]
    simp only [Option.bind_eq_bind,Option.bind_some,patternPixel?_eq _ _ inside]
    exact (apply_ite some _ _ _).symm
  · rfl

def foremost? (x : Nat) (shown : List LineSprite) : Option (Option (Sprite × UInt8)) :=
  match shown with
  | [] => some none
  | s :: rest => do
    match ← s.dot? x with
    | some color => some (some (s.sprite,color))
    | none => foremost? x rest

theorem foremost?_eq (x : Nat) (shown : List LineSprite) :
    foremost? x shown = some (shown.findSome? fun s => (s.color? x).map (s.sprite,·)) := by
  induction shown with
  | nil => rfl
  | cons s rest ih =>
      rw [foremost?,dot?_eq,List.findSome?_cons,Option.bind_eq_bind,Option.bind_some]
      cases s.color? x with
      | none => exact ih
      | some color => rfl

end LineSprite

namespace Ppu

variable {c : Cartridge}

def spriteAt? (p : Ppu) (i : Fin 64) : Option Sprite := do
  let y ← p.oam[i.val * 4]?
  let tile ← p.oam[i.val * 4 + 1]?
  let attributes ← p.oam[i.val * 4 + 2]?
  let x ← p.oam[i.val * 4 + 3]?
  some ⟨i,y,tile,attributes,x⟩

def spriteRowAddress? (p : Ppu) (tile : UInt8) (row : Nat) : Option UInt16 :=
  if p.control.spriteHeight = 16 then
    address? (tile.toNat % 2 * 0x1000 + (tile.toNat / 2 * 2 + row / 8) * 16 + row % 8)
  else address? (p.control.spriteTable.toNat + tile.toNat * 16 + row)

def lineSprite? (p : Ppu) (c : Cartridge) (line : Nat) (s : Sprite) : Option LineSprite := do
  let row ← s.patternRow? p.control.spriteHeight line
  let start ← p.spriteRowAddress? s.tile row
  let (lo,hi) ← p.patternRow? c start
  some ⟨s,lo,hi⟩

def lineSprites? (p : Ppu) (c : Cartridge) (line : Nat) : Option LineSprites := do
  let sprites ← (List.finRange 64).mapM p.spriteAt?
  let (picked,overflow) := pickSprites (·.covers p.control.spriteHeight line) spritesPerLine sprites
  let shown ← picked.mapM (p.lineSprite? c line)
  some ⟨shown,overflow⟩

def frontSprite? (p : Ppu) (shown : List LineSprite) (x : Nat) : Option (Option (Sprite × UInt8)) :=
  if p.mask.spritesAt x then LineSprite.foremost? x shown else some none

theorem spriteAt?_eq (p : Ppu) (i : Fin 64) : p.spriteAt? i = some (p.spriteAt i) := by
  have first : i.val * 4 < 0x100 := by omega
  have second : i.val * 4 + 1 < 0x100 := by omega
  have third : i.val * 4 + 2 < 0x100 := by omega
  have fourth : i.val * 4 + 3 < 0x100 := by omega
  simp only [spriteAt?,Vector.getElem?_eq_getElem first,Vector.getElem?_eq_getElem second,
    Vector.getElem?_eq_getElem third,Vector.getElem?_eq_getElem fourth]
  rfl

theorem spriteHeight_cases (c : Control) : c.spriteHeight = 8 ∨ c.spriteHeight = 16 := by
  unfold Control.spriteHeight
  split
  · exact .inr rfl
  · exact .inl rfl

theorem spriteRowAddress?_eq (p : Ppu) (tile : UInt8) {row : Nat} (inside : row < p.control.spriteHeight) :
    p.spriteRowAddress? tile row = some (p.spriteRowAddress tile row) ∧
      (p.spriteRowAddress tile row).toNat < 0x8000 := by
  have byte := tile.toNat_lt
  have low := spriteTable_toNat p.control
  unfold spriteRowAddress? spriteRowAddress
  rcases spriteHeight_cases p.control with short | tall
  · rw [short] at inside
    have place := tableRow_toNat _ low tile inside
    rw [short,if_neg (by decide),if_neg (by decide),← place,address?_toNat,place]
    exact ⟨rfl,by omega⟩
  · rw [tall] at inside
    have place : (tile.toUInt16 % 2 * 0x1000 + (tile.toUInt16 / 2 * 2 + UInt16.ofNat (row / 8)) * 16 +
        UInt16.ofNat (row % 8)).toNat = tile.toNat % 2 * 0x1000 + (tile.toNat / 2 * 2 + row / 8) * 16 + row % 8 := by
      simp only [UInt16.toNat_add,UInt16.toNat_mul,UInt16.toNat_mod,UInt16.toNat_div,UInt8.toNat_toUInt16,
        UInt16.toNat_ofNat',UInt16.reduceToNat]
      omega
    rw [tall,if_pos rfl,if_pos rfl,← place,address?_toNat,place]
    exact ⟨rfl,by omega⟩

theorem lineSprite?_eq (whole : c.Whole) (p : Ppu) {line : Nat} {s : Sprite}
    (covered : s.covers p.control.spriteHeight line = true) :
    p.lineSprite? c line s = some (p.lineSprite c line s) := by
  obtain ⟨row,inside⟩ := s.patternRow?_eq covered
  obtain ⟨start,fits⟩ := p.spriteRowAddress?_eq s.tile inside
  simp only [lineSprite?,row,start,Option.bind_eq_bind,Option.bind_some,p.patternRow?_eq whole fits]
  rfl

theorem lineSprites?_eq (whole : c.Whole) (p : Ppu) (line : Nat) :
    p.lineSprites? c line = some (p.lineSprites c line) := by
  have read : (List.finRange 64).mapM p.spriteAt? = some p.sprites := mapM_eq fun i _ => p.spriteAt?_eq i
  let picked := (pickSprites (·.covers p.control.spriteHeight line) spritesPerLine p.sprites).1
  have shown : picked.mapM (p.lineSprite? c line) = some (picked.map (p.lineSprite c line)) := by
    apply mapM_eq
    intro s first
    simp only [picked,pickSprites_exact] at first
    exact p.lineSprite?_eq whole (List.mem_filter.mp (List.mem_of_mem_take first)).2
  simp only [picked] at shown
  simp only [lineSprites?,read,Option.bind_eq_bind,Option.bind_some,shown]
  rfl

theorem frontSprite?_eq (p : Ppu) (shown : List LineSprite) (x : Nat) :
    p.frontSprite? shown x = some (p.frontSprite shown x) := by
  unfold frontSprite? frontSprite
  rw [LineSprite.foremost?_eq]
  exact (apply_ite some _ _ _).symm

def color? (p : Ppu) (c : Cartridge) (a : UInt16) : Option Color := do
  let v ← p.read? c a
  systemPalette[(if p.mask.greyscale then v &&& 0x30 else v).toNat % 64]?

def backgroundCell? (dot : Dot) : Option UInt16 :=
  address? (paletteBase.toNat + dot.palette.toNat * 4 + dot.color.toNat)

def spriteCell? (s : Sprite) (color : UInt8) : Option UInt16 :=
  address? (paletteBase.toNat + 0x10 + s.palette.toNat * 4 + color.toNat)

def pointCell? (dot : Dot) (front : Option (Sprite × UInt8)) : Option UInt16 :=
  match front with
  | some (s,color) => if dot.color ≠ 0 ∧ s.behindBackground then backgroundCell? dot else spriteCell? s color
  | none => if dot.color ≠ 0 then backgroundCell? dot else some paletteBase

theorem color?_eq (whole : c.Whole) (p : Ppu) (a : UInt16) : p.color? c a = some (p.color c a) := by
  rw [color?,read?_eq whole]
  exact Vector.getElem?_eq_getElem (Nat.mod_lt _ (by decide))

theorem backgroundCell?_eq (dot : Dot) : backgroundCell? dot = some (backgroundCell dot) := by
  have := dot.palette.toNat_lt
  have := dot.color.toNat_lt
  have place : paletteBase.toNat + dot.palette.toNat * 4 + dot.color.toNat = (backgroundCell dot).toNat := by
    simp only [backgroundCell,paletteBase,UInt16.toNat_add,UInt16.toNat_mul,UInt8.toNat_toUInt16,UInt16.reduceToNat]
    omega
  rw [backgroundCell?,place,address?_toNat]

theorem spriteCell?_eq (s : Sprite) (color : UInt8) : spriteCell? s color = some (spriteCell s color) := by
  have := s.palette.toNat_lt
  have := color.toNat_lt
  have place : paletteBase.toNat + 0x10 + s.palette.toNat * 4 + color.toNat = (spriteCell s color).toNat := by
    simp only [spriteCell,paletteBase,UInt16.toNat_add,UInt16.toNat_mul,UInt8.toNat_toUInt16,UInt16.reduceToNat]
    omega
  rw [spriteCell?,place,address?_toNat]

theorem pointCell?_eq (dot : Dot) (front : Option (Sprite × UInt8)) :
    pointCell? dot front = some (pointCell dot front) := by
  cases front with
  | none =>
      simp only [pointCell?,pointCell,backgroundCell?_eq]
      exact (apply_ite some _ _ _).symm
  | some found =>
      simp only [pointCell?,pointCell,backgroundCell?_eq,spriteCell?_eq]
      exact (apply_ite some _ _ _).symm

end Ppu

def Frame.setPixel? (f : Frame) (x y : Nat) (c : Color) : Option Frame :=
  if x < screenWidth ∧ y < screenHeight then
    if (y * screenWidth + x) * 3 + 2 < f.bytes.size then do
      let pixels ← set? f.pixels (y * screenWidth + x) c
      some ⟨pixels⟩
    else none
  else some f

theorem Frame.bytes_size (f : Frame) : f.bytes.size = 184320 := by
  have grown : ∀ (colors : List Color) (out : Array UInt8),
      (colors.foldl (fun out c => ((out.push c.red).push c.green).push c.blue) out).size =
        out.size + 3 * colors.length := by
    intro colors
    induction colors with
    | nil => intro out; rfl
    | cons c colors ih =>
        intro out
        rw [List.foldl_cons,ih,List.length_cons]
        simp only [Array.size_push]
        omega
  have all := grown f.pixels.toList (Array.mkEmpty 0x2D000)
  rw [Vector.length_toList] at all
  rw [bytes,← Vector.foldl_toList]
  exact all

theorem Frame.setPixel?_eq (f : Frame) (x y : Nat) (c : Color) : f.setPixel? x y c = some (f.setPixel x y c) := by
  unfold setPixel? setPixel
  split
  · rename_i inside
    have place := index_lt inside
    have bytes : (y * screenWidth + x) * 3 + 2 < f.bytes.size := by
      rw [f.bytes_size]
      simp only [screenWidth,screenHeight] at place ⊢
      omega
    rw [if_pos bytes,set?_eq _ _ place]
    rfl
  · rfl

namespace Raster

variable {c : Cartridge}

def drawPoint? (p : Ppu) (c : Cartridge) (shown : List LineSprite) (x y : Nat) (r : Raster) : Option Raster := do
  let dot ← p.backgroundDot? c x y
  let front ← p.frontSprite? shown x
  let cell ← Ppu.pointCell? dot front
  let color ← p.color? c cell
  let frame ← r.frame.setPixel? x y color
  some {r with frame := frame,spriteZeroHit := r.spriteZeroHit || Ppu.hits dot front x}

def drawLine? (p : Ppu) (c : Cartridge) (y : Nat) (r : Raster) : Option Raster := do
  let sprites ← p.lineSprites? c y
  rounds? screenWidth (fun x r => drawPoint? p c sprites.shown x y r)
    {r with spriteOverflow := r.spriteOverflow || sprites.overflow}

def draw? (p : Ppu) (c : Cartridge) (r : Raster) : Option Raster :=
  if p.mask.rendering then
    rounds? screenHeight (fun y r => drawLine? p c y r) {r with spriteZeroHit := false,spriteOverflow := false}
  else do
    let backdrop ← p.color? c Ppu.paletteBase
    some {frame := .filled backdrop}

theorem drawPoint?_eq (whole : c.Whole) (p : Ppu) (shown : List LineSprite) (x y : Nat) (r : Raster) :
    drawPoint? p c shown x y r = some (drawPoint p c shown x y r) := by
  simp only [drawPoint?,p.backgroundDot?_eq whole,p.frontSprite?_eq,Ppu.pointCell?_eq,p.color?_eq whole,
    Frame.setPixel?_eq,Option.bind_eq_bind,Option.bind_some]
  rfl

theorem drawLine?_eq (whole : c.Whole) (p : Ppu) (y : Nat) (r : Raster) :
    drawLine? p c y r = some (drawLine p c y r) := by
  unfold drawLine? drawLine
  rw [p.lineSprites?_eq whole,Option.bind_eq_bind,Option.bind_some]
  exact rounds?_eq (fun _ => True) trivial fun x _ r _ => ⟨drawPoint?_eq whole p _ x y r,trivial⟩

-- No point of a frame is drawn from a place outside of any memory, or into one.
theorem draw?_eq (whole : c.Whole) (p : Ppu) (r : Raster) : draw? p c r = some (draw p c r) := by
  unfold draw? draw
  split
  · exact rounds?_eq (fun _ => True) trivial fun y _ r _ => ⟨drawLine?_eq whole p y r,trivial⟩
  · rw [p.color?_eq whole]
    rfl

end Raster
end Famicom
