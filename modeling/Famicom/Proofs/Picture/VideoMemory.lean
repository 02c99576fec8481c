import Mathlib.Logic.Function.Basic
import Famicom.Proofs.Checked.Console
import Famicom.Proofs.Picture.Ranges

namespace Famicom

inductive VideoCell where
  | pattern (offset : Nat)
  | nametable (page : Fin 4) (offset : Fin 0x400)
  | palette (index : Fin 0x20)
  deriving DecidableEq, Repr

def Mirroring.pageBehind (arrangement : Mirroring) (table : Nat) : Nat :=
  match arrangement with
  | .horizontal => table / 2
  | .vertical => table % 2
  | .singleScreenLower => 0
  | .singleScreenUpper => 1
  | .fourScreen => table

theorem Mirroring.page_behind (arrangement : Mirroring) (table : Fin 4) :
    (arrangement.page table).val = arrangement.pageBehind table.val := by
  revert table
  cases arrangement <;> decide

def Mmc1.bankShown (r : Mmc1) (size : Nat) (a : UInt16) : Nat :=
  wrapBank (r.chrBank (0x1000 ≤ a.toNat % 0x2000)) (max 1 (size / 0x1000))

namespace VideoCell

-- The cell that an address names. Of every four cells of the palette one is shared by its two halves.
def named (c : Cartridge) (a : UInt16) : VideoCell :=
  let a := a % 0x4000
  if a < 0x2000 then .pattern (c.mapper.chrOffset c.chr.size a)
  else if a < 0x3F00 then
    .nametable ⟨c.mirroring.pageBehind (a.toNat / 0x400 % 4) % 4,by omega⟩ ⟨a.toNat % 0x400,by omega⟩
  else .palette ⟨(if a.toNat % 4 = 0 then a.toNat % 0x10 else a.toNat) % 0x20,by omega⟩

def writable (c : Cartridge) (cell : VideoCell) : Bool :=
  match cell with
  | .pattern _ => c.chrWritable
  | .nametable .. | .palette _ => true

-- Pattern memory may end below a place that the board's registers pick.
def present (c : Cartridge) (cell : VideoCell) : Bool :=
  match cell with
  | .pattern offset => decide (offset < c.chr.size)
  | .nametable .. | .palette _ => true

def keeps (c : Cartridge) (cell : VideoCell) : Bool := writable c cell && present c cell

def kept (cell : VideoCell) (v : UInt8) : UInt8 :=
  match cell with
  | .pattern _ | .nametable .. => v
  | .palette _ => v &&& 0x3F

-- What a cell holds. The board has no say in it.
def held (p : Ppu) (chr : Array UInt8) (cell : VideoCell) : UInt8 :=
  match cell with
  | .pattern offset => chr.getD offset 0
  | .nametable page offset => p.vram[page.val * 0x400 + offset.val]
  | .palette i => p.palette.get i

theorem sixBits_eq (v : UInt8) : v % 0x40 = v &&& 0x3F := by
  have all : ∀ n : Fin 256, UInt8.ofFin n % 0x40 = UInt8.ofFin n &&& 0x3F := by decide +kernel
  exact all v.toFin

section
variable (p : Ppu) (c : Cartridge) (a : UInt16)

theorem page_offset (m : Mirroring) :
    (m.cell a).val =
      (Fin.ofNat 4 (m.pageBehind (a.toNat / 0x400 % 4))).val * 0x400 + (Fin.ofNat 0x400 a.toNat).val := by
  have table : a.toNat % 0x1000 / 0x400 = a.toNat / 0x400 % 4 := by omega
  have behind : m.pageBehind (a.toNat / 0x400 % 4) < 4 := by
    rw [← table,← m.page_behind ⟨a.toNat % 0x1000 / 0x400,by omega⟩]
    exact Fin.isLt _
  simp only [Mirroring.cell,Mirroring.page_behind,Fin.val_ofNat,table,Nat.mod_eq_of_lt behind]

theorem palette_index (a : UInt16) :
    Ppu.paletteCell a = .ofNat 0x20 (if a.toNat % 4 = 0 then a.toNat % 0x10 else a.toNat) := by
  apply Fin.eq_of_val_eq
  simp only [Ppu.paletteCell,Fin.val_ofNat]
  split <;> split <;> grind

variable {a} in
theorem named_pattern (low : Ppu.fold a < 0x2000) :
    named c a = .pattern (c.mapper.chrOffset c.chr.size (Ppu.fold a)) := if_pos low

variable {a} in
theorem named_nametable (above : ¬ Ppu.fold a < 0x2000) (below : Ppu.fold a < Ppu.paletteBase) :
    named c a = .nametable (.ofNat 4 (c.mirroring.pageBehind ((Ppu.fold a).toNat / 0x400 % 4)))
      (.ofNat 0x400 (Ppu.fold a).toNat) := (if_neg above).trans (if_pos below)

variable {a} in
theorem named_palette (above : ¬ Ppu.fold a < 0x2000) (high : ¬ Ppu.fold a < Ppu.paletteBase) :
    named c a = .palette (Ppu.paletteCell (Ppu.fold a)) := by
  rw [palette_index]
  exact (if_neg above).trans (if_neg high)

theorem read_held : p.read c a = kept (named c a) (held p c.chr (named c a)) := by
  simp only [Ppu.read]
  by_cases low : Ppu.fold a < 0x2000
  · rw [if_pos low,named_pattern c low]
    rfl
  rw [if_neg low]
  by_cases middle : Ppu.fold a < Ppu.paletteBase
  · simp only [if_pos middle,named_nametable c low middle,kept,held,Fin.getElem_fin,page_offset]
  · simp only [if_neg middle,named_palette c low middle,kept,held,sixBits_eq]
    rfl

end

section
variable (p : Ppu) (chr : Array UInt8) (v : UInt8)

theorem held_setPattern {offset : Nat} (inside : offset < chr.size) :
    held p (chr.setIfInBounds offset v) = Function.update (held p chr) (.pattern offset) v := by
  funext cell
  cases cell with
  | pattern other =>
      simp only [held,Function.update_apply,pattern.injEq,Array.getD_eq_getD_getElem?,Array.getElem?_setIfInBounds,
        inside,if_true,eq_comm (a := other)]
      split <;> rfl
  | nametable | palette => rw [Function.update_of_ne (by simp)]; rfl

theorem held_setNametable {place : Fin 0x1000} {page : Fin 4} {offset : Fin 0x400}
    (here : place.val = page.val * 0x400 + offset.val) :
    held {p with vram := p.vram.set place v} chr = Function.update (held p chr) (.nametable page offset) v := by
  funext cell
  cases cell with
  | nametable page' offset' =>
      have same : place.val = page'.val * 0x400 + offset'.val ↔ page' = page ∧ offset' = offset := by omega
      simp only [held,Function.update_apply,nametable.injEq,Vector.getElem_set,same]
  | pattern | palette => rw [Function.update_of_ne (by simp)]; rfl

theorem held_setPalette (i : Fin 0x20) :
    held {p with palette := p.palette.set i v i.isLt} chr = Function.update (held p chr) (.palette i) v := by
  funext cell
  cases cell with
  | palette j =>
      have same : i.val = j.val ↔ j = i := by omega
      have replaced : (p.palette.set i v).get j = if i.val = j.val then v else p.palette.get j :=
        Vector.getElem_set i.isLt j.isLt
      simp only [held,Function.update_apply,palette.injEq,replaced,same]
  | pattern | nametable => rw [Function.update_of_ne (by simp)]; rfl

end

-- A write leaves its mark on the cell that its address names, where that is there and can be written, and on no other cell.
theorem write_marks (p : Ppu) (c : Cartridge) (a : UInt16) (v : UInt8) :
    held (p.write c a v).1 (p.write c a v).2.chr =
      if keeps c (named c a) then Function.update (held p c.chr) (named c a) (kept (named c a) v)
      else held p c.chr := by
  simp only [Ppu.write]
  by_cases low : Ppu.fold a < 0x2000
  · simp only [if_pos low,named_pattern c low,keeps,writable,present,kept,Cartridge.chrWrite,Mapper.chrWrite]
    cases c.chrWritable with
    | false => rfl
    | true =>
        by_cases inside : c.mapper.chrOffset c.chr.size (Ppu.fold a) < c.chr.size
        · simp only [if_true,Bool.true_and,decide_eq_true inside]
          exact held_setPattern p c.chr v inside
        · simp only [if_true,Bool.true_and,decide_eq_false inside]
          rw [Array.setIfInBounds,dif_neg inside]
          rfl
  simp only [if_neg low]
  by_cases middle : Ppu.fold a < Ppu.paletteBase
  · simp only [if_pos middle,named_nametable c low middle,keeps,writable,present,kept,Bool.and_true,if_true]
    exact held_setNametable p c.chr v (page_offset _ _)
  · simp only [if_neg middle,named_palette c low middle,keeps,writable,present,kept,Bool.and_true,if_true,sixBits_eq]
    exact held_setPalette p c.chr _ _

theorem keeps_whole {c : Cartridge} (whole : c.Whole) (a : UInt16) : keeps c (named c a) = writable c (named c a) := by
  have there : present c (named c a) = true := by
    simp only [named]
    split
    · exact decide_eq_true (whole.chrOffset _)
    · split <;> rfl
  rw [keeps,there,Bool.and_true]

theorem write_held {c : Cartridge} (whole : c.Whole) (p : Ppu) (a : UInt16) (v : UInt8) :
    held (p.write c a v).1 (p.write c a v).2.chr =
      if writable c (named c a) then Function.update (held p c.chr) (named c a) (kept (named c a) v)
      else held p c.chr := by
  rw [write_marks,keeps_whole whole]

theorem write_rest (p : Ppu) (c : Cartridge) (a : UInt16) (v : UInt8) :
    (p.write c a v).1 = {p with vram := (p.write c a v).1.vram,palette := (p.write c a v).1.palette} ∧
      (p.write c a v).2 = {c with chr := (p.write c a v).2.chr} ∧ (p.write c a v).2.chr.size = c.chr.size := by
  simp only [Ppu.write]
  split
  · refine ⟨rfl,?_⟩
    rw [Cartridge.chrWrite]
    split
    · exact ⟨rfl,Array.size_setIfInBounds⟩
    · exact ⟨rfl,rfl⟩
  · split <;> exact ⟨rfl,rfl,rfl⟩

-- Names are given by the registers of the board, by what is soldered, and by how much pattern memory there is.
theorem named_same {c c' : Cartridge} (mapper : c'.mapper = c.mapper) (header : c'.header = c.header)
    (size : c'.chr.size = c.chr.size) : named c' = named c := by
  funext a
  simp only [named,Cartridge.mirroring,mapper,header,size]

theorem kept_kept (cell : VideoCell) (v : UInt8) : cell.kept (cell.kept v) = cell.kept v := by
  cases cell with
  | pattern | nametable => rfl
  | palette => exact (UInt8.and_assoc ..).trans (congrArg (v &&& ·) UInt8.and_self)

theorem write_named (p : Ppu) (c : Cartridge) (a : UInt16) (v : UInt8) : named (p.write c a v).2 = named c := by
  obtain ⟨_,rest,size⟩ := write_rest p c a v
  apply named_same _ _ size <;> rw [rest]

theorem read_marked (p : Ppu) (c : Cartridge) (a : UInt16) (v : UInt8) (b : UInt16) :
    (p.write c a v).1.read (p.write c a v).2 b =
      if named c b = named c a ∧ keeps c (named c a) = true then kept (named c b) v else p.read c b := by
  rw [read_held,write_named,write_marks,read_held]
  cases keeps c (named c a) with
  | false => simp only [Bool.false_eq_true,if_false,and_false]
  | true =>
      by_cases same : named c b = named c a
      · simp only [same,if_true,Function.update_self,kept_kept,and_self]
      · simp only [same,if_true,Function.update_of_ne same,false_and,if_false]

theorem read_write {c : Cartridge} (whole : c.Whole) (p : Ppu) (a : UInt16) (v : UInt8) (b : UInt16) :
    (p.write c a v).1.read (p.write c a v).2 b =
      if named c b = named c a ∧ writable c (named c a) = true then kept (named c b) v else p.read c b := by
  rw [read_marked,keeps_whole whole]

structure Naming (c : Cartridge) : Prop where
  folded : ∀ a, named c (a % 0x4000) = named c a
  apart : ∀ a b, named c a = named c b →
    (a % 0x4000 < 0x2000 ↔ b % 0x4000 < 0x2000) ∧ (a % 0x4000 < 0x3F00 ↔ b % 0x4000 < 0x3F00)
  repeated : ∀ a, 0x2000 ≤ a → a < 0x2F00 → named c (a + 0x1000) = named c a
  tables : ∀ a b, 0x2000 ≤ a → a < 0x3F00 → 0x2000 ≤ b → b < 0x3F00 →
    (named c a = named c b ↔ a.toNat % 0x400 = b.toNat % 0x400 ∧
      c.mirroring.pageBehind (a.toNat / 0x400 % 4) = c.mirroring.pageBehind (b.toNat / 0x400 % 4))
  -- Nametables that are soldered one by one stay so, whatever the registers of the board say.
  soldered : c.header.mirroring = .fourScreen → c.mirroring = .fourScreen
  palette : ∀ a b, 0x3F00 ≤ a → a < 0x4000 → 0x3F00 ≤ b → b < 0x4000 →
    (named c a = named c b ↔ a.toNat % 0x20 = b.toNat % 0x20 ∨
      a.toNat % 4 = 0 ∧ a.toNat % 0x10 = b.toNat % 0x10)
  -- Two halves of the pattern window that show one bank show the same cells.
  windows : ∀ r, c.mapper = .mmc1 r → ∀ a b, a < 0x2000 → b < 0x2000 →
    (named c a = named c b ↔
      r.bankShown c.chr.size a = r.bankShown c.chr.size b ∧ a.toNat % 0x1000 = b.toNat % 0x1000)

theorem pattern_below (c : Cartridge) (a : UInt16) :
    (∃ offset, named c a = .pattern offset) ↔ a % 0x4000 < 0x2000 := by
  simp only [named]
  split
  · simp [*]
  · split <;> simp [*]

theorem palette_above (c : Cartridge) (a : UInt16) : (∃ i, named c a = .palette i) ↔ ¬ a % 0x4000 < 0x3F00 := by
  simp only [named]
  split
  · have below : a % 0x4000 < 0x3F00 := by grind
    simp [below]
  · split <;> simp [*]

theorem pageBehind_lt (m : Mirroring) (n : Nat) : m.pageBehind (n % 4) < 4 := by
  cases m <;> simp only [Mirroring.pageBehind] <;> omega

theorem fold_eq {a : UInt16} (below : a < 0x4000) : Ppu.fold a = a := UInt16.mod_eq_of_lt below

theorem naming (c : Cartridge) : Naming c where
  folded a := by
    have once : a % 0x4000 % 0x4000 = a % 0x4000 := fold_eq (Ppu.fold_lt a)
    simp only [named,once]
  apart a b same := by
    rw [← pattern_below c a,← pattern_below c b,← not_iff_not (a := a % 0x4000 < 0x3F00),← palette_above c a,
      ← palette_above c b,same]
    exact ⟨Iff.rfl,Iff.rfl⟩
  -- Four nametables further on the number of the table repeats, and so does the offset in it.
  repeated a above below := by
    have here : Ppu.fold a = a := fold_eq (by grind)
    have next : Ppu.fold (a + 0x1000) = a + 0x1000 := fold_eq (by grind)
    have number : (a + 0x1000).toNat = a.toNat + 0x1000 := by
      rw [UInt16.lt_iff_toNat_lt] at below
      simp only [UInt16.toNat_add,UInt16.reduceToNat] at below ⊢
      omega
    have table : (a.toNat + 0x1000) / 0x400 % 4 = a.toNat / 0x400 % 4 := by omega
    have offset : Fin.ofNat 0x400 (a.toNat + 0x1000) = Fin.ofNat 0x400 a.toNat :=
      Fin.eq_of_val_eq (Nat.add_mul_mod_self_right a.toNat 4 0x400)
    rw [named_nametable c (a := a + 0x1000) (by rw [next]; grind) (by rw [next]; grind [Ppu.paletteBase]),
      named_nametable c (a := a) (by rw [here]; grind) (by rw [here]; grind [Ppu.paletteBase]),here,next,number,table,
      offset]
  tables a b above below aboveToo belowToo := by
    have here : Ppu.fold a = a := fold_eq (by grind)
    have there : Ppu.fold b = b := fold_eq (by grind)
    rw [named_nametable c (a := a) (by rw [here]; grind) (by rw [here]; exact below),
      named_nametable c (a := b) (by rw [there]; grind) (by rw [there]; exact belowToo),here,there]
    simp only [nametable.injEq,Fin.ext_iff,Fin.val_ofNat,Nat.mod_eq_of_lt (pageBehind_lt _ _)]
    exact and_comm
  soldered four := by
    rw [Cartridge.mirroring,four]
    cases c.mapper <;> rfl
  palette a b above below aboveToo belowToo := by
    have here : Ppu.fold a = a := fold_eq below
    have there : Ppu.fold b = b := fold_eq belowToo
    rw [named_palette c (a := a) (by rw [here]; grind) (by rw [here]; exact UInt16.not_lt.mpr above),
      named_palette c (a := b) (by rw [there]; grind) (by rw [there]; exact UInt16.not_lt.mpr aboveToo),here,there]
    simp only [palette_index,palette.injEq,Fin.ext_iff,Fin.val_ofNat]
    split <;> split <;> omega
  windows r board a b low lowToo := by
    have here : Ppu.fold a = a := fold_eq (by grind)
    have there : Ppu.fold b = b := fold_eq (by grind)
    have offset : ∀ x, r.chrOffset c.chr.size x = r.bankShown c.chr.size x * 0x1000 + x.toNat % 0x1000 := fun _ => rfl
    rw [named_pattern c (a := a) (by rw [here]; exact low),named_pattern c (a := b) (by rw [there]; exact lowToo),
      here,there,board]
    simp only [pattern.injEq,Mapper.chrOffset,offset]
    generalize r.bankShown c.chr.size a = m
    generalize r.bankShown c.chr.size b = n
    omega

-- The cells are all of the memory: where each holds the same, the memory is the same.
theorem held_injective {p q : Ppu} {chr chr' : Array UInt8} (size : chr'.size = chr.size)
    (same : held q chr' = held p chr) : q.vram = p.vram ∧ q.palette = p.palette ∧ chr' = chr := by
  refine ⟨?_,?_,?_⟩
  · apply Vector.ext
    intro i inside
    have cell := congrFun same (.nametable ⟨i / 0x400,by omega⟩ ⟨i % 0x400,by omega⟩)
    simpa only [held,Nat.div_add_mod'] using cell
  · apply Vector.ext
    intro i inside
    exact congrFun same (.palette ⟨i,inside⟩)
  · apply Array.ext size
    intro i left right
    have cell := congrFun same (.pattern i)
    simpa only [held,Array.getD_eq_getD_getElem?,Array.getElem?_eq_getElem left,Array.getElem?_eq_getElem right,
      Option.getD_some] using cell

end VideoCell

inductive VideoTouch where
  | store (a : UInt16) (v : UInt8)
  | board (a : UInt16) (v : UInt8)
  deriving DecidableEq, Repr

namespace VideoTouch

open VideoCell

def touched (s : Ppu × Cartridge) (x : VideoTouch) : Ppu × Cartridge :=
  match x with
  | .store a v => s.1.write s.2 a v
  | .board a v => (s.1,s.2.prgWrite a v)

def mark? (c : Cartridge) (x : VideoTouch) : Option (VideoCell × UInt8) :=
  match x with
  | .store a v => if writable c (named c a) then some (named c a,kept (named c a) v) else none
  | .board .. => none

def marks (s : Ppu × Cartridge) (touches : List VideoTouch) : List (VideoCell × UInt8) :=
  match touches with
  | [] => []
  | x :: rest => marks (touched s x) rest ++ (mark? s.2 x).toList

theorem touched_descends {c : Cartridge} {s : Ppu × Cartridge} (descends : c.Descends s.2) (x : VideoTouch) :
    c.Descends (touched s x).2 := by
  cases x with
  | store a v => exact s.1.write_descends descends a v
  | board a v => exact descends.prgWrite a v

theorem touched_held {s : Ppu × Cartridge} (whole : s.2.Whole) (x : VideoTouch) (cell : VideoCell) :
    held (touched s x).1 (touched s x).2.chr cell =
      ((mark? s.2 x).toList.lookup cell).getD (held s.1 s.2.chr cell) := by
  cases x with
  | store a v =>
      simp only [touched,write_held whole,mark?]
      split
      · simp only [Option.toList_some,List.lookup_cons,List.lookup_nil,Function.update_apply]
        by_cases same : cell = named s.2 a
        · simp only [same,beq_self_eq_true,if_true]
          rfl
        · simp only [same,if_false,beq_eq_false_iff_ne.mpr same]
          rfl
      · rfl
  | board a v => rfl

theorem held_marks (touches : List VideoTouch) : ∀ {s : Ppu × Cartridge}, s.2.Whole → ∀ cell,
    held (touches.foldl touched s).1 (touches.foldl touched s).2.chr cell =
      ((marks s touches).lookup cell).getD (held s.1 s.2.chr cell) := by
  induction touches with
  | nil => exact fun _ _ => rfl
  | cons x rest ih =>
      intro s whole cell
      have still : (touched s x).2.Whole := whole.used (touched_descends (.refl _) x)
      rw [List.foldl_cons,ih still,touched_held whole,marks,List.lookup_append,Option.getD_or]

end VideoTouch

namespace Cartridge

theorem Descends.rebanked (c : Cartridge) {m : Mapper} (same : m.powerOn = c.mapper.powerOn) :
    c.Descends {c with mapper := m} := {Descends.refl c with board := same}

def patternless : Array UInt8 :=
  #[0x4E,0x45,0x53,0x1A,1,0,0x10,0,0,0,0,0,0,0,0,0] ++ Array.replicate prgBankSize 0xEA

theorem load_patternless :
    load patternless = .ok (ofSections patternless ⟨1,0,0x10,0⟩ (.mmc1 .powerOn)) := by
  have size : patternless.size = Header.size + prgBankSize := by simp [patternless,Header.size,prgBankSize]
  have signed : (patternless.extract 0 4).toList = Header.signature := by simp [patternless,Header.signature]
  have parsed : Header.parse patternless = .ok ⟨1,0,0x10,0⟩ := by
    simp only [Header.parse,size,signed]
    simp [Header.size,patternless,prgBankSize]
  exact load_sections parsed (by decide) rfl (Nat.le_of_eq size.symm)

def doubled : Cartridge :=
  {ofSections patternless ⟨1,0,0x10,0⟩ (.mmc1 .powerOn) with
    mapper := .mmc1 {Mmc1.powerOn with control := 0b10010,chr0 := 1,chr1 := 1}}

end Cartridge

namespace Ppu

open Cartridge VideoCell VideoTouch

-- The picture processor's own memory and that of a cartridge are one memory under many names, whatever the registers of
-- the board hold by now.
theorem video_aliased {image : Array UInt8} {new c : Cartridge} (made : Cartridge.load image = .ok new)
    (used : new.Descends c) (p : Ppu) :
    Naming c ∧
      (∀ cell, writable c cell = false ↔ (∃ offset, cell = .pattern offset) ∧ c.header.chrBanks ≠ 0) ∧
      (∀ a v b, (p.write c a v).1.read (p.write c a v).2 b =
        if named c b = named c a ∧ writable c (named c a) = true then kept (named c b) v else p.read c b) ∧
      (∀ a v, (p.write c a v).1 = {p with vram := (p.write c a v).1.vram,palette := (p.write c a v).1.palette} ∧
        (p.write c a v).2 = {c with chr := (p.write c a v).2.chr} ∧ (p.write c a v).2.chr.size = c.chr.size ∧
        ∀ cell, cell ≠ named c a → held (p.write c a v).1 (p.write c a v).2.chr cell = held p c.chr cell) ∧
      (∀ a v, writable c (named c a) = false → p.write c a v = (p,c)) ∧
      ∀ touches b, let s := touches.foldl touched (p,c)
        s.1.read s.2 b = kept (named s.2 b)
          (((marks (p,c) touches).lookup (named s.2 b)).getD (held p c.chr (named s.2 b))) := by
  have loaded := Cartridge.load_loaded made
  have whole : c.Whole := loaded.whole.used used
  refine ⟨naming c,?_,read_write whole p,?_,?_,?_⟩
  · intro cell
    have fixed : c.chrWritable = (c.header.chrBanks == 0) := by
      rw [used.chrWritable,used.header,loaded.sections]
      rfl
    cases cell <;> simp [writable,fixed]
  · intro a v
    obtain ⟨own,board,size⟩ := write_rest p c a v
    refine ⟨own,board,size,?_⟩
    intro cell other
    rw [write_held whole]
    split
    · exact Function.update_of_ne other _ _
    · rfl
  · intro a v locked
    obtain ⟨own,board,size⟩ := write_rest p c a v
    have same := write_held whole p a v
    rw [locked] at same
    -- Cells tell the memory apart, so that where no cell changes nothing does.
    obtain ⟨vram,palette,chr⟩ := held_injective size same
    rw [vram,palette] at own
    rw [chr] at board
    exact Prod.ext own board
  · intro touches b s
    -- The names are those of the registers at the end, and the marks those of the registers at their time.
    rw [read_held,held_marks touches (s := (p,c)) whole]

-- A byte in the second nametable, and five writes that put the tables one above the other.
def turned : List VideoTouch :=
  [.store 0x2405 0x42,.board 0x8000 1,.board 0x8000 1,.board 0x8000 0,.board 0x8000 0,.board 0x8000 1]

theorem turned_aliased :
    ∃ new, Cartridge.load patternless = .ok new ∧ new.Descends doubled ∧
      (powerOn.write doubled 0x0123 0x5A).1.read (powerOn.write doubled 0x0123 0x5A).2 0x5123 = 0x5A ∧
      (powerOn.write doubled 0x3F10 0xFF).1.read (powerOn.write doubled 0x3F10 0xFF).2 0x3F00 = 0x3F ∧
      (powerOn.write doubled 0x2405 0x42).1.read (powerOn.write doubled 0x2405 0x42).2 0x3C05 = 0x42 ∧
      (powerOn.write doubled 0x2405 0x42).1.read (powerOn.write doubled 0x2405 0x42).2 0x2805 = 0 ∧
      let s := turned.foldl touched (powerOn,doubled)
      s.1.read s.2 0x2805 = 0x42 ∧ s.1.read s.2 0x2405 = 0 := by
  have used : (Cartridge.ofSections patternless ⟨1,0,0x10,0⟩ (.mmc1 .powerOn)).Descends doubled := .rebanked _ rfl
  obtain ⟨_,_,told,_,_,later⟩ := video_aliased load_patternless used powerOn
  refine ⟨_,load_patternless,used,?_,?_,?_,?_,?_⟩
  · rw [told]
    decide +kernel
  · rw [told]
    decide +kernel
  · rw [told]
    decide +kernel
  · rw [told]
    decide +kernel
  · intro s
    refine ⟨(later turned 0x2805).trans ?_,(later turned 0x2405).trans ?_⟩
    · decide +kernel
    · decide +kernel

end Ppu
end Famicom
