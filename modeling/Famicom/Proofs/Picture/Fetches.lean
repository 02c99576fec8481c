import Famicom.Proofs.Picture.Scene

namespace Famicom.Scene

section
variable (p : Ppu) (c : Cartridge)

theorem planeX_lt (x : Nat) : planeX p x < 512 := Nat.mod_lt _ (by decide)

theorem planeY_lt (y : Nat) : planeY p y < 480 := Nat.mod_lt _ (by decide)

def tilePlace (u v : Nat) : Nat := nametable u v + 32 * (v % 240 / 8) + u % 256 / 8

theorem tilePlace_within {u v : Nat} (column : u < 512) (line : v < 480) :
    0x2000 ≤ tilePlace u v ∧ tilePlace u v < 0x3000 ∧ tilePlace u v % 0x400 < 0x3C0 := by
  unfold tilePlace nametable
  omega

theorem tileRow_lt (u v : Nat) : tileRow p c u v + 8 < 0x2000 := by
  have := bit_lt p.control.bits 4
  have := (tile p c u v).toNat_lt
  unfold tileRow
  omega

theorem row_lt {i : Fin 64} {y : Nat} (covers : coversLine p y i) : row p i y < height p := by
  obtain ⟨above,below⟩ := covers
  unfold row
  split <;> omega

theorem rowAddress_lt (i : Fin 64) {k : Nat} (within : k < height p) : rowAddress p i k + 8 < 0x2000 := by
  have := bit_lt p.control.bits 3
  have := bit_lt p.control.bits 5
  have := (spriteTile p i).toNat_lt
  unfold height at within
  simp only [rowAddress]
  split <;> omega

theorem place_toNat {a : Nat} (low : a < 0x4000) : (UInt16.ofNat a).toNat = a := by
  rw [UInt16.toNat_ofNat']
  exact Nat.mod_eq_of_lt (Nat.lt_trans low (by decide))

theorem fold_place {a : Nat} (low : a < 0x4000) : Ppu.fold (UInt16.ofNat a) = UInt16.ofNat a := by
  apply UInt16.mod_eq_of_lt
  rw [UInt16.lt_iff_toNat_lt,place_toNat low]
  exact low

theorem byte_pattern {a : Nat} (low : a < 0x2000) : byte p c a = c.chrRead (UInt16.ofNat a) := by
  have inside : a < 0x4000 := Nat.lt_trans low (by decide)
  have below : UInt16.ofNat a < 0x2000 := by
    rw [UInt16.lt_iff_toNat_lt,place_toNat inside]
    exact low
  rw [byte,Ppu.read]
  simp only [fold_place inside,if_pos below]

theorem pattern_alike {d : Cartridge} (patterns : ∀ a, d.chrRead a = c.chrRead a) (q : Ppu) {place : Nat}
    (within : place + 8 < 0x2000) (column : Nat) : pattern q d place column = pattern p c place column := by
  have lower : place < 0x2000 := Nat.lt_of_le_of_lt (Nat.le_add_right _ 8) within
  rw [pattern,pattern,byte_pattern q d within,byte_pattern q d lower,byte_pattern p c within,byte_pattern p c lower,
    patterns,patterns]

theorem pattern_same (q : Ppu) {place : Nat} (within : place + 8 < 0x2000) (column : Nat) :
    pattern q c place column = pattern p c place column := pattern_alike p c (fun _ => rfl) q within column

theorem byte_nametable {a : Nat} (above : 0x2000 ≤ a) (below : a < 0x3F00) :
    byte p c a = p.vram[c.mirroring.cell (UInt16.ofNat a)] ∧
      (c.mirroring.cell (UInt16.ofNat a)).val % 0x400 = a % 0x400 := by
  have inside : a < 0x4000 := Nat.lt_trans below (by decide)
  have high : ¬ UInt16.ofNat a < 0x2000 := by
    rw [UInt16.lt_iff_toNat_lt,place_toNat inside]
    exact Nat.not_lt.mpr above
  have low : UInt16.ofNat a < Ppu.paletteBase := by
    rw [UInt16.lt_iff_toNat_lt,place_toNat inside]
    exact below
  refine ⟨?_,?_⟩
  · rw [byte,Ppu.read]
    simp only [fold_place inside,if_neg high,if_pos low]
  · simp only [Mirroring.cell,place_toNat inside]
    omega

theorem byte_palette {a : Nat} (above : 0x3F00 ≤ a) (below : a < 0x4000) :
    byte p c a = p.palette[Ppu.paletteCell (UInt16.ofNat a)] % 0x40 := by
  have high : ¬ UInt16.ofNat a < Ppu.paletteBase := by
    rw [UInt16.lt_iff_toNat_lt,place_toNat below]
    exact Nat.not_lt.mpr above
  have past : ¬ UInt16.ofNat a < 0x2000 := fun low => high (UInt16.lt_trans low (by decide))
  rw [byte,Ppu.read]
  simp only [fold_place below,if_neg past,if_neg high]

theorem backgroundPalette_lt (x y : Nat) : backgroundPalette p c x y < 4 := Nat.mod_lt _ (by decide)

theorem background_lt (x y : Nat) : background p c x y < 4 := by
  unfold background
  split
  · exact pattern_lt ..
  · decide

-- A cell of the palette that a picture can show.
def Shown (a : Nat) : Prop := a = 0x3F00 ∨ 0x3F00 < a ∧ a < 0x3F20 ∧ a % 4 ≠ 0

theorem Shown.within {a : Nat} (shown : Shown a) : 0x3F00 ≤ a ∧ a < 0x4000 := by
  unfold Shown at shown
  omega

-- No shown cell is shared but the first, and none that begins a palette is shown but that.
theorem Shown.index {a : Nat} (shown : Shown a) : (Ppu.paletteCell (UInt16.ofNat a)).val = a % 0x20 ∧
    (a % 0x20 = 0 ∨ a % 0x20 % 4 ≠ 0) := by
  unfold Shown at shown
  refine ⟨?_,by omega⟩
  simp only [Ppu.paletteCell,place_toNat (show a < 0x4000 by omega)]
  split
  · omega
  · rfl

theorem backgroundCell_shown {x y : Nat} (solid : background p c x y ≠ 0) : Shown (backgroundCell p c x y) := by
  have := background_lt p c x y
  have := backgroundPalette_lt p c x y
  unfold Shown backgroundCell
  omega

theorem spriteCell_shown {i : Fin 64} {x y : Nat} (solid : spriteColor p c i x y ≠ 0) : Shown (spriteCell p c i x y) := by
  have := spriteColor_lt p c i x y
  unfold Shown spriteCell
  omega

theorem front?_solid {i : Fin 64} {x y : Nat} (front : front? p c x y = some i) :
    i ∈ candidates p y ∧ spriteColor p c i x y ≠ 0 := by
  rw [front?] at front
  split at front
  · have solid := List.find?_some front
    exact ⟨List.mem_of_find?_eq_some front,of_decide_eq_true solid⟩
  · cases front

theorem cell_shown (x y : Nat) : Shown (cell p c x y) := by
  unfold cell
  split
  · rename_i i front
    split
    · rename_i covered
      exact backgroundCell_shown p c covered.1
    · exact spriteCell_shown p c (front?_solid p c front).2
  · split
    · rename_i solid
      exact backgroundCell_shown p c solid
    · exact .inl rfl

end
end Famicom.Scene
