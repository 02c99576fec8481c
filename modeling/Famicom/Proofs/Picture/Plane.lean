import Famicom.Proofs.Picture.Fetches

namespace Famicom

namespace Mirroring

def FoldsColumns (m : Mirroring) : Prop := m = .horizontal ∨ m = .singleScreenLower ∨ m = .singleScreenUpper

def FoldsRows (m : Mirroring) : Prop := m = .vertical ∨ m = .singleScreenLower ∨ m = .singleScreenUpper

theorem FoldsColumns.page {m : Mirroring} (folds : m.FoldsColumns) {t t' : Fin 4} (row : t'.val / 2 = t.val / 2) :
    m.page t' = m.page t := by
  revert t t'
  rcases folds with rfl | rfl | rfl <;> decide

theorem FoldsRows.page {m : Mirroring} (folds : m.FoldsRows) {t t' : Fin 4} (column : t'.val % 2 = t.val % 2) :
    m.page t' = m.page t := by
  revert t t'
  rcases folds with rfl | rfl | rfl <;> decide

end Mirroring

namespace Scene

def table (u v : Nat) : Fin 4 := ⟨(u / 256 + 2 * (v / 240)) % 4,Nat.mod_lt _ (by decide)⟩

theorem cell_table (m : Mirroring) {u v k : Nat} (column : u < 512) (line : v < 480) (offset : k < 0x400) :
    (m.cell (UInt16.ofNat (nametable u v + k))).val = (m.page (table u v)).val * 0x400 + k := by
  have place : (UInt16.ofNat (nametable u v + k)).toNat = nametable u v + k := by
    apply place_toNat
    unfold nametable
    omega
  have here : (⟨(nametable u v + k) % 0x1000 / 0x400,by omega⟩ : Fin 4) = table u v := by
    apply Fin.eq_of_val_eq
    simp only [nametable,table]
    omega
  have low : (nametable u v + k) % 0x400 = k := by
    unfold nametable
    omega
  simp only [Mirroring.cell,place,here,low]

section
variable (p : Ppu) (c : Cartridge)

def dot (u v : Nat) : Nat := pattern p c (tileRow p c u v) (u % 256 % 8)

def dotPalette (u v : Nat) : Nat := ((attributes p c u v).toNat >>> (2 * quarter u v)) % 4

theorem background_dot (x y : Nat) :
    background p c x y = if layerShown p 3 1 x then dot p c (planeX p x) (planeY p y) else 0 := rfl

theorem backgroundPalette_dot (x y : Nat) :
    backgroundPalette p c x y = dotPalette p c (planeX p x) (planeY p y) := rfl

end

-- Two consoles that have the same dots at the same offsets of the same pages.
structure SamePages (p q : Ppu) (c d : Cartridge) : Prop where
  patterns : ∀ a, d.chrRead a = c.chrRead a
  vram : q.vram = p.vram
  table : bit q.control.bits 4 = bit p.control.bits 4

namespace SamePages

variable {p q : Ppu} {c d : Cartridge} (pages : SamePages p q c d)
include pages

variable {u v u' v' : Nat} (column : u < 512) (line : v < 480) (column' : u' < 512) (line' : v' < 480)
  (same : d.mirroring.page (Scene.table u' v') = c.mirroring.page (Scene.table u v))
include column line column' line' same

theorem byte {k : Nat} (offset : k < 0x400) : byte q d (nametable u' v' + k) = byte p c (nametable u v + k) := by
  have above : ∀ u v, 0x2000 ≤ nametable u v + k := by
    intro u v
    unfold nametable
    omega
  have below : ∀ {u v}, u < 512 → v < 480 → nametable u v + k < 0x3F00 := by
    intro u v column line
    unfold nametable
    omega
  have cell : d.mirroring.cell (UInt16.ofNat (nametable u' v' + k)) =
      c.mirroring.cell (UInt16.ofNat (nametable u v + k)) := by
    apply Fin.eq_of_val_eq
    rw [cell_table _ column' line' offset,cell_table _ column line offset,same]
  rw [(byte_nametable q d (above u' v') (below column' line')).1,
    (byte_nametable p c (above u v) (below column line)).1]
  simp only [cell,pages.vram]

theorem dots (beside : u' % 256 = u % 256) (along : v' % 240 = v % 240) :
    dot q d u' v' = dot p c u v ∧ dotPalette q d u' v' = dotPalette p c u v := by
  have tile : tile q d u' v' = tile p c u v := by
    have offset : 32 * (v % 240 / 8) + u % 256 / 8 < 0x400 := by omega
    rw [Scene.tile,Scene.tile,beside,along,Nat.add_assoc,Nat.add_assoc]
    exact pages.byte column line column' line' same offset
  have attributes : attributes q d u' v' = attributes p c u v := by
    have offset : 0x3C0 + (8 * (v % 240 / 32) + u % 256 / 32) < 0x400 := by omega
    rw [Scene.attributes,Scene.attributes,beside,along]
    simp only [Nat.add_assoc]
    exact pages.byte column line column' line' same offset
  have row : tileRow q d u' v' = tileRow p c u v := by rw [tileRow,tile,pages.table,along]; rfl
  have quarter : quarter u' v' = quarter u v := by rw [Scene.quarter,beside,along]; rfl
  constructor
  · rw [dot,row,beside,pattern_alike p c pages.patterns q (tileRow_lt p c u v)]
    rfl
  · rw [dotPalette,attributes,quarter]
    rfl

end SamePages
end Scene
end Famicom
