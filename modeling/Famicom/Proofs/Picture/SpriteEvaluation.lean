import Famicom.Proofs.Picture.Redrawing

namespace Famicom

namespace Scene

variable (p : Ppu)

def coverage (y : Nat) : Nat := (List.finRange 64).countP fun i => decide (coversLine p y i)

def tops : List Nat := (List.finRange 64).map (top p)

-- Of the sprites that cover a line, as many as it can show, in the order of sprite memory and none left out before them.
structure Picked (y : Nat) (picked : List (Fin 64)) : Prop where
  size : picked.length = min 8 (coverage p y)
  ordered : picked.Pairwise (· < ·)
  covering : ∀ i ∈ picked, coversLine p y i
  first : ∀ i ∈ picked, ∀ j < i, coversLine p y j → j ∈ picked

theorem taken_before {l : List (Fin 64)} (ordered : l.Pairwise (· < ·)) {n : Nat} {i j : Fin 64} (taken : i ∈ l.take n)
    (among : j ∈ l) (before : j < i) : j ∈ l.take n := by
  rw [← List.take_append_drop n l] at ordered among
  obtain ⟨_,_,apart⟩ := List.pairwise_append.mp ordered
  rcases List.mem_append.mp among with front | rest
  · exact front
  · exact absurd (apart i taken j rest) (Fin.lt_asymm before)

theorem candidates_picked (y : Nat) : Picked p y (candidates p y) := by
  have ordered : ((List.finRange 64).filter fun i => decide (coversLine p y i)).Pairwise (· < ·) :=
    (List.pairwise_lt_finRange 64).filter _
  refine ⟨?_,ordered.sublist (List.take_sublist ..),?_,?_⟩
  · rw [candidates,List.length_take,coverage,List.countP_eq_length_filter]
  · intro i taken
    exact of_decide_eq_true (List.mem_filter.mp (List.mem_of_mem_take taken)).2
  · intro i taken j before covers
    have among : j ∈ (List.finRange 64).filter fun i => decide (coversLine p y i) :=
      List.mem_filter.mpr ⟨List.mem_finRange j,decide_eq_true covers⟩
    exact taken_before ordered taken among before

theorem coverage_tops (y : Nat) : coverage p y = (tops p).countP fun t => decide (t ≤ y ∧ y < t + height p) := by
  rw [tops,List.countP_map]
  rfl

end Scene

namespace Raster

open Scene

variable (p : Ppu) (c : Cartridge)

def onLine (y : Nat) (i : Fin 64) : LineSprite :=
  let place := rowAddress p i (row p i y)
  ⟨p.spriteAt i,byte p c place,byte p c (place + 8)⟩

theorem lineSprite_onLine (y : Nat) (i : Fin 64) : p.lineSprite c y (p.spriteAt i) = onLine p c y i := by
  have upper : UInt16.ofNat (rowAddress p i (row p i y)) + 8 = UInt16.ofNat (rowAddress p i (row p i y) + 8) :=
    (UInt16.ofNat_add _ 8).symm
  rw [Ppu.lineSprite,spriteAt_patternRow,spriteRowAddress_eq,upper]
  rfl

theorem shown_onLine (y : Nat) : (p.lineSprites c y).shown = (candidates p y).map (onLine p c y) := by
  rw [shown_eq]
  exact List.map_congr_left fun i _ => lineSprite_onLine p c y i

theorem overflow_coverage (y : Nat) : (p.lineSprites c y).overflow = true ↔ 9 ≤ coverage p y := by
  have same : (fun s : Sprite => s.covers p.control.spriteHeight y) ∘ p.spriteAt = fun i => decide (coversLine p y i) := by
    funext i
    exact spriteAt_covers p y i
  simp only [Ppu.lineSprites,pickSprites_exact,Ppu.sprites,List.filter_map,List.length_map,same,decide_eq_true_eq,
    spritesPerLine]
  rw [coverage,List.countP_eq_length_filter]
  rfl

theorem draw_overflow (r : Raster) : (draw p c r).spriteOverflow = true ↔
    (bit p.mask.bits 3 = 1 ∨ bit p.mask.bits 4 = 1) ∧ ∃ y < 240, 9 ≤ coverage p y := by
  rw [← rendering_eq]
  cases rendering : p.mask.rendering with
  | false =>
      rw [draw_blank p c r rendering]
      simp
  | true =>
      rw [(draw_flags p c r rendering).2]
      simp only [overflow_coverage,true_and]
      rfl

-- A line shows the first eight of the sprites that cover it, each once and with its own row. More than eight on a line
-- of the picture are reported, whatever else is known of them.
theorem sprites_evaluated (r : Raster) :
    (∀ y, Picked p y (candidates p y) ∧ (p.lineSprites c y).shown = (candidates p y).map (onLine p c y)) ∧
      ((draw p c r).spriteOverflow = true ↔
        (bit p.mask.bits 3 = 1 ∨ bit p.mask.bits 4 = 1) ∧ ∃ y < 240, 9 ≤ coverage p y) ∧
      (∀ y < 240, ∀ s ∈ (p.lineSprites c y).shown, s.sprite.y < 239) ∧ (p.lineSprites c 0).shown = [] ∧
      ∀ (q : Ppu) (c' : Cartridge) (r' : Raster),
        (bit q.mask.bits 3 = 1 ∨ bit q.mask.bits 4 = 1 ↔ bit p.mask.bits 3 = 1 ∨ bit p.mask.bits 4 = 1) →
        bit q.control.bits 5 = bit p.control.bits 5 → (tops q).Perm (tops p) →
          (draw q c' r').spriteOverflow = (draw p c r).spriteOverflow := by
  refine ⟨fun y => ⟨candidates_picked p y,shown_onLine p c y⟩,draw_overflow p c r,?_,?_,?_⟩
  · intro y line s shown
    rw [shown_onLine] at shown
    obtain ⟨i,picked,rfl⟩ := List.mem_map.mp shown
    obtain ⟨above,_⟩ := (candidates_picked p y).covering i picked
    have below : (entry p i ⟨0,by decide⟩).toNat + 1 ≤ y := above
    rw [UInt8.lt_iff_toNat_lt]
    change (entry p i ⟨0,by decide⟩).toNat < 239
    omega
  · have none : candidates p 0 = [] := by
      rw [List.eq_nil_iff_forall_not_mem]
      intro i picked
      exact absurd ((candidates_picked p 0).covering i picked).1 (Nat.not_succ_le_zero _)
    rw [shown_onLine,none]
    rfl
  · intro q c' r' rendering tall perm
    -- The count on a line is told by the first lines of the sprites, in whatever order these stand.
    have same : ∀ y, coverage q y = coverage p y := by
      intro y
      have high : height q = height p := by rw [height,tall,height]
      rw [coverage_tops,coverage_tops,high]
      exact perm.countP_eq _
    apply Bool.eq_iff_iff.mpr
    simp only [draw_overflow,rendering,same]

-- All sprites but the first on one line, with only the background switched on; and all but the last on that line, the next
-- to last of them elsewhere in it, with only the sprites switched on.
def crowded : Ppu := {Ppu.powerOn with
  oam := (Vector.replicate _ 10).setIfInBounds 0 0xF0
  mask := ⟨0x08⟩}

def huddled : Ppu := {Ppu.powerOn with
  oam := ((Vector.replicate _ 10).setIfInBounds 252 0xF0).setIfInBounds 251 77
  mask := ⟨0x10⟩}

theorem crowded_evaluated :
    18 < 240 ∧ onLine crowded stripes 18 7 ∈ (crowded.lineSprites stripes 18).shown ∧
      (onLine crowded stripes 18 7).sprite.y < 239 ∧
      (bit huddled.mask.bits 3 = 1 ∨ bit huddled.mask.bits 4 = 1 ↔ bit crowded.mask.bits 3 = 1 ∨ bit crowded.mask.bits 4 = 1) ∧
      bit huddled.control.bits 5 = bit crowded.control.bits 5 ∧ (tops huddled).Perm (tops crowded) ∧
      (draw crowded stripes {}).spriteOverflow = true ∧
      (draw huddled {stripes with chr := #[0xFF]} {}).spriteOverflow = true := by
  obtain ⟨picks,overflow,low,_,told⟩ := sprites_evaluated crowded stripes {}
  have among : (7 : Fin 64) ∈ candidates crowded 18 := by decide +kernel
  have shown : onLine crowded stripes 18 7 ∈ (crowded.lineSprites stripes 18).shown := by
    rw [(picks 18).2]
    exact List.mem_map_of_mem among
  have same : (tops huddled).Perm (tops crowded) := by decide +kernel
  have many : (draw crowded stripes {}).spriteOverflow = true :=
    overflow.mpr ⟨by decide,18,by decide,by decide +kernel⟩
  have rendering : bit huddled.mask.bits 3 = 1 ∨ bit huddled.mask.bits 4 = 1 ↔
      bit crowded.mask.bits 3 = 1 ∨ bit crowded.mask.bits 4 = 1 := by decide
  exact ⟨by decide,shown,low 18 (by decide) _ shown,rendering,by decide,same,many,
    (told huddled {stripes with chr := #[0xFF]} {} rendering (by decide) same).trans many⟩

end Raster
end Famicom
