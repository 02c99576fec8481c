import Famicom.Console.Bus

namespace Famicom.Bus

variable {a : UInt16}

theorem containing_bounds (a : UInt16) :
    match Region.containing a with
    | .work cell => a < 0x2000 ∧ cell.val = a.toNat % 0x800
    | .register _ => 0x2000 ≤ a ∧ a < 0x4000
    | .transfer => a = 0x4014
    | .unwired => 0x4000 ≤ a ∧ a < 0x6000
    | .save => 0x6000 ≤ a ∧ a < 0x8000
    | .program => 0x8000 ≤ a := by
  unfold Region.containing
  grind

def workCell (a : UInt16) : Fin 0x800 := .ofNat 0x800 a.toNat

theorem cell_of_work {cell : Fin 0x800} (region : Region.containing a = .work cell) : cell = workCell a := by
  have bounds := containing_bounds a
  rw [region] at bounds
  exact Fin.eq_of_val_eq bounds.2

theorem containing_work (low : a < 0x2000) : Region.containing a = .work (workCell a) := if_pos low

theorem containing_unwired (above : 0x4000 ≤ a) (below : a < 0x6000) (other : a ≠ 0x4014) :
    Region.containing a = .unwired := by
  unfold Region.containing
  grind

theorem containing_save (above : 0x6000 ≤ a) (below : a < 0x8000) : Region.containing a = .save := by
  unfold Region.containing
  grind

theorem containing_program (above : 0x8000 ≤ a) : Region.containing a = .program := by
  unfold Region.containing
  grind

end Famicom.Bus
