namespace Famicom

inductive Mirroring where
  | horizontal
  | vertical
  | fourScreen
  | singleScreenLower
  | singleScreenUpper
  deriving DecidableEq, Repr

namespace Mirroring

def text : Mirroring → String
  | horizontal => "Horizontal"
  | vertical => "Vertical"
  | fourScreen => "FourScreen"
  | singleScreenLower => "SingleScreenLower"
  | singleScreenUpper => "SingleScreenUpper"

def page (mirroring : Mirroring) (table : Fin 4) : Fin 4 :=
  match mirroring, table with
  | horizontal, 0 | horizontal, 1 => 0
  | horizontal, 2 | horizontal, 3 => 1
  | vertical, 0 | vertical, 2 => 0
  | vertical, 1 | vertical, 3 => 1
  | fourScreen, table => table
  | singleScreenLower, _ => 0
  | singleScreenUpper, _ => 1

-- Nametable addresses repeat every four kilobytes, which folds 3000-3EFF onto 2000-2EFF.
def cell (mirroring : Mirroring) (a : UInt16) : Fin 0x1000 :=
  let table : Fin 4 := ⟨a.toNat % 0x1000 / 0x400,by omega⟩
  ⟨(mirroring.page table).val * 0x400 + a.toNat % 0x400,by omega⟩

end Mirroring
end Famicom
