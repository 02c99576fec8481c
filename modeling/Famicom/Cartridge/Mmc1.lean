import Famicom.Word
import Famicom.Cartridge.Bank
import Famicom.Cartridge.Mirroring

namespace Famicom

inductive Mmc1.Register where
  | control
  | chr0
  | chr1
  | prg
  deriving DecidableEq, Repr

structure Mmc1 where
  -- The bits collected so far, the first of them lowest.
  shift : BitVec 5 := 0
  collected : Fin 5 := 0
  control : BitVec 5 := 0b01100
  chr0 : BitVec 5 := 0
  chr1 : BitVec 5 := 0
  prg : BitVec 5 := 0
  deriving DecidableEq, Repr

namespace Mmc1

def powerOn : Mmc1 := {}

def Register.selected (a : UInt16) : Register :=
  match a.toNat / 0x2000 % 4 with
  | 0 => .control
  | 1 => .chr0
  | 2 => .chr1
  | _ => .prg

def assign (m : Mmc1) (register : Register) (v : BitVec 5) : Mmc1 :=
  match register with
  | .control => {m with control := v}
  | .chr0 => {m with chr0 := v}
  | .chr1 => {m with chr1 := v}
  | .prg => {m with prg := v}

def shifted (m : Mmc1) (v : UInt8) : BitVec 5 :=
  m.shift ||| ((BitVec.ofNat 5 (v.toNat % 2)) <<< m.collected.val)

-- The value that a write completes: it is the fifth bit since the last value or abandonment.
def completes? (m : Mmc1) (v : UInt8) : Option (BitVec 5) :=
  if hasBit v 0x80 then none else if m.collected = 4 then some (m.shifted v) else none

def discard (m : Mmc1) : Mmc1 := {m with shift := 0,collected := 0}

def write (m : Mmc1) (a : UInt16) (v : UInt8) : Mmc1 :=
  if hasBit v 0x80 then {m.discard with control := m.control ||| 0b01100}
  else if m.collected = 4 then (m.assign (Register.selected a) (m.shifted v)).discard
  else {m with shift := m.shifted v,collected := m.collected + 1}

theorem write_abandons (m : Mmc1) (a : UInt16) (v : UInt8) (top : hasBit v 0x80 = true) :
    m.write a v = {m.discard with control := m.control ||| 0b01100} := by
  simp [write,top]

theorem write_collects (m : Mmc1) (a : UInt16) (v : UInt8) (top : hasBit v 0x80 = false)
    (room : m.collected ≠ 4) :
    m.write a v = {m with shift := m.shifted v,collected := m.collected + 1} := by
  simp [write,top,room]

theorem write_completes (m : Mmc1) (a : UInt16) (v : UInt8) (value : BitVec 5)
    (complete : m.completes? v = some value) :
    m.write a v = (m.assign (Register.selected a) value).discard := by
  unfold completes? at complete
  split at complete
  · cases complete
  · rename_i top
    split at complete
    · rename_i full
      cases complete
      simp [write,top,full]
    · cases complete

-- 0 and 1 switch both halves of the program window as one bank, 2 keeps the first bank in the lower
-- half, and 3 keeps the last bank in the upper half.
def prgMode (m : Mmc1) : Nat := m.control.toNat / 4 % 4

-- 0 switches both halves of the pattern window as one bank, 1 switches each by itself.
def chrMode (m : Mmc1) : Nat := m.control.toNat / 16 % 2

def ramEnabled (m : Mmc1) : Bool := m.prg.toNat / 16 == 0

-- A four-screen board brings nametable memory of its own, which the registers cannot rearrange.
def mirroring (m : Mmc1) (board : Mirroring) : Mirroring :=
  match board with
  | .fourScreen => .fourScreen
  | _ =>
    match m.control.toNat % 4 with
    | 0 => .singleScreenLower
    | 1 => .singleScreenUpper
    | 2 => .vertical
    | _ => .horizontal

def prgBank (m : Mmc1) (count : Nat) (upper : Bool) : Nat :=
  let select := m.prg.toNat % 16
  match m.prgMode with
  | 2 => if upper then select else 0
  | 3 => if upper then count - 1 else select
  | _ => select / 2 * 2 + upper.toNat

def prgOffset (m : Mmc1) (size : Nat) (a : UInt16) : Nat :=
  let count := size / prgBankSize
  wrapBank (m.prgBank count (0xC000 ≤ a)) count * prgBankSize + a.toNat % prgBankSize

def chrBank (m : Mmc1) (upper : Bool) : Nat :=
  if m.chrMode = 0 then m.chr0.toNat / 2 * 2 + upper.toNat
  else if upper then m.chr1.toNat else m.chr0.toNat

def chrOffset (m : Mmc1) (size : Nat) (a : UInt16) : Nat :=
  let count := max 1 (size / 0x1000)
  wrapBank (m.chrBank (0x1000 ≤ a.toNat % 0x2000)) count * 0x1000 + a.toNat % 0x1000

end Mmc1
end Famicom
