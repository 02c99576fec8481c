import Famicom.Word
import Famicom.Numeral

namespace Famicom

structure Status where
  carry : Bool := false
  zero : Bool := false
  interruptDisable : Bool := false
  decimal : Bool := false
  brk : Bool := false
  unused : Bool := false
  overflow : Bool := false
  negative : Bool := false
  deriving DecidableEq, Repr

namespace Status

private def weigh (flag : Bool) (weight : UInt8) : UInt8 := if flag then weight else 0

def toByte (p : Status) : UInt8 :=
  weigh p.carry 0x01 + weigh p.zero 0x02 + weigh p.interruptDisable 0x04 + weigh p.decimal 0x08 +
    weigh p.brk 0x10 + weigh p.unused 0x20 + weigh p.overflow 0x40 + weigh p.negative 0x80

def ofByte (v : UInt8) : Status :=
  ⟨hasBit v 0x01,hasBit v 0x02,hasBit v 0x04,hasBit v 0x08,
   hasBit v 0x10,hasBit v 0x20,hasBit v 0x40,hasBit v 0x80⟩

@[simp] theorem ofByte_toByte (p : Status) : ofByte p.toByte = p := by
  obtain ⟨c,z,i,d,b,u,v,n⟩ := p
  revert c z i d b u v n
  decide

@[simp] theorem toByte_ofByte (v : UInt8) : (ofByte v).toByte = v := by
  have all : ∀ n : Fin 256, (ofByte (UInt8.ofFin n)).toByte = UInt8.ofFin n := by decide +kernel
  exact all v.toFin

def powerOn : Status := {interruptDisable := true,unused := true}

def judging (p : Status) (result : UInt8) : Status :=
  {p with zero := result == 0,negative := hasBit result 0x80}

def saved (p : Status) : UInt8 := {p with brk := true,unused := true : Status}.toByte

-- The byte that an interrupt saves: only there is the break flag clear.
def savedByInterrupt (p : Status) : UInt8 := {p with brk := false,unused := true : Status}.toByte

-- The status a saved byte restores. The break flag is a mark on the stack and not a latch.
def restored (v : UInt8) : Status := {ofByte v with brk := false,unused := true}

theorem restored_saved (p : Status) : restored p.saved = {p with brk := false,unused := true} := by
  simp [restored,saved]

theorem restored_savedByInterrupt (p : Status) :
    restored p.savedByInterrupt = {p with brk := false,unused := true} := by
  simp [restored,savedByInterrupt]

def shown (name : String) (flag : Bool) : String := name ++ (if flag then ":1" else ":0")

def text (p : Status) : String :=
  " ".intercalate [shown "C" p.carry,shown "Z" p.zero,shown "I" p.interruptDisable,shown "D" p.decimal,
    shown "B" p.brk,shown "U" p.unused,shown "V" p.overflow,shown "N" p.negative]

end Status
end Famicom
