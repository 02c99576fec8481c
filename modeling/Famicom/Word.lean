namespace Famicom

def hasBit (v mask : UInt8) : Bool := v &&& mask != 0

def word (lo hi : UInt8) : UInt16 := hi.toUInt16 * 256 + lo.toUInt16

def lowByte (w : UInt16) : UInt8 := w.toUInt8

def highByte (w : UInt16) : UInt8 := (w / 256).toUInt8

def crossesPage (a b : UInt16) : Bool := highByte a != highByte b

-- A byte as a displacement between -128 and 127, carried to the width of an address.
def displacement (v : UInt8) : UInt16 := if v < 0x80 then v.toUInt16 else v.toUInt16 + 0xFF00

theorem hasBit_testBit (v : UInt8) (place : Fin 8) :
    hasBit v (UInt8.ofNat (1 <<< place.val)) = v.toNat.testBit place.val := by
  have all : ∀ (n : Fin 256) (place : Fin 8),
      hasBit (UInt8.ofFin n) (UInt8.ofNat (1 <<< place.val)) = n.val.testBit place.val := by decide +kernel
  exact all v.toFin place

theorem word_toNat (lo hi : UInt8) : (word lo hi).toNat = hi.toNat * 256 + lo.toNat := by
  have := lo.toNat_lt
  have := hi.toNat_lt
  simp only [word,UInt16.toNat_add,UInt16.toNat_mul,UInt8.toNat_toUInt16]
  simp only [UInt16.reduceToNat]
  omega

@[simp] theorem lowByte_word (lo hi : UInt8) : lowByte (word lo hi) = lo := by
  apply UInt8.toNat_inj.mp
  have := lo.toNat_lt
  simp only [lowByte,UInt16.toNat_toUInt8,word_toNat]
  omega

@[simp] theorem highByte_word (lo hi : UInt8) : highByte (word lo hi) = hi := by
  apply UInt8.toNat_inj.mp
  have := lo.toNat_lt
  have := hi.toNat_lt
  simp only [highByte,UInt16.toNat_toUInt8,UInt16.toNat_div,word_toNat]
  simp only [UInt16.reduceToNat]
  omega

@[simp] theorem word_low_high (w : UInt16) : word (lowByte w) (highByte w) = w := by
  apply UInt16.toNat_inj.mp
  have := w.toNat_lt
  simp only [word_toNat,lowByte,highByte,UInt16.toNat_toUInt8,UInt16.toNat_div]
  simp only [UInt16.reduceToNat]
  omega

end Famicom
