namespace Famicom

def enclosingPower (count : Nat) : Nat := if count ≤ 1 then 1 else 1 <<< ((count - 1).log2 + 1)

theorem enclosingPower_isPowerOfTwo (count : Nat) : (enclosingPower count).isPowerOfTwo := by
  unfold enclosingPower
  split
  · exact ⟨0,rfl⟩
  · exact ⟨_,Nat.one_shiftLeft _⟩

theorem enclosingPower_pos (count : Nat) : 0 < enclosingPower count :=
  Nat.pos_of_isPowerOfTwo (enclosingPower_isPowerOfTwo count)

theorem le_enclosingPower (count : Nat) : count ≤ enclosingPower count := by
  unfold enclosingPower
  split
  · assumption
  · have below : count - 1 < 2 ^ ((count - 1).log2 + 1) := Nat.lt_log2_self
    rw [Nat.one_shiftLeft]
    omega

theorem enclosingPower_least {count power : Nat} (two : power.isPowerOfTwo) (enclosed : count ≤ power) :
    enclosingPower count ≤ power := by
  obtain ⟨k,rfl⟩ := two
  unfold enclosingPower
  split
  · exact Nat.one_le_two_pow
  · rename_i several
    rw [Nat.one_shiftLeft]
    apply Nat.pow_le_pow_right (by decide)
    have below : count - 1 < 2 ^ k := by omega
    exact Nat.succ_le_of_lt ((Nat.log2_lt (by omega)).mpr below)

-- A bank number brought into range as address lines do it: bits above the board's size are dropped,
-- and where the size is no power of two the rest wraps around once more.
def wrapBank (bank count : Nat) : Nat :=
  if count = 0 then 0 else (bank &&& (enclosingPower count - 1)) % count

theorem wrapBank_lt (bank count : Nat) (some : 0 < count) : wrapBank bank count < count := by
  have : count ≠ 0 := Nat.ne_of_gt some
  simp [wrapBank,this,Nat.mod_lt _ some]

def prgBankSize : Nat := 0x4000

def chrBankSize : Nat := 0x2000

end Famicom
