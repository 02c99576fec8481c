import Famicom.Cartridge.Bank
import Mathlib.Algebra.Group.Nat.Defs
import Mathlib.Order.Bounds.Defs

namespace Famicom

variable {bank count : Nat}

theorem enclosingPower_isLeast (count : Nat) :
    IsLeast {power : Nat | power.isPowerOfTwo ∧ count ≤ power} (enclosingPower count) :=
  ⟨⟨enclosingPower_isPowerOfTwo count,le_enclosingPower count⟩,fun _ other => enclosingPower_least other.1 other.2⟩

theorem enclosingPower_le_iff {power : Nat} (two : power.isPowerOfTwo) : enclosingPower count ≤ power ↔ count ≤ power :=
  ⟨Nat.le_trans (le_enclosingPower count),enclosingPower_least two⟩

theorem enclosingPower_fits (count : Nat) : enclosingPower count < 2 ^ 64 ↔ count ≤ 2 ^ 63 := by
  obtain ⟨k,power⟩ := enclosingPower_isPowerOfTwo count
  rw [← enclosingPower_le_iff ⟨63,rfl⟩,power,Nat.pow_lt_pow_iff_right (by decide),Nat.pow_le_pow_iff_right (by decide)]
  exact Nat.lt_succ_iff

-- Half of the power would be too little, or it would be the least itself.
theorem enclosingPower_lt_double (some : 0 < count) : enclosingPower count < 2 * count := by
  obtain ⟨k,power⟩ := enclosingPower_isPowerOfTwo count
  cases k with
  | zero => omega
  | succ k =>
      have half : 2 ^ k < count := by
        apply Nat.lt_of_not_le
        intro enclosed
        have least := enclosingPower_least ⟨k,rfl⟩ enclosed
        rw [power] at least
        exact absurd least (Nat.not_le_of_lt (Nat.pow_lt_pow_succ (by decide)))
      rw [power,Nat.pow_succ,Nat.mul_comm]
      exact Nat.mul_lt_mul_of_pos_left half (by decide)

theorem enclosingPower_of_power (power : count.isPowerOfTwo) : enclosingPower count = count :=
  Nat.le_antisymm (enclosingPower_least power (Nat.le_refl _)) (le_enclosingPower _)

theorem wrapBank_remainders (bank count : Nat) : wrapBank bank count = bank % enclosingPower count % count := by
  obtain ⟨k,power⟩ := enclosingPower_isPowerOfTwo count
  rw [wrapBank,power,Nat.and_two_pow_sub_one_eq_mod]
  split
  · rename_i none
    rw [← power,none,Nat.mod_zero]
    exact (Nat.mod_one bank).symm
  · rfl

theorem wrapBank_there (there : bank < count) : wrapBank bank count = bank := by
  have enclosed : bank < enclosingPower count := Nat.lt_of_lt_of_le there (le_enclosingPower count)
  rw [wrapBank_remainders,Nat.mod_eq_of_lt enclosed,Nat.mod_eq_of_lt there]

theorem wrapBank_power (bank : Nat) (power : count.isPowerOfTwo) : wrapBank bank count = bank % count := by
  rw [wrapBank_remainders,enclosingPower_of_power power,Nat.mod_mod]

theorem wrapBank_none (bank : Nat) : wrapBank bank 0 = 0 := if_pos rfl

theorem wrapBank_first (count : Nat) : wrapBank 0 count = 0 := by
  rw [wrapBank_remainders,Nat.zero_mod,Nat.zero_mod]

theorem wrapBank_wrapped (bank count : Nat) : wrapBank (wrapBank bank count) count = wrapBank bank count := by
  rcases Nat.eq_zero_or_pos count with rfl | some
  · rw [wrapBank_none,wrapBank_none]
  · exact wrapBank_there (wrapBank_lt bank count some)

theorem wrapBank_reaches (some : 0 < count) (shown : Nat) : (∃ bank, wrapBank bank count = shown) ↔ shown < count := by
  constructor
  · rintro ⟨bank,rfl⟩
    exact wrapBank_lt bank count some
  · intro there
    exact ⟨shown,wrapBank_there there⟩

theorem wrapBank_congr {other : Nat} (same : bank % enclosingPower count = other % enclosingPower count) :
    wrapBank bank count = wrapBank other count := by
  rw [wrapBank_remainders,wrapBank_remainders,same]

theorem wrapBank_moved {step : Nat} (some : 0 < count) (moves : 0 < step) (short : step < enclosingPower count) :
    ∃ bank, wrapBank (bank + step) count ≠ wrapBank bank count := by
  -- A step short of the power does not keep every bank. If it leads to a bank that is there, bank 0 moves to that one.
  -- Otherwise what it lacks of the power is a bank that is there, since a count is more than half of its power, and this
  -- one moves to bank 0.
  by_cases there : step < count
  · refine ⟨0,?_⟩
    rw [Nat.zero_add,wrapBank_there there,wrapBank_first]
    exact Nat.ne_of_gt moves
  · have lacking : enclosingPower count - step < count := by
      have := enclosingPower_lt_double some
      omega
    refine ⟨enclosingPower count - step,?_⟩
    have around : wrapBank (enclosingPower count) count = 0 := by
      rw [wrapBank_remainders,Nat.mod_self,Nat.zero_mod]
    rw [Nat.sub_add_cancel (Nat.le_of_lt short),around,wrapBank_there lacking]
    exact Nat.ne_of_lt (Nat.sub_pos_of_lt short)

theorem wrapBank_repeats (count step : Nat) :
    (∀ bank, wrapBank (bank + step) count = wrapBank bank count) ↔ enclosingPower count ∣ step := by
  constructor
  · intro kept
    have rest : ∀ bank, wrapBank (bank + step % enclosingPower count) count = wrapBank bank count := fun bank =>
      (wrapBank_congr (Nat.add_mod_mod ..)).trans (kept bank)
    rcases Nat.eq_zero_or_pos count with rfl | some
    · exact Nat.one_dvd step
    · apply Nat.dvd_of_mod_eq_zero
      apply Nat.eq_zero_of_not_pos
      intro moves
      obtain ⟨bank,moved⟩ := wrapBank_moved some moves (Nat.mod_lt step (enclosingPower_pos count))
      exact moved (rest bank)
  · rintro ⟨times,rfl⟩ bank
    exact wrapBank_congr (Nat.add_mul_mod_self_left ..)

theorem enclosingPower_even (even : count % 2 = 0) (some : 0 < count) : enclosingPower count % 2 = 0 := by
  obtain ⟨k,power⟩ := enclosingPower_isPowerOfTwo count
  have enclosed := le_enclosingPower count
  cases k with
  | zero =>
      rw [power] at enclosed
      omega
  | succ k =>
      rw [power,Nat.pow_succ]
      exact Nat.mul_mod_left ..

theorem mod_pair {n : Nat} (even : n % 2 = 0) (some : 0 < n) (k : Nat) :
    ∃ pair, 2 * k % n = 2 * pair ∧ (2 * k + 1) % n = 2 * pair + 1 := by
  obtain ⟨half,rfl⟩ : ∃ half, n = 2 * half := ⟨n / 2,by omega⟩
  have below : k % half < half := Nat.mod_lt _ (by omega)
  refine ⟨k % half,Nat.mul_mod_mul_left ..,?_⟩
  rw [Nat.add_mod,Nat.mul_mod_mul_left,Nat.mod_eq_of_lt (show 1 < 2 * half by omega),Nat.mod_eq_of_lt (by omega)]

theorem wrapBank_pair (even : count % 2 = 0) (some : 0 < count) (k : Nat) :
    ∃ pair, wrapBank (2 * k) count = 2 * pair ∧ wrapBank (2 * k + 1) count = 2 * pair + 1 := by
  obtain ⟨half,low,next⟩ := mod_pair (enclosingPower_even even some) (enclosingPower_pos count) k
  rw [wrapBank_remainders,wrapBank_remainders,low,next]
  exact mod_pair even some half

-- What a number becomes is settled by its remainder by the least power of two that is not below the count. That power has
-- room in a word of 64 bits for the counts up to 2 ^ 63.
theorem wrapping_told (count : Nat) :
    (∀ bank, wrapBank bank 0 = 0) ∧
    (0 < count → (∀ bank, wrapBank bank count < count) ∧
      ∀ shown, (∃ bank, wrapBank bank count = shown) ↔ shown < count) ∧
    (∀ bank, bank < count → wrapBank bank count = bank) ∧
    (count.isPowerOfTwo → ∀ bank, wrapBank bank count = bank % count) ∧
    IsLeast {power : Nat | power.isPowerOfTwo ∧ count ≤ power} (enclosingPower count) ∧
    (enclosingPower count < 2 ^ 64 ↔ count ≤ 2 ^ 63) ∧
    (∀ bank other, bank % enclosingPower count = other % enclosingPower count →
      wrapBank bank count = wrapBank other count) ∧
    (∀ step, (∀ bank, wrapBank (bank + step) count = wrapBank bank count) ↔ enclosingPower count ∣ step) ∧
    (∀ bank, wrapBank (wrapBank bank count) count = wrapBank bank count) ∧
    (count % 2 = 0 → 2 ≤ count → ∀ k, ∃ pair,
      wrapBank (2 * k) count = 2 * pair ∧ wrapBank (2 * k + 1) count = 2 * pair + 1) := by
  refine ⟨wrapBank_none,?_,fun _ => wrapBank_there,fun power bank => wrapBank_power bank power,
    enclosingPower_isLeast count,enclosingPower_fits count,fun _ _ => wrapBank_congr,wrapBank_repeats count,
    fun bank => wrapBank_wrapped bank count,?_⟩
  · intro some
    exact ⟨fun bank => wrapBank_lt bank count some,wrapBank_reaches some⟩
  · intro even several k
    exact wrapBank_pair even (Nat.lt_of_lt_of_le Nat.two_pos several) k

theorem sixBanks_wrapped :
    0 < 6 ∧ 6 % 2 = 0 ∧ 2 ≤ 6 ∧ (8 : Nat).isPowerOfTwo ∧ wrapBank 7 6 < 6 ∧ wrapBank 5 6 = 5 ∧ wrapBank 11 8 = 3 ∧
      15 % enclosingPower 6 = 7 % enclosingPower 6 ∧ wrapBank 15 6 = wrapBank 7 6 ∧
      (∀ bank, wrapBank (bank + 8) 6 = wrapBank bank 6) ∧ ¬ (∀ bank, wrapBank (bank + 6) 6 = wrapBank bank 6) ∧
      (∃ pair, wrapBank 14 6 = 2 * pair ∧ wrapBank 15 6 = 2 * pair + 1) ∧ enclosingPower (2 ^ 63) < 2 ^ 64 := by
  obtain ⟨_,inside,there,_,_,_,same,repeats,_,paired⟩ := wrapping_told 6
  obtain ⟨_,_,_,power,_⟩ := wrapping_told 8
  obtain ⟨_,_,_,_,_,fits,_⟩ := wrapping_told (2 ^ 63)
  have eight : (8 : Nat).isPowerOfTwo := ⟨3,rfl⟩
  have remainder : 15 % enclosingPower 6 = 7 % enclosingPower 6 := by decide
  refine ⟨by decide,by decide,by decide,eight,(inside (by decide)).1 7,there 5 (by decide),power eight 11,remainder,
    same 15 7 remainder,(repeats 8).mpr (by decide),?_,paired (by decide) (by decide) 7,fits.mpr (Nat.le_refl _)⟩
  rw [repeats]
  decide

end Famicom
