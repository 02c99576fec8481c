import Famicom.Proofs.Cartridge.Sections
import Famicom.Proofs.Cartridge.Wrapping

namespace Famicom

namespace Mmc1

def programBank (m : Mmc1) (count : Nat) (upper : Bool) : Nat :=
  let select := m.prg.toNat &&& 15
  match m.prgMode, upper with
  | 3, true => count - 1
  | 2, false => 0
  | 3, false | 2, true => wrapBank select count
  | _, false => wrapBank (select &&& 0b1110) count
  | _, true => wrapBank (select ||| 1) count

def patternBank (m : Mmc1) (count : Nat) (upper : Bool) : Nat :=
  match m.chrMode, upper with
  | 0, false => wrapBank (m.chr0.toNat &&& 0b11110) count
  | 0, true => wrapBank (m.chr0.toNat ||| 1) count
  | _, false => wrapBank m.chr0.toNat count
  | _, true => wrapBank m.chr1.toNat count

theorem low_cleared (v : BitVec 5) : v.toNat / 2 * 2 = v.toNat &&& 0b11110 := by
  revert v
  decide

theorem low_set (v : BitVec 5) : v.toNat / 2 * 2 + 1 = v.toNat ||| 1 := by
  revert v
  decide

theorem select_cleared (v : BitVec 5) : v.toNat % 16 / 2 * 2 = v.toNat &&& 15 &&& 0b1110 := by
  revert v
  decide

theorem select_set (v : BitVec 5) : v.toNat % 16 / 2 * 2 + 1 = v.toNat &&& 15 ||| 1 := by
  revert v
  decide

theorem prgMode_lt (m : Mmc1) : m.prgMode < 4 := Nat.mod_lt _ (by decide)

theorem chrMode_lt (m : Mmc1) : m.chrMode < 2 := Nat.mod_lt _ (by decide)

variable (m : Mmc1) {count : Nat}

theorem prgBank_shown (some : 0 < count) (upper : Bool) :
    wrapBank (m.prgBank count upper) count = m.programBank count upper := by
  have select : m.prg.toNat % 16 = m.prg.toNat &&& 15 := (Nat.and_two_pow_sub_one_eq_mod _ 4).symm
  have range := m.prgMode_lt
  unfold prgBank programBank
  generalize m.prgMode = mode at range
  match mode, upper, range with
  | 0, false, _ | 1, false, _ => exact congrArg (wrapBank · count) (select_cleared m.prg)
  | 0, true, _ | 1, true, _ => exact congrArg (wrapBank · count) (select_set m.prg)
  | 2, false, _ => exact wrapBank_there some
  | 2, true, _ | 3, false, _ => exact congrArg (wrapBank · count) select
  | 3, true, _ => exact wrapBank_there (Nat.sub_lt some Nat.one_pos)

theorem chrBank_shown (upper : Bool) : wrapBank (m.chrBank upper) count = m.patternBank count upper := by
  have range := m.chrMode_lt
  unfold chrBank patternBank
  generalize m.chrMode = mode at range
  match mode, upper, range with
  | 0, false, _ => exact congrArg (wrapBank · count) (low_cleared m.chr0)
  | 0, true, _ => exact congrArg (wrapBank · count) (low_set m.chr0)
  | 1, false, _ | 1, true, _ => rfl

theorem programBank_lt (some : 0 < count) (upper : Bool) : m.programBank count upper < count := by
  rw [← m.prgBank_shown some]
  exact wrapBank_lt _ _ some

theorem patternBank_lt (some : 0 < count) (upper : Bool) : m.patternBank count upper < count := by
  rw [← chrBank_shown]
  exact wrapBank_lt _ _ some

theorem programBank_pair (paired : m.prgMode < 2) (even : count % 2 = 0) (some : 0 < count) :
    ∃ pair, m.programBank count false = 2 * pair ∧ m.programBank count true = 2 * pair + 1 := by
  have wanted : ∀ upper : Bool, m.prgBank count upper = 2 * (m.prg.toNat % 16 / 2) + upper.toNat := by
    intro upper
    rw [Nat.mul_comm 2]
    unfold prgBank
    split
    · omega
    · omega
    · rfl
  rw [← m.prgBank_shown some,← m.prgBank_shown some,wanted,wanted]
  exact wrapBank_pair even some _

theorem patternBank_pair (paired : m.chrMode = 0) (even : count % 2 = 0) (some : 0 < count) :
    ∃ pair, m.patternBank count false = 2 * pair ∧ m.patternBank count true = 2 * pair + 1 := by
  have wanted : ∀ upper : Bool, m.chrBank upper = 2 * (m.chr0.toNat / 2) + upper.toNat := by
    intro upper
    rw [Nat.mul_comm 2]
    exact if_pos paired
  rw [← chrBank_shown,← chrBank_shown,wanted,wanted]
  exact wrapBank_pair even some _

end Mmc1

-- An offset lies in a bank of so many bytes that its memory has in full, at the place that the address picks.
structure InBank (size length bank : Nat) (a : UInt16) (offset : Nat) : Prop where
  full : bank < length / size
  place : offset = bank * size + a.toNat % size
  inside : offset < length

theorem InBank.of_place {size length bank : Nat} {a : UInt16} {offset : Nat} (some : 0 < size)
    (full : bank < length / size) (place : offset = bank * size + a.toNat % size) : InBank size length bank a offset := by
  refine ⟨full,place,?_⟩
  rw [place]
  exact Nat.lt_of_lt_of_le (Mapper.bank_lt full (Nat.mod_lt _ some)) (Nat.div_mul_le_self length size)

namespace Mmc1

variable (m : Mmc1) {length : Nat} (a : UInt16)

theorem prgOffset_inBank (full : prgBankSize ≤ length) :
    InBank prgBankSize length (m.programBank (length / prgBankSize) (0xC000 ≤ a)) a (m.prgOffset length a) := by
  have size : 0 < prgBankSize := by decide
  have some : 0 < length / prgBankSize := Nat.div_pos full size
  refine .of_place size (m.programBank_lt some _) ?_
  rw [prgOffset,m.prgBank_shown some]

theorem chrOffset_inBank (full : 0x1000 ≤ length) :
    InBank 0x1000 length (m.patternBank (length / 0x1000) (0x1000 ≤ a.toNat % 0x2000)) a (m.chrOffset length a) := by
  have size : 0 < 0x1000 := by decide
  have some : 0 < length / 0x1000 := Nat.div_pos full size
  refine .of_place size (m.patternBank_lt some _) ?_
  simp only [chrOffset,Nat.max_eq_right some,chrBank_shown]

theorem prgOffset_short (short : length < prgBankSize) : m.prgOffset length a = a.toNat % prgBankSize := by
  have none : length / prgBankSize = 0 := Nat.div_eq_of_lt short
  rw [prgOffset,none,wrapBank,if_pos rfl,Nat.zero_mul,Nat.zero_add]

theorem chrOffset_short (short : length < 0x1000) : m.chrOffset length a = a.toNat % 0x1000 := by
  have one : max 1 (length / 0x1000) = 1 := by rw [Nat.div_eq_of_lt short]; rfl
  have first : ∀ bank, wrapBank bank 1 = 0 := fun bank => Nat.lt_one_iff.mp (wrapBank_lt bank 1 Nat.one_pos)
  simp only [chrOffset,one,first,Nat.zero_mul,Nat.zero_add]

variable {pair : Nat}

theorem prgOffset_paired (full : prgBankSize ≤ length) (lower : m.programBank (length / prgBankSize) false = 2 * pair)
    (upper : m.programBank (length / prgBankSize) true = 2 * pair + 1) (window : 0x8000 ≤ a) :
    m.prgOffset length a = pair * 0x8000 + a.toNat % 0x8000 := by
  have range := a.toNat_lt
  rw [(m.prgOffset_inBank a full).place]
  rw [UInt16.le_iff_toNat_le] at window
  by_cases half : 0xC000 ≤ a
  · rw [decide_eq_true half,upper]
    rw [UInt16.le_iff_toNat_le] at half
    simp only [prgBankSize,UInt16.reduceToNat] at window half ⊢
    omega
  · rw [decide_eq_false half,lower]
    rw [UInt16.le_iff_toNat_le] at half
    simp only [prgBankSize,UInt16.reduceToNat] at window half ⊢
    omega

theorem chrOffset_paired (full : 0x1000 ≤ length) (lower : m.patternBank (length / 0x1000) false = 2 * pair)
    (upper : m.patternBank (length / 0x1000) true = 2 * pair + 1) :
    m.chrOffset length a = pair * 0x2000 + a.toNat % 0x2000 := by
  rw [(m.chrOffset_inBank a full).place]
  by_cases half : 0x1000 ≤ a.toNat % 0x2000
  · rw [decide_eq_true half,upper]
    omega
  · rw [decide_eq_false half,lower]
    omega

end Mmc1

theorem byte_there {memory : Array UInt8} {offset : Nat} (inside : offset < memory.size) :
    memory[offset]? = some (memory.getD offset 0) := by
  rw [Array.getD_eq_getD_getElem?,Array.getElem?_eq_getElem inside,Option.getD_some]

namespace Mapper

-- An address of a window always has a byte where there is a full bank, of the bank that the registers pick, and a write
-- goes where a read does. Paired banks fill the window without a seam. Where there is no full bank the low bits alone
-- pick the byte, and there may be none.
theorem windows_told (m : Mmc1) (prg chr : Array UInt8) :
    (prgBankSize ≤ prg.size → ∀ a, 0x8000 ≤ a → ∃ offset,
      InBank prgBankSize prg.size (m.programBank (prg.size / prgBankSize) (0xC000 ≤ a)) a offset ∧
        prg[offset]? = some ((mmc1 m).prgRead prg a)) ∧
    (prgBankSize ≤ prg.size → prg.size / prgBankSize % 2 = 0 → m.prgMode < 2 → ∃ pair,
      m.programBank (prg.size / prgBankSize) false = 2 * pair ∧
      m.programBank (prg.size / prgBankSize) true = 2 * pair + 1 ∧
        ∀ a, 0x8000 ≤ a → prg[pair * 0x8000 + a.toNat % 0x8000]? = some ((mmc1 m).prgRead prg a)) ∧
    (prg.size < prgBankSize → ∀ a, (mmc1 m).prgRead prg a = prg.getD (a.toNat % prgBankSize) 0) ∧
    (0x1000 ≤ chr.size → ∀ a, ∃ offset,
      InBank 0x1000 chr.size (m.patternBank (chr.size / 0x1000) (0x1000 ≤ a.toNat % 0x2000)) a offset ∧
        chr[offset]? = some ((mmc1 m).chrRead chr a) ∧
        ∀ v, (mmc1 m).chrWrite chr a v = chr.setIfInBounds offset v) ∧
    (0x1000 ≤ chr.size → chr.size / 0x1000 % 2 = 0 → m.chrMode = 0 → ∃ pair,
      m.patternBank (chr.size / 0x1000) false = 2 * pair ∧
      m.patternBank (chr.size / 0x1000) true = 2 * pair + 1 ∧
        ∀ a, chr[pair * 0x2000 + a.toNat % 0x2000]? = some ((mmc1 m).chrRead chr a) ∧
          ∀ v, (mmc1 m).chrWrite chr a v = chr.setIfInBounds (pair * 0x2000 + a.toNat % 0x2000) v) ∧
    (chr.size < 0x1000 → ∀ a, (mmc1 m).chrRead chr a = chr.getD (a.toNat % 0x1000) 0 ∧
      ∀ v, (mmc1 m).chrWrite chr a v =
        if inside : a.toNat % 0x1000 < chr.size then chr.set (a.toNat % 0x1000) v else chr) ∧
    (∀ bank count, bank < count → wrapBank bank count = bank) ∧
    ∀ bank count, count.isPowerOfTwo → wrapBank bank count = bank % count := by
  refine ⟨?_,?_,?_,?_,?_,?_,fun _ _ => wrapBank_there,fun bank _ => wrapBank_power bank⟩
  · intro full a _
    have shown := m.prgOffset_inBank a full
    exact ⟨_,shown,byte_there shown.inside⟩
  · intro full even paired
    obtain ⟨pair,lower,upper⟩ := m.programBank_pair paired even (Nat.div_pos full (by decide))
    refine ⟨pair,lower,upper,?_⟩
    intro a window
    rw [← m.prgOffset_paired a full lower upper window]
    exact byte_there (m.prgOffset_inBank a full).inside
  · intro short a
    exact congrArg (prg.getD · 0) (m.prgOffset_short a short)
  · intro full a
    have shown := m.chrOffset_inBank a full
    exact ⟨_,shown,byte_there shown.inside,fun _ => rfl⟩
  · intro full even paired
    obtain ⟨pair,lower,upper⟩ := m.patternBank_pair paired even (Nat.div_pos full (by decide))
    refine ⟨pair,lower,upper,?_⟩
    intro a
    rw [← m.chrOffset_paired a full lower upper]
    exact ⟨byte_there (m.chrOffset_inBank a full).inside,fun _ => rfl⟩
  · intro short a
    have place : (mmc1 m).chrOffset chr.size a = a.toNat % 0x1000 := m.chrOffset_short a short
    refine ⟨congrArg (chr.getD · 0) place,?_⟩
    intro v
    rw [chrWrite,place]
    rfl

def numbered (size : Nat) : Array UInt8 := .ofFn fun i : Fin (6 * size) => .ofNat (i.val / size)

def beyond : Mmc1 := {Mmc1.powerOn with control := 0b00000,prg := 0b11011,chr0 := 0b11111}

theorem numbered_size (size : Nat) : (numbered size).size = 6 * size := Array.size_ofFn

theorem numbered_byte {size i : Nat} (inside : i < 6 * size) : (numbered size)[i]? = some (.ofNat (i / size)) := by
  rw [numbered,Array.getElem?_ofFn,dif_pos inside]

theorem beyond_told :
    prgBankSize ≤ (numbered prgBankSize).size ∧ (numbered prgBankSize).size / prgBankSize % 2 = 0 ∧
      0x1000 ≤ (numbered 0x1000).size ∧ (numbered 0x1000).size / 0x1000 % 2 = 0 ∧ beyond.prgMode < 2 ∧
      beyond.chrMode = 0 ∧ (mmc1 beyond).prgRead (numbered prgBankSize) 0xBFFF = 2 ∧
      (mmc1 beyond).prgRead (numbered prgBankSize) 0xC000 = 3 ∧ (mmc1 beyond).chrRead (numbered 0x1000) 0x1000 = 1 ∧
      (mmc1 beyond).prgRead #[7,8,9] 0xC001 = 8 ∧ (mmc1 beyond).chrWrite #[7,8,9] 0x1003 5 = #[7,8,9] ∧
      wrapBank 3 6 = 3 ∧ wrapBank 11 8 = 3 := by
  have prgSize := numbered_size prgBankSize
  have chrSize := numbered_size 0x1000
  have program : prgBankSize ≤ (numbered prgBankSize).size := by rw [prgSize]; decide
  have programEven : (numbered prgBankSize).size / prgBankSize % 2 = 0 := by rw [prgSize]; decide
  have patterns : 0x1000 ≤ (numbered 0x1000).size := by rw [chrSize]; decide
  have patternsEven : (numbered 0x1000).size / 0x1000 % 2 = 0 := by rw [chrSize]
  obtain ⟨bank,paired,_,_,chrPaired,_,there,power⟩ := windows_told beyond (numbered prgBankSize) (numbered 0x1000)
  obtain ⟨_,_,short,_,_,chrShort,_,_⟩ := windows_told beyond #[7,8,9] #[7,8,9]
  refine ⟨program,programEven,patterns,patternsEven,by decide,by decide,?_,?_,?_,?_,?_,?_,?_⟩
  · obtain ⟨offset,shown,byte⟩ := bank program 0xBFFF (by decide)
    have place : offset = 2 * prgBankSize + 0x3FFF := shown.place.trans (by rw [prgSize]; decide)
    rw [place,numbered_byte (by decide)] at byte
    exact (Option.some.inj byte).symm
  · obtain ⟨pair,lower,_,bytes⟩ := paired program programEven (by decide)
    have first : 2 * pair = 2 * 1 := lower.symm.trans (by rw [prgSize]; decide)
    have byte := bytes 0xC000 (by decide)
    rw [Nat.eq_of_mul_eq_mul_left (by decide) first,numbered_byte (by decide)] at byte
    exact (Option.some.inj byte).symm
  · obtain ⟨pair,lower,_,bytes⟩ := chrPaired patterns patternsEven (by decide)
    have first : 2 * pair = 2 * 0 := lower.symm.trans (by rw [chrSize]; decide)
    obtain ⟨byte,_⟩ := bytes 0x1000
    rw [Nat.eq_of_mul_eq_mul_left (by decide) first,numbered_byte (by decide)] at byte
    exact (Option.some.inj byte).symm
  · exact short (by decide) 0xC001
  · exact (chrShort (by decide) 0x1003).2 5
  · exact there 3 6 (by decide)
  · exact power 11 8 ⟨3,rfl⟩

end Mapper
end Famicom
