import Famicom.Proofs.Cartridge.BankWindows

namespace Famicom

def marked (size i : Nat) : Array UInt8 := (Array.replicate size 0).setIfInBounds i 1

theorem marked_size (size i : Nat) : (marked size i).size = size := by
  rw [marked,Array.size_setIfInBounds,Array.size_replicate]

theorem marked_getD {size i : Nat} (there : i < size) (j : Nat) :
    (marked size i).getD j 0 = if i = j then 1 else 0 := by
  rw [marked,Array.getD_eq_getD_getElem?,Array.getElem?_setIfInBounds,Array.size_replicate,Array.getElem?_replicate]
  split
  · rfl
  · split <;> rfl

section
variable {size i j : Nat} (there : i < size)
include there

theorem reads_apart : (∀ memory : Array UInt8, memory.size = size → memory.getD i 0 = memory.getD j 0) ↔ i = j := by
  constructor
  · intro same
    apply Decidable.byContradiction
    intro apart
    have here := same (marked size i) (marked_size size i)
    rw [marked_getD there,marked_getD there,if_pos rfl,if_neg apart] at here
    exact absurd here (by decide)
  · rintro rfl memory _
    rfl

theorem writes_apart :
    (∀ memory : Array UInt8, memory.size = size → ∀ v, memory.setIfInBounds i v = memory.setIfInBounds j v) ↔
      i = j := by
  constructor
  · intro same
    apply Decidable.byContradiction
    intro apart
    have here := congrArg (·.getD i 0) (same (Array.replicate size 0) Array.size_replicate 1)
    simp only [Array.getD_eq_getD_getElem?,Array.getElem?_setIfInBounds,Array.size_replicate,
      Array.getElem?_replicate,if_pos there,if_neg (Ne.symm apart)] at here
    exact absurd here (by decide)
  · rintro rfl memory _ v
    rfl

end

namespace Mapper

variable (m : Mmc1)

theorem prgOffset_single (a : UInt16) : (mmc1 m).prgOffset prgBankSize a = nrom.prgOffset prgBankSize a := by
  have shown := m.prgOffset_inBank a (Nat.le_refl prgBankSize)
  have first : m.programBank (prgBankSize / prgBankSize) (0xC000 ≤ a) = 0 := Nat.lt_one_iff.mp shown.full
  have place := shown.place
  rw [first,Nat.zero_mul,Nat.zero_add] at place
  exact place.trans (Nat.mod_mod_of_dvd a.toNat (by decide)).symm

theorem prgOffset_double (a : UInt16) (window : 0x8000 ≤ a) :
    (mmc1 m).prgOffset 0x8000 a = nrom.prgOffset 0x8000 a ↔
      m.programBank 2 (0xC000 ≤ a) = (decide (0xC000 ≤ a)).toNat := by
  have place : (mmc1 m).prgOffset 0x8000 a = m.programBank 2 (0xC000 ≤ a) * 0x4000 + a.toNat % 0x4000 :=
    (m.prgOffset_inBank a (show prgBankSize ≤ 0x8000 by decide)).place
  have range := a.toNat_lt
  rw [place,prgOffset,Nrom.prgOffset]
  rw [UInt16.le_iff_toNat_le] at window
  by_cases upper : 0xC000 ≤ a
  · rw [decide_eq_true upper]
    rw [UInt16.le_iff_toNat_le] at upper
    simp only [Bool.toNat_true,UInt16.reduceToNat] at window upper ⊢
    omega
  · rw [decide_eq_false upper]
    rw [UInt16.le_iff_toNat_le] at upper
    simp only [Bool.toNat_false,UInt16.reduceToNat] at window upper ⊢
    omega

theorem chrOffset_double (a : UInt16) :
    (mmc1 m).chrOffset 0x2000 a = nrom.chrOffset 0x2000 a ↔
      m.patternBank 2 (0x1000 ≤ a.toNat % 0x2000) = (decide (0x1000 ≤ a.toNat % 0x2000)).toNat := by
  have place : (mmc1 m).chrOffset 0x2000 a =
      m.patternBank 2 (0x1000 ≤ a.toNat % 0x2000) * 0x1000 + a.toNat % 0x1000 :=
    (m.chrOffset_inBank a (show 0x1000 ≤ 0x2000 by decide)).place
  rw [place,chrOffset,Nrom.chrOffset]
  by_cases upper : 0x1000 ≤ a.toNat % 0x2000
  · rw [decide_eq_true upper,Bool.toNat_true]
    omega
  · rw [decide_eq_false upper,Bool.toNat_false]
    omega

theorem wrapBank_two (bank : Nat) : wrapBank bank 2 = bank % 2 := wrapBank_power bank ⟨1,rfl⟩

theorem programBank_straight : (∀ upper : Bool, m.programBank 2 upper = upper.toNat) ↔
    m.prgMode = 0 ∨ m.prgMode = 1 ∨ m.prgMode = 3 ∧ (m.prg.toNat &&& 15) % 2 = 0 ∨
      m.prgMode = 2 ∧ (m.prg.toNat &&& 15) % 2 = 1 := by
  have range := m.prgMode_lt
  have select : m.prg.toNat &&& 15 = m.prg.toNat % 16 := Nat.and_two_pow_sub_one_eq_mod _ 4
  rw [Bool.forall_bool,← m.prgBank_shown (by decide),← m.prgBank_shown (by decide),wrapBank_two,wrapBank_two,select]
  unfold Mmc1.prgBank
  generalize m.prgMode = mode at range
  match mode, range with
  | 0, _ | 1, _ | 2, _ | 3, _ =>
      simp only [Bool.toNat_false,Bool.toNat_true,Bool.false_eq_true,if_false,if_true,true_or,or_true,true_and,and_true,
        iff_true]
      omega

theorem patternBank_straight : (∀ upper : Bool, m.patternBank 2 upper = upper.toNat) ↔
    m.chrMode = 0 ∨ m.chrMode = 1 ∧ m.chr0.toNat % 2 = 0 ∧ m.chr1.toNat % 2 = 1 := by
  have range := m.chrMode_lt
  rw [Bool.forall_bool,← m.chrBank_shown,← m.chrBank_shown,wrapBank_two,wrapBank_two]
  unfold Mmc1.chrBank
  split <;> simp only [Bool.toNat_false,Bool.toNat_true,Bool.false_eq_true,if_false,if_true] <;> omega

section
variable {m n : Mapper} {size : Nat} {a : UInt16}

-- Two boards agree about an address for every content of a memory if they find one place for it.
theorem prgRead_apart (inside : m.prgOffset size a < size) :
    (∀ prg : Array UInt8, prg.size = size → m.prgRead prg a = n.prgRead prg a) ↔
      m.prgOffset size a = n.prgOffset size a := by
  rw [← reads_apart inside]
  refine forall_congr' fun prg => forall_congr' fun same => ?_
  rw [prgRead,prgRead,same]

theorem chrRead_apart (inside : m.chrOffset size a < size) :
    (∀ chr : Array UInt8, chr.size = size → m.chrRead chr a = n.chrRead chr a) ↔
      m.chrOffset size a = n.chrOffset size a := by
  rw [← reads_apart inside]
  refine forall_congr' fun chr => forall_congr' fun same => ?_
  rw [chrRead,chrRead,same]

theorem chrWrite_apart (inside : m.chrOffset size a < size) :
    (∀ chr : Array UInt8, chr.size = size → ∀ v, m.chrWrite chr a v = n.chrWrite chr a v) ↔
      m.chrOffset size a = n.chrOffset size a := by
  rw [← writes_apart inside]
  refine forall_congr' fun chr => forall_congr' fun same => forall_congr' fun v => ?_
  rw [chrWrite,chrWrite,same]

end

theorem prgOffsets_double : (∀ a, 0x8000 ≤ a → (mmc1 m).prgOffset 0x8000 a = nrom.prgOffset 0x8000 a) ↔
    ∀ upper : Bool, m.programBank 2 upper = upper.toNat := by
  constructor
  · intro same upper
    cases upper with
    | false => exact (prgOffset_double m 0x8000 (by decide)).mp (same 0x8000 (by decide))
    | true => exact (prgOffset_double m 0xC000 (by decide)).mp (same 0xC000 (by decide))
  · intro straight a window
    exact (prgOffset_double m a window).mpr (straight _)

theorem chrOffsets_double : (∀ a, (mmc1 m).chrOffset 0x2000 a = nrom.chrOffset 0x2000 a) ↔
    ∀ upper : Bool, m.patternBank 2 upper = upper.toNat := by
  constructor
  · intro same upper
    cases upper with
    | false => exact (chrOffset_double m 0x0000).mp (same 0x0000)
    | true => exact (chrOffset_double m 0x1000).mp (same 0x1000)
  · intro straight a
    exact (chrOffset_double m a).mpr (straight _)

-- On a memory of one bank of program the boards agree whatever the registers hold; on one of two banks, or of one bank of
-- patterns, just where the registers put both halves in their order.
theorem small_boards :
    (∀ prg : Array UInt8, prg.size = 0x4000 → ∀ a, 0x8000 ≤ a → (mmc1 m).prgRead prg a = nrom.prgRead prg a) ∧
    ((∀ prg : Array UInt8, prg.size = 0x8000 → ∀ a, 0x8000 ≤ a → (mmc1 m).prgRead prg a = nrom.prgRead prg a) ↔
      m.prgMode = 0 ∨ m.prgMode = 1 ∨ m.prgMode = 3 ∧ (m.prg.toNat &&& 15) % 2 = 0 ∨
        m.prgMode = 2 ∧ (m.prg.toNat &&& 15) % 2 = 1) ∧
    ((∀ chr : Array UInt8, chr.size = 0x2000 → ∀ a, (mmc1 m).chrRead chr a = nrom.chrRead chr a) ↔
      m.chrMode = 0 ∨ m.chrMode = 1 ∧ m.chr0.toNat % 2 = 0 ∧ m.chr1.toNat % 2 = 1) ∧
    ((∀ chr : Array UInt8, chr.size = 0x2000 → ∀ a v, (mmc1 m).chrWrite chr a v = nrom.chrWrite chr a v) ↔
      m.chrMode = 0 ∨ m.chrMode = 1 ∧ m.chr0.toNat % 2 = 0 ∧ m.chr1.toNat % 2 = 1) := by
  have program : ∀ a, (mmc1 m).prgOffset 0x8000 a < 0x8000 :=
    fun a => (m.prgOffset_inBank a (show prgBankSize ≤ 0x8000 by decide)).inside
  have patterns : ∀ a, (mmc1 m).chrOffset 0x2000 a < 0x2000 :=
    fun a => (m.chrOffset_inBank a (show 0x1000 ≤ 0x2000 by decide)).inside
  refine ⟨?_,?_,?_,?_⟩
  · intro prg size a _
    rw [prgRead,prgRead,size]
    exact congrArg (prg.getD · 0) (prgOffset_single m a)
  · rw [← programBank_straight,← prgOffsets_double]
    constructor
    · exact fun same a window => (prgRead_apart (program a)).mp fun prg size => same prg size a window
    · exact fun same prg size a window => (prgRead_apart (program a)).mpr (same a window) prg size
  · rw [← patternBank_straight,← chrOffsets_double]
    constructor
    · exact fun same a => (chrRead_apart (patterns a)).mp fun chr size => same chr size a
    · exact fun same chr size a => (chrRead_apart (patterns a)).mpr (same a) chr size
  · rw [← patternBank_straight,← chrOffsets_double]
    constructor
    · exact fun same a => (chrWrite_apart (patterns a)).mp fun chr size => same chr size a
    · exact fun same chr size a => (chrWrite_apart (patterns a)).mpr (same a) chr size

def counting : Array UInt8 := .ofFn fun i : Fin 0x4000 => .ofNat i.val

def oddBank : Mmc1 := {Mmc1.powerOn with prg := 0b00101}

theorem oddBank_parts :
    counting.size = 0x4000 ∧ 0x8000 ≤ (0xC123 : UInt16) ∧ (mmc1 oddBank).prgRead counting 0xC123 = 0x23 ∧
      ¬ (∀ prg : Array UInt8, prg.size = 0x8000 → ∀ a, 0x8000 ≤ a →
        (mmc1 oddBank).prgRead prg a = nrom.prgRead prg a) ∧
      ∀ chr : Array UInt8, chr.size = 0x2000 → ∀ a, (mmc1 oddBank).chrRead chr a = nrom.chrRead chr a := by
  obtain ⟨single,double,patterns,_⟩ := small_boards oddBank
  have size : counting.size = 0x4000 := Array.size_ofFn
  have read : nrom.prgRead counting 0xC123 = 0x23 := by
    rw [prgRead,size,counting,Array.getD_eq_getD_getElem?,Array.getElem?_ofFn]
    rfl
  refine ⟨size,by decide,(single counting size 0xC123 (by decide)).trans read,?_,patterns.mpr (by decide)⟩
  rw [double]
  decide

end Mapper
end Famicom
