import Famicom.Cartridge.Image

namespace Famicom

theorem cut_size (image : Array UInt8) (start length : Nat) (within : start + length ≤ image.size) :
    (Cartridge.cut image start length).size = length := by
  rw [Cartridge.cut,Array.size_extract,Nat.min_eq_left within]
  exact Nat.add_sub_cancel_left ..

theorem cut_getElem? (image : Array UInt8) (start length i : Nat) (within : start + length ≤ image.size)
    (inside : i < length) : (Cartridge.cut image start length)[i]? = image[start + i]? := by
  have here : i < (Cartridge.cut image start length).size := by
    rw [cut_size image start length within]
    exact inside
  have there : start + i < image.size := by omega
  rw [Array.getElem?_eq_getElem here,Array.getElem?_eq_getElem there]
  exact congrArg some (Array.getElem_extract here)

namespace Mapper

theorem bank_lt {bank count size offset : Nat} (within : bank < count) (inside : offset < size) :
    bank * size + offset < count * size := by
  calc bank * size + offset < bank * size + size := Nat.add_lt_add_left inside _
    _ = (bank + 1) * size := (Nat.succ_mul ..).symm
    _ ≤ count * size := Nat.mul_le_mul_right size within

theorem prgOffset_lt (m : Mapper) (banks : Nat) (some : 0 < banks) (a : UInt16) :
    m.prgOffset (banks * prgBankSize) a < banks * prgBankSize := by
  have size : 0 < prgBankSize := by decide
  cases m with
  | nrom => exact Nat.mod_lt _ (Nat.mul_pos some size)
  | mmc1 registers =>
      simp only [prgOffset,Mmc1.prgOffset,Nat.mul_div_cancel _ size]
      exact bank_lt (wrapBank_lt _ _ some) (Nat.mod_lt _ size)

-- The pattern memory is switched in halves of the banks that it is counted in.
theorem chrOffset_lt (m : Mapper) (banks : Nat) (some : 0 < banks) (a : UInt16) :
    m.chrOffset (banks * chrBankSize) a < banks * chrBankSize := by
  cases m with
  | nrom => exact Nat.mod_lt _ (Nat.mul_pos some (by decide))
  | mmc1 registers =>
      have halves : banks * chrBankSize = banks * 2 * 0x1000 := by
        rw [chrBankSize]
        omega
      have count : max 1 (banks * 2 * 0x1000 / 0x1000) = banks * 2 := by omega
      simp only [chrOffset,Mmc1.chrOffset,halves,count]
      exact bank_lt (wrapBank_lt _ _ (by omega)) (Nat.mod_lt _ (by decide))

theorem ofNumber_powerOn {n : Nat} {m : Mapper} (known : ofNumber? n = some m) : m.powerOn = m := by
  unfold ofNumber? at known
  split at known <;> cases known <;> rfl

end Mapper

namespace Cartridge

structure Whole (c : Cartridge) : Prop where
  prg : ∃ banks, 0 < banks ∧ c.prg.size = banks * prgBankSize
  chr : ∃ banks, 0 < banks ∧ c.chr.size = banks * chrBankSize

theorem Whole.prgOffset {c : Cartridge} (whole : c.Whole) (a : UInt16) :
    c.mapper.prgOffset c.prg.size a < c.prg.size := by
  obtain ⟨banks,some,size⟩ := whole.prg
  rw [size]
  exact c.mapper.prgOffset_lt banks some a

theorem Whole.chrOffset {c : Cartridge} (whole : c.Whole) (a : UInt16) :
    c.mapper.chrOffset c.chr.size a < c.chr.size := by
  obtain ⟨banks,some,size⟩ := whole.chr
  rw [size]
  exact c.mapper.chrOffset_lt banks some a

structure Loaded (image : Array UInt8) (c : Cartridge) : Prop where
  parsed : Header.parse image = .ok c.header
  banks : 0 < c.header.prgBanks.toNat
  board : Mapper.ofNumber? c.header.mapperNumber = some c.mapper
  within : c.header.imageSize ≤ image.size
  sections : c = ofSections image c.header c.mapper

variable {image : Array UInt8} {c : Cartridge}

theorem load_sections {h : Header} {m : Mapper} (parsed : Header.parse image = .ok h) (banks : h.prgBanks ≠ 0)
    (board : Mapper.ofNumber? h.mapperNumber = some m) (within : h.imageSize ≤ image.size) :
    load image = .ok (ofSections image h m) := by
  unfold load
  simp only [parsed,banks,board,if_false,Nat.not_lt.mpr within]

theorem load_loaded (loaded : load image = .ok c) : Loaded image c := by
  unfold load at loaded
  cases parsed : Header.parse image with
  | error e =>
      rw [parsed] at loaded
      cases loaded
  | ok h =>
      rw [parsed] at loaded
      simp only at loaded
      split at loaded
      · cases loaded
      · rename_i banks
        split at loaded
        · cases loaded
        · rename_i board
          split at loaded
          · cases loaded
          · rename_i within
            cases loaded
            refine ⟨parsed,?_,board,Nat.le_of_not_lt within,rfl⟩
            exact Nat.pos_of_ne_zero fun none => banks (UInt8.toNat_inj.mp none)

namespace Loaded

variable (loaded : Loaded image c)
include loaded

theorem prg : c.prg = cut image (Header.size + c.header.trainerSize) c.header.prgSize := by
  rw [loaded.sections]
  rfl

theorem chr : c.chr = if c.header.chrBanks = 0 then Array.replicate chrBankSize 0
    else cut image (Header.size + c.header.trainerSize + c.header.prgSize) c.header.chrSize := by
  rw [loaded.sections]
  rfl

theorem prg_size : c.prg.size = c.header.prgSize := by
  have within := loaded.within
  rw [Header.imageSize] at within
  rw [loaded.prg]
  exact cut_size _ _ _ (by omega)

theorem chr_size : c.chr.size = max 1 c.header.chrBanks.toNat * chrBankSize := by
  have within := loaded.within
  rw [Header.imageSize] at within
  rw [loaded.chr]
  split
  · rename_i none
    rw [none,Array.size_replicate]
    rfl
  · rename_i some
    have positive : 0 < c.header.chrBanks.toNat := Nat.pos_of_ne_zero fun none => some (UInt8.toNat_inj.mp none)
    rw [cut_size _ _ _ within,Header.chrSize,Nat.max_eq_right positive]

theorem whole : c.Whole :=
  ⟨⟨_,loaded.banks,loaded.prg_size⟩,⟨_,Nat.le_max_left 1 _,loaded.chr_size⟩⟩

theorem powerOn : c.powerOn = c := by
  rw [Cartridge.powerOn,Mapper.ofNumber_powerOn loaded.board]

theorem ram (cells : Vector UInt8 0x2000) (present : c.ram = some cells) : cells = Vector.replicate _ 0 := by
  rw [loaded.sections] at present
  simp only [ofSections] at present
  split at present
  · exact (Option.some.inj present).symm
  · cases present

theorem prg_getElem? (i : Nat) (inside : i < c.header.prgSize) :
    c.prg[i]? = image[Header.size + c.header.trainerSize + i]? := by
  have within := loaded.within
  rw [Header.imageSize] at within
  rw [loaded.prg]
  exact cut_getElem? _ _ _ _ (by omega) inside

end Loaded

def singleBanked (flags : UInt8) : Array UInt8 :=
  #[0x4E,0x45,0x53,0x1A,1,1,flags,0,0,0,0,0,0,0,0,0] ++ Array.replicate (prgBankSize + chrBankSize) 0xEA

theorem parse_singleBanked (flags : UInt8) : Header.parse (singleBanked flags) = .ok ⟨1,1,flags,0⟩ := by
  have size : (singleBanked flags).size = Header.size + prgBankSize + chrBankSize := by
    simp [singleBanked,Header.size,prgBankSize,chrBankSize]
  have signed : ((singleBanked flags).extract 0 4).toList = Header.signature := by
    simp [singleBanked,Header.signature]
  simp only [Header.parse,size,signed]
  simp [Header.size,singleBanked,prgBankSize,chrBankSize]

theorem load_singleBanked (flags : UInt8) (m : Mapper) (board : Mapper.ofNumber? (flags.toNat / 16) = some m)
    (untrained : hasBit flags 0x04 = false) :
    load (singleBanked flags) = .ok (ofSections (singleBanked flags) ⟨1,1,flags,0⟩ m) := by
  have number : Header.mapperNumber ⟨1,1,flags,0⟩ = flags.toNat / 16 := by
    simp [Header.mapperNumber]
  have size : (singleBanked flags).size = Header.imageSize ⟨1,1,flags,0⟩ := by
    simp [singleBanked,Header.imageSize,Header.trainerSize,Header.hasTrainer,untrained,Header.prgSize,Header.chrSize,
      Header.size,prgBankSize,chrBankSize]
  have banks : (1 : UInt8) ≠ 0 := by decide
  exact load_sections (parse_singleBanked flags) banks (by rw [number]; exact board) (Nat.le_of_eq size.symm)

end Cartridge
end Famicom
