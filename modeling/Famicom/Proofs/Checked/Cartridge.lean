import Famicom.Proofs.Cartridge.Sections
import Famicom.Proofs.Checked.Operation

namespace Famicom

open Checked

def wrapBank? (bank count : Nat) : Option Nat :=
  if count = 0 then some 0
  else do
    let mask ← difference? (enclosingPower count) 1
    remainder? (bank &&& mask) count

theorem wrapBank?_eq (bank count : Nat) : wrapBank? bank count = some (wrapBank bank count) := by
  unfold wrapBank? wrapBank
  split
  · rfl
  · rename_i some
    rw [difference?_eq (enclosingPower_pos count)]
    exact remainder?_eq (Nat.pos_of_ne_zero some)

namespace Mmc1

def shifted? (m : Mmc1) (v : UInt8) : Option (BitVec 5) := do
  let bit ← shiftLeft? (BitVec.ofNat 5 (v.toNat % 2)) m.collected.val
  some (m.shift ||| bit)

def write? (m : Mmc1) (a : UInt16) (v : UInt8) : Option Mmc1 :=
  if hasBit v 0x80 then some {m.discard with control := m.control ||| 0b01100}
  else do
    let bits ← m.shifted? v
    if m.collected.val = 4 then some (m.assign (Register.selected a) bits).discard
    else do
      let collected ← next? m.collected
      some {m with shift := bits,collected := collected}

theorem shifted?_eq (m : Mmc1) (v : UInt8) : m.shifted? v = some (m.shifted v) := by
  rw [shifted?,shiftLeft?_eq _ m.collected.isLt]
  rfl

theorem write?_eq (m : Mmc1) (a : UInt16) (v : UInt8) : m.write? a v = some (m.write a v) := by
  unfold write? write
  rw [shifted?_eq]
  split
  · rfl
  · simp only [Option.bind_eq_bind,Option.bind_some]
    by_cases full : m.collected = 4
    · have last : m.collected.val = 4 := congrArg Fin.val full
      rw [if_pos full,if_pos last]
    · have room : m.collected.val ≠ 4 := fun last => full (Fin.eq_of_val_eq last)
      have below : m.collected.val + 1 < 5 := by omega
      have next : m.collected + 1 = ⟨m.collected.val + 1,below⟩ := Fin.eq_of_val_eq (Nat.mod_eq_of_lt below)
      rw [if_neg full,if_neg room,next?_eq _ below,next]
      rfl

end Mmc1

namespace Mapper

def prgOffset? (m : Mapper) (size : Nat) (a : UInt16) : Option Nat :=
  match m with
  | nrom => remainder? (a.toNat % 0x8000) size
  | mmc1 registers => do
    let count := size / prgBankSize
    let bank ← wrapBank? (registers.prgBank count (0xC000 ≤ a)) count
    some (bank * prgBankSize + a.toNat % prgBankSize)

def chrOffset? (m : Mapper) (size : Nat) (a : UInt16) : Option Nat :=
  match m with
  | nrom => remainder? (a.toNat % 0x2000) size
  | mmc1 registers => do
    let bank ← wrapBank? (registers.chrBank (0x1000 ≤ a.toNat % 0x2000)) (max 1 (size / 0x1000))
    some (bank * 0x1000 + a.toNat % 0x1000)

def prgWrite? (m : Mapper) (a : UInt16) (v : UInt8) : Option Mapper :=
  match m with
  | nrom => some nrom
  | mmc1 registers => (registers.write? a v).map mmc1

theorem prgOffset?_eq (m : Mapper) {size : Nat} (some : 0 < size) (a : UInt16) :
    m.prgOffset? size a = .some (m.prgOffset size a) := by
  cases m with
  | nrom => exact remainder?_eq some
  | mmc1 registers =>
      simp only [prgOffset?,wrapBank?_eq]
      rfl

theorem chrOffset?_eq (m : Mapper) {size : Nat} (some : 0 < size) (a : UInt16) :
    m.chrOffset? size a = .some (m.chrOffset size a) := by
  cases m with
  | nrom => exact remainder?_eq some
  | mmc1 registers =>
      simp only [chrOffset?,wrapBank?_eq]
      rfl

theorem prgWrite?_eq (m : Mapper) (a : UInt16) (v : UInt8) : m.prgWrite? a v = some (m.prgWrite a v) := by
  cases m with
  | nrom => rfl
  | mmc1 registers =>
      rw [prgWrite?,registers.write?_eq]
      rfl

end Mapper

namespace Cartridge

def prgRead? (c : Cartridge) (a : UInt16) : Option UInt8 := do
  let offset ← c.mapper.prgOffset? c.prg.size a
  c.prg[offset]?

def prgWrite? (c : Cartridge) (a : UInt16) (v : UInt8) : Option Cartridge := do
  let mapper ← c.mapper.prgWrite? a v
  some {c with mapper := mapper}

def chrRead? (c : Cartridge) (a : UInt16) : Option UInt8 := do
  let offset ← c.mapper.chrOffset? c.chr.size a
  c.chr[offset]?

def chrWrite? (c : Cartridge) (a : UInt16) (v : UInt8) : Option Cartridge :=
  if c.chrWritable then do
    let offset ← c.mapper.chrOffset? c.chr.size a
    let chr ← put? c.chr offset v
    some {c with chr := chr}
  else some c

def ramRead? (c : Cartridge) (a : UInt16) : Option UInt8 :=
  match c.ram with
  | some ram => if c.mapper.ramEnabled then ram[a.toNat % 0x2000]? else some 0
  | none => some 0

def ramWrite? (c : Cartridge) (a : UInt16) (v : UInt8) : Option Cartridge :=
  match c.ram with
  | some ram =>
    if c.mapper.ramEnabled then do
      let ram ← set? ram (a.toNat % 0x2000) v
      some {c with ram := some ram}
    else some c
  | none => some c

variable {c : Cartridge}

theorem Whole.prg_some (whole : c.Whole) : 0 < c.prg.size := Nat.zero_lt_of_lt (whole.prgOffset 0)

theorem Whole.chr_some (whole : c.Whole) : 0 < c.chr.size := Nat.zero_lt_of_lt (whole.chrOffset 0)

theorem prgRead?_eq (whole : c.Whole) (a : UInt16) : c.prgRead? a = some (c.prgRead a) := by
  have inside := whole.prgOffset a
  rw [prgRead?,c.mapper.prgOffset?_eq whole.prg_some,prgRead,Mapper.prgRead,Array.getD_eq_getD_getElem?]
  simp only [Option.bind_eq_bind,Option.bind_some,Array.getElem?_eq_getElem inside,Option.getD_some]

theorem chrRead?_eq (whole : c.Whole) (a : UInt16) : c.chrRead? a = some (c.chrRead a) := by
  have inside := whole.chrOffset a
  rw [chrRead?,c.mapper.chrOffset?_eq whole.chr_some,chrRead,Mapper.chrRead,Array.getD_eq_getD_getElem?]
  simp only [Option.bind_eq_bind,Option.bind_some,Array.getElem?_eq_getElem inside,Option.getD_some]

theorem prgWrite?_eq (c : Cartridge) (a : UInt16) (v : UInt8) : c.prgWrite? a v = some (c.prgWrite a v) := by
  rw [prgWrite?,c.mapper.prgWrite?_eq]
  rfl

theorem chrWrite?_eq (whole : c.Whole) (a : UInt16) (v : UInt8) : c.chrWrite? a v = some (c.chrWrite a v) := by
  unfold chrWrite? chrWrite
  rw [c.mapper.chrOffset?_eq whole.chr_some]
  simp only [Option.bind_eq_bind,Option.bind_some,put?_eq c.chr v (whole.chrOffset a)]
  exact (apply_ite some _ _ _).symm

theorem ramRead?_eq (c : Cartridge) (a : UInt16) : c.ramRead? a = some (c.ramRead a) := by
  unfold ramRead? ramRead
  cases c.ram with
  | none => rfl
  | some ram =>
      have inside : a.toNat % 0x2000 < 0x2000 := Nat.mod_lt _ (by decide)
      simp only [Vector.getElem?_eq_getElem inside]
      exact (apply_ite some _ _ _).symm

theorem ramWrite?_eq (c : Cartridge) (a : UInt16) (v : UInt8) : c.ramWrite? a v = some (c.ramWrite a v) := by
  unfold ramWrite? ramWrite
  cases c.ram with
  | none => rfl
  | some ram =>
      have inside : a.toNat % 0x2000 < 0x2000 := Nat.mod_lt _ (by decide)
      simp only [set?_eq ram v inside]
      exact (apply_ite some _ _ _).symm

end Cartridge

def Header.parse? (image : Array UInt8) : Option (Except ImageError Header) :=
  if image.size < size then some (.error .shorterThanHeader)
  else do
    let sign ← slice? image 0 4
    if sign.toList ≠ signature then some (.error .missingSignature)
    else do
      let prgBanks ← image[4]?
      let chrBanks ← image[5]?
      let flags6 ← image[6]?
      let flags7 ← image[7]?
      some (.ok ⟨prgBanks,chrBanks,flags6,flags7⟩)

theorem Header.parse?_eq (image : Array UInt8) : parse? image = some (parse image) := by
  unfold parse? parse
  split
  · rfl
  · rename_i long
    rw [size] at long
    have place : ∀ i < 8, image[i]? = some (image.getD i 0) := by
      intro i low
      have inside : i < image.size := by omega
      rw [Array.getD_eq_getD_getElem?,Array.getElem?_eq_getElem inside]
      rfl
    rw [slice?_eq image (by omega)]
    simp only [Option.bind_eq_bind,Option.bind_some,place 4 (by decide),place 5 (by decide),place 6 (by decide),
      place 7 (by decide)]
    exact (apply_ite some _ _ _).symm

namespace Cartridge

def trainer? (image : Array UInt8) (h : Header) : Option (Option (Array UInt8)) :=
  if h.hasTrainer then (slice? image Header.size h.trainerSize).map some else some none

def patterns? (image : Array UInt8) (h : Header) : Option (Array UInt8) :=
  if h.chrBanks = 0 then some (Array.replicate chrBankSize 0)
  else slice? image (Header.size + h.trainerSize + h.prgSize) h.chrSize

def ofSections? (image : Array UInt8) (h : Header) (mapper : Mapper) : Option Cartridge := do
  let trainer ← trainer? image h
  let prg ← slice? image (Header.size + h.trainerSize) h.prgSize
  let chr ← patterns? image h
  some {ofSections image h mapper with trainer := trainer,prg := prg,chr := chr}

theorem ofSections?_eq (image : Array UInt8) (h : Header) (mapper : Mapper) (within : h.imageSize ≤ image.size) :
    ofSections? image h mapper = some (ofSections image h mapper) := by
  rw [Header.imageSize] at within
  have trainer : trainer? image h = some (ofSections image h mapper).trainer := by
    rw [trainer?,slice?_eq image (by omega)]
    exact (apply_ite some _ _ _).symm
  have patterns : patterns? image h = some (ofSections image h mapper).chr := by
    rw [patterns?,slice?_eq image within]
    exact (apply_ite some _ _ _).symm
  rw [ofSections?,trainer,slice?_eq image (by omega),patterns]
  rfl

def load? (image : Array UInt8) : Option (Except ImageError Cartridge) := do
  match ← Header.parse? image with
  | .error e => some (.error e)
  | .ok h =>
    if h.prgBanks = 0 then some (.error .noProgramBanks)
    else match Mapper.ofNumber? h.mapperNumber with
      | none => some (.error (.unsupportedMapper h.mapperNumber))
      | some mapper =>
        if image.size < h.imageSize then some (.error (.truncated h.imageSize image.size))
        else (ofSections? image h mapper).map .ok

theorem load?_eq (image : Array UInt8) : load? image = some (load image) := by
  unfold load? load
  rw [Header.parse?_eq,Option.bind_eq_bind,Option.bind_some]
  cases Header.parse image with
  | error e => rfl
  | ok h =>
      simp only
      split
      · rfl
      · cases Mapper.ofNumber? h.mapperNumber with
        | none => rfl
        | some mapper =>
            simp only
            split
            · rfl
            · rename_i within
              rw [ofSections?_eq image h mapper (Nat.le_of_not_lt within)]
              rfl

end Cartridge
end Famicom
