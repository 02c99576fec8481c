import Famicom.Proofs.Cartridge.Sections

namespace Famicom

namespace Format

def byteAt (image : Array UInt8) (i : Nat) : Nat := (image.getD i 0).toNat

def boardNumber (image : Array UInt8) : Nat := (byteAt image 7 &&& 0xF0) ||| (byteAt image 6 >>> 4)

def sizeNeeded (image : Array UInt8) : Nat :=
  16 + (if (byteAt image 6).testBit 2 then 512 else 0) + 16384 * byteAt image 4 + 8192 * byteAt image 5

inductive Demand where
  | header
  | signature
  | program
  | board
  | sections
  deriving DecidableEq, Repr

namespace Demand

def Met (image : Array UInt8) (d : Demand) : Prop :=
  match d with
  | header => 16 ≤ image.size
  | signature => image.toList.take 4 = [0x4E,0x45,0x53,0x1A]
  | program => 0 < byteAt image 4
  | board => boardNumber image = 0 ∨ boardNumber image = 1
  | sections => sizeNeeded image ≤ image.size

instance (image : Array UInt8) (d : Demand) : Decidable (d.Met image) :=
  match d with
  | header => inferInstanceAs (Decidable (16 ≤ image.size))
  | signature => inferInstanceAs (Decidable (image.toList.take 4 = [0x4E,0x45,0x53,0x1A]))
  | program => inferInstanceAs (Decidable (0 < byteAt image 4))
  | board => inferInstanceAs (Decidable (boardNumber image = 0 ∨ boardNumber image = 1))
  | sections => inferInstanceAs (Decidable (sizeNeeded image ≤ image.size))

def fault (image : Array UInt8) (d : Demand) : ImageError :=
  match d with
  | header => .shorterThanHeader
  | signature => .missingSignature
  | program => .noProgramBanks
  | board => .unsupportedMapper (boardNumber image)
  | sections => .truncated (sizeNeeded image) image.size

def inOrder : List Demand := [header,signature,program,board,sections]

def earlier (d : Demand) : List Demand := inOrder.takeWhile (· != d)

end Demand

def firstUnmet? (image : Array UInt8) : Option Demand := Demand.inOrder.find? fun d => !decide (d.Met image)

theorem firstUnmet?_none (image : Array UInt8) : firstUnmet? image = none ↔ ∀ d : Demand, d.Met image := by
  have all : ∀ d : Demand, d ∈ Demand.inOrder := by
    intro d
    cases d <;> decide
  simp only [firstUnmet?,List.find?_eq_none,Bool.not_eq_true',Bool.not_eq_false,decide_eq_true_iff]
  exact ⟨fun met d => met d (all d),fun met d _ => met d⟩

variable {image other : Array UInt8} {c : Cartridge}

def headerOf (image : Array UInt8) : Header := ⟨image.getD 4 0,image.getD 5 0,image.getD 6 0,image.getD 7 0⟩

theorem headerOf_mapperNumber (image : Array UInt8) : (headerOf image).mapperNumber = boardNumber image := by
  have high : ∀ v : UInt8, v.toNat / 16 * 16 = v.toNat &&& 0xF0 := by
    intro v
    have all : ∀ n : Fin 256, n.val / 16 * 16 = n.val &&& 0xF0 := by decide +kernel
    exact all v.toFin
  have low : (image.getD 6 0).toNat / 16 < 2 ^ 4 := by
    have := (image.getD 6 0).toNat_lt
    omega
  simp only [Header.mapperNumber,headerOf,boardNumber,byteAt,← high,Nat.shiftRight_eq_div_pow]
  rw [Nat.mul_comm,← Nat.two_pow_add_eq_or_of_lt low]

theorem headerOf_trainerSize (image : Array UInt8) :
    (headerOf image).trainerSize = if (byteAt image 6).testBit 2 then 512 else 0 := by
  have flag : (headerOf image).hasTrainer = (byteAt image 6).testBit 2 := hasBit_testBit _ 2
  rw [Header.trainerSize,flag]

theorem headerOf_imageSize (image : Array UInt8) : (headerOf image).imageSize = sizeNeeded image := by
  rw [Header.imageSize,headerOf_trainerSize,sizeNeeded,Nat.mul_comm 16384,Nat.mul_comm 8192]
  rfl

theorem parse_short (short : ¬ Demand.header.Met image) : Header.parse image = .error .shorterThanHeader :=
  if_pos (Nat.lt_of_not_le short)

theorem parse_long (long : Demand.header.Met image) :
    Header.parse image =
      if Demand.signature.Met image then .ok (headerOf image) else .error .missingSignature := by
  have start : (image.extract 0 4).toList = image.toList.take 4 := by simp
  have whole : ¬ image.size < Header.size := Nat.not_lt.mpr long
  rw [Header.parse,if_neg whole,start,ite_not]
  rfl

theorem parse_signed (long : Demand.header.Met image) (signed : Demand.signature.Met image) :
    Header.parse image = .ok (headerOf image) := by
  rw [parse_long long,if_pos signed]

theorem headerOf_prgBanks (image : Array UInt8) : (headerOf image).prgBanks = 0 ↔ ¬ Demand.program.Met image := by
  rw [← UInt8.toNat_inj]
  exact Nat.le_zero.symm.trans Nat.not_lt.symm

theorem ofNumber?_none (number : Nat) : Mapper.ofNumber? number = none ↔ ¬ (number = 0 ∨ number = 1) := by
  match number with
  | 0 | 1 => simp [Mapper.ofNumber?]
  | number + 2 => simp [Mapper.ofNumber?]

theorem load_parsed {h : Header} (parsed : Header.parse image = .ok h) :
    Cartridge.load image =
      if h.prgBanks = 0 then .error .noProgramBanks
      else match Mapper.ofNumber? h.mapperNumber with
        | none => .error (.unsupportedMapper h.mapperNumber)
        | some mapper =>
          if image.size < h.imageSize then .error (.truncated h.imageSize image.size)
          else .ok (Cartridge.ofSections image h mapper) := by
  unfold Cartridge.load
  generalize Header.parse image = result at parsed ⊢
  subst parsed
  rfl

theorem firstUnmet?_some {d : Demand} (first : firstUnmet? image = some d) :
    ¬ d.Met image ∧ ∀ e ∈ d.earlier, e.Met image := by
  obtain ⟨unmet,before,after,split,met⟩ := List.find?_eq_some_iff_append.mp first
  simp only [Bool.not_eq_true',decide_eq_false_iff_not] at unmet
  simp only [Bool.not_not,decide_eq_true_iff] at met
  refine ⟨unmet,?_⟩
  have others : ∀ e ∈ before, (e != d) = true := by
    intro e inside
    rw [bne_iff_ne]
    rintro rfl
    exact unmet (met e inside)
  rw [Demand.earlier,split,List.takeWhile_append_of_pos others,List.takeWhile_cons_of_neg (by simp),List.append_nil]
  exact met

-- An image is refused for the first demand that it fails.
theorem load_unmet {d : Demand} (first : firstUnmet? image = some d) : Cartridge.load image = .error (d.fault image) := by
  obtain ⟨unmet,met⟩ := firstUnmet?_some first
  -- Each demand is looked for after those before it, which are met here.
  cases d with
  | header =>
      rw [Cartridge.load,parse_short unmet]
      rfl
  | signature =>
      have long := met .header (by decide)
      rw [Cartridge.load,parse_long long,if_neg unmet]
      rfl
  | program =>
      have long := met .header (by decide)
      have signed := met .signature (by decide)
      rw [load_parsed (parse_signed long signed),if_pos ((headerOf_prgBanks image).mpr unmet)]
      rfl
  | board =>
      have long := met .header (by decide)
      have signed := met .signature (by decide)
      have program := met .program (by decide)
      rw [load_parsed (parse_signed long signed),
        if_neg fun none => (headerOf_prgBanks image).mp none program,headerOf_mapperNumber,(ofNumber?_none _).mpr unmet]
      rfl
  | sections =>
      have long := met .header (by decide)
      have signed := met .signature (by decide)
      have program := met .program (by decide)
      have board := met .board (by decide)
      rw [load_parsed (parse_signed long signed),
        if_neg fun none => (headerOf_prgBanks image).mp none program,headerOf_mapperNumber,headerOf_imageSize]
      cases known : Mapper.ofNumber? (boardNumber image) with
      | none => exact absurd board ((ofNumber?_none _).mp known)
      | some m => exact if_pos (Nat.lt_of_not_le unmet)

theorem load_met (met : ∀ d : Demand, d.Met image) :
    ∃ m, Mapper.ofNumber? (boardNumber image) = some m ∧
      Cartridge.load image = .ok (Cartridge.ofSections image (headerOf image) m) := by
  have program : (headerOf image).prgBanks ≠ 0 := fun none => (headerOf_prgBanks image).mp none (met .program)
  have within : (headerOf image).imageSize ≤ image.size := by
    rw [headerOf_imageSize]
    exact met .sections
  cases known : Mapper.ofNumber? (boardNumber image) with
  | none => exact absurd (met .board) ((ofNumber?_none _).mp known)
  | some m =>
      have board : Mapper.ofNumber? (headerOf image).mapperNumber = some m := by
        rw [headerOf_mapperNumber]
        exact known
      exact ⟨m,rfl,Cartridge.load_sections (parse_signed (met .header) (met .signature)) program board within⟩

theorem load_all (loaded : Cartridge.load image = .ok c) (d : Demand) : d.Met image := by
  cases first : firstUnmet? image with
  | none => exact (firstUnmet?_none image).mp first d
  | some e =>
      rw [load_unmet first] at loaded
      cases loaded

structure Divides (image : Array UInt8) (c : Cartridge) (rest : Array UInt8) : Prop where
  whole : image = image.extract 0 16 ++ c.trainer.getD #[] ++ c.prg ++
    (if byteAt image 5 = 0 then #[] else c.chr) ++ rest
  trainer : c.trainer.map Array.size = if (byteAt image 6).testBit 2 then some 512 else none
  prg : c.prg.size = 16384 * byteAt image 4
  chr : byteAt image 5 ≠ 0 → c.chr.size = 8192 * byteAt image 5

structure Equipped (image : Array UInt8) (c : Cartridge) : Prop where
  header : c.header = headerOf image
  board : Mapper.ofNumber? (boardNumber image) = some c.mapper
  writable : c.chrWritable = decide (byteAt image 5 = 0)
  fixed : byteAt image 5 ≠ 0 → ∀ a v, c.chrWrite a v = c
  -- Patterns that are not in the image are empty, and each of their cells keeps what is written to it.
  empty : byteAt image 5 = 0 → c.chr = Array.replicate 8192 0
  cells : byteAt image 5 = 0 → ∀ a b v,
    (c.chrWrite a v).chrRead b = if a.toNat % 8192 = b.toNat % 8192 then v else c.chrRead b
  ram : c.ram = if (byteAt image 6).testBit 1 ∨ boardNumber image = 1 then some (Vector.replicate _ 0) else none

theorem load_header (loaded : Cartridge.load image = .ok c) : c.header = headerOf image := by
  have parsed := (Cartridge.load_loaded loaded).parsed
  rw [parse_signed (load_all loaded .header) (load_all loaded .signature)] at parsed
  exact (Except.ok.inj parsed).symm

theorem load_board (loaded : Cartridge.load image = .ok c) : Mapper.ofNumber? (boardNumber image) = some c.mapper := by
  have board := (Cartridge.load_loaded loaded).board
  rw [load_header loaded,headerOf_mapperNumber] at board
  exact board

theorem chrBanks_zero (image : Array UInt8) : (headerOf image).chrBanks = 0 ↔ byteAt image 5 = 0 :=
  UInt8.toNat_inj.symm

theorem cut_append (image : Array UInt8) (start length : Nat) :
    image.extract 0 start ++ Cartridge.cut image start length = image.extract 0 (start + length) := by
  rw [Cartridge.cut,Array.extract_append_extract,Nat.zero_min,Nat.max_eq_right (Nat.le_add_right ..)]

theorem cut_nothing (image : Array UInt8) (start : Nat) : Cartridge.cut image start 0 = #[] := by
  rw [Cartridge.cut,Nat.add_zero,Array.extract_eq_empty_iff]
  exact Nat.min_le_left ..

theorem trainer_cut (loaded : Cartridge.Loaded image c) :
    c.trainer = if c.header.hasTrainer then some (Cartridge.cut image Header.size c.header.trainerSize) else none := by
  rw [loaded.sections]
  rfl

theorem trainer_getD (loaded : Cartridge.Loaded image c) :
    c.trainer.getD #[] = Cartridge.cut image Header.size c.header.trainerSize := by
  rw [trainer_cut loaded,Header.trainerSize]
  cases c.header.hasTrainer with
  | true => rfl
  | false => exact (cut_nothing image _).symm

theorem chr_cut (loaded : Cartridge.Loaded image c) :
    (if c.header.chrBanks = 0 then #[] else c.chr) =
      Cartridge.cut image (Header.size + c.header.trainerSize + c.header.prgSize) c.header.chrSize := by
  rw [loaded.chr]
  split
  · rename_i none
    rw [Header.chrSize,none]
    exact (cut_nothing image _).symm
  · rfl

theorem load_divides (loaded : Cartridge.load image = .ok c) :
    Divides image c (image.extract (sizeNeeded image) image.size) := by
  have known := Cartridge.load_loaded loaded
  have header := load_header loaded
  have flag : c.header.hasTrainer = (byteAt image 6).testBit 2 := by
    rw [header]
    exact hasBit_testBit _ 2
  have patterns : c.header.chrBanks = 0 ↔ byteAt image 5 = 0 := by
    rw [header]
    exact chrBanks_zero image
  have needed : Header.size + c.header.trainerSize + c.header.prgSize + c.header.chrSize = sizeNeeded image := by
    rw [header]
    exact headerOf_imageSize image
  have within : sizeNeeded image ≤ image.size := load_all loaded .sections
  constructor
  case whole =>
    have sections := chr_cut known
    simp only [patterns] at sections
    -- Each section begins where the one before it ends, so that the cuts join up.
    rw [trainer_getD known,known.prg,sections,← Header.size,cut_append,cut_append,cut_append,needed,
      Array.extract_append_extract,Nat.zero_min,Nat.max_eq_right within,Array.extract_size]
  case trainer =>
    rw [trainer_cut known,flag]
    split
    · rename_i on
      have size : (Cartridge.cut image Header.size c.header.trainerSize).size = c.header.trainerSize :=
        cut_size _ _ _ (by omega)
      rw [Option.map_some,size,Header.trainerSize,flag,if_pos on]
    · rfl
  case prg =>
    rw [known.prg_size,header]
    exact Nat.mul_comm ..
  case chr =>
    intro some
    have banks : c.header.chrBanks.toNat = byteAt image 5 := by
      rw [header]
      rfl
    rw [known.chr_size,banks,Nat.max_eq_right (Nat.pos_of_ne_zero some)]
    exact Nat.mul_comm ..

theorem ofNumber_chrOffset {number : Nat} {m : Mapper} (known : Mapper.ofNumber? number = some m) (a : UInt16) :
    m.chrOffset chrBankSize a = a.toNat % 8192 := by
  unfold Mapper.ofNumber? at known
  split at known
  · cases known
    exact Nat.mod_mod ..
  · cases known
    have halves : ∀ upper, wrapBank (Mmc1.powerOn.chrBank upper) 2 = upper.toNat := by decide +kernel
    simp only [Mapper.chrOffset,Mmc1.chrOffset,chrBankSize]
    show wrapBank (Mmc1.powerOn.chrBank _) 2 * 0x1000 + _ = _
    rw [halves]
    by_cases upper : 0x1000 ≤ a.toNat % 0x2000
    · rw [decide_eq_true upper,Bool.toNat_true]
      omega
    · rw [decide_eq_false upper,Bool.toNat_false]
      omega
  · cases known

theorem chrRead_chrWrite (writable : c.chrWritable = true) (size : c.chr.size = chrBankSize)
    (straight : ∀ a, c.mapper.chrOffset chrBankSize a = a.toNat % 8192) (a b : UInt16) (v : UInt8) :
    (c.chrWrite a v).chrRead b = if a.toNat % 8192 = b.toNat % 8192 then v else c.chrRead b := by
  have inside : a.toNat % 8192 < c.chr.size := by
    rw [size]
    exact Nat.mod_lt _ (by decide)
  simp only [Cartridge.chrWrite,writable,if_true,Cartridge.chrRead,Mapper.chrRead,Mapper.chrWrite,
    Array.size_setIfInBounds,size,straight,Array.getD_eq_getD_getElem?,Array.getElem?_setIfInBounds]
  rw [← size,if_pos inside]
  split <;> rfl

theorem mmc1_number {number : Nat} {m : Mapper} (known : Mapper.ofNumber? number = some m) :
    (m != .nrom) = decide (number = 1) := by
  unfold Mapper.ofNumber? at known
  split at known <;> cases known <;> rfl

theorem load_equipped (loaded : Cartridge.load image = .ok c) : Equipped image c := by
  have known := Cartridge.load_loaded loaded
  have header := load_header loaded
  have board := load_board loaded
  have patterns : c.header.chrBanks = 0 ↔ byteAt image 5 = 0 := by
    rw [header]
    exact chrBanks_zero image
  have writable : c.chrWritable = decide (byteAt image 5 = 0) := by
    have flag : c.chrWritable = decide (c.header.chrBanks = 0) := by
      rw [known.sections]
      rfl
    rw [flag]
    exact decide_eq_decide.mpr patterns
  have empty : byteAt image 5 = 0 → c.chr = Array.replicate 8192 0 := by
    intro none
    rw [known.chr,if_pos (patterns.mpr none)]
    rfl
  refine ⟨header,board,writable,?_,empty,?_,?_⟩
  case refine_1 =>
    intro some a v
    rw [decide_eq_false some] at writable
    simp only [Cartridge.chrWrite,writable,Bool.false_eq_true,if_false]
  case refine_2 =>
    intro none
    rw [decide_eq_true none] at writable
    have size : c.chr.size = chrBankSize := by
      rw [empty none,Array.size_replicate]
      rfl
    exact chrRead_chrWrite writable size (ofNumber_chrOffset board)
  case refine_3 =>
    have battery : c.header.hasBattery = (byteAt image 6).testBit 1 := by
      rw [header]
      exact hasBit_testBit _ 1
    have ram : c.ram = if c.header.hasBattery || c.mapper != .nrom then some (Vector.replicate 0x2000 0) else none := by
      rw [known.sections]
      rfl
    rw [ram,battery,mmc1_number board]
    simp only [Bool.or_eq_true,decide_eq_true_iff]

-- Two images with the same bytes wherever the first one has any that are looked at.
structure Agrees (image other : Array UInt8) : Prop where
  longer : image.size ≤ other.size
  same : ∀ i < image.size, i < 8 ∨ 16 ≤ i → other[i]? = image[i]?

theorem Agrees.append (image more : Array UInt8) : Agrees image (image ++ more) where
  longer := by
    rw [Array.size_append]
    exact Nat.le_add_right ..
  same i inside _ := Array.getElem?_append_left inside

namespace Agrees

variable (agrees : Agrees image other)
include agrees

theorem getD {i : Nat} (inside : i < image.size) (low : i < 8) : other.getD i 0 = image.getD i 0 := by
  rw [Array.getD_eq_getD_getElem?,Array.getD_eq_getD_getElem?,agrees.same i inside (.inl low)]

theorem headerOf (long : Demand.header.Met image) : Format.headerOf other = Format.headerOf image := by
  have inside : ∀ i < 8, i < image.size := fun i low => Nat.lt_of_lt_of_le (by omega) long
  simp only [Format.headerOf,agrees.getD (inside 4 (by decide)) (by decide),agrees.getD (inside 5 (by decide)) (by decide),
    agrees.getD (inside 6 (by decide)) (by decide),agrees.getD (inside 7 (by decide)) (by decide)]

theorem parse (long : Demand.header.Met image) (signed : Demand.signature.Met image) :
    Header.parse other = .ok (Format.headerOf image) := by
  have longOther : Demand.header.Met other := Nat.le_trans long agrees.longer
  have start : other.toList.take 4 = image.toList.take 4 := by
    apply List.ext_getElem?
    intro i
    simp only [List.getElem?_take,Array.getElem?_toList]
    split
    · rename_i low
      exact agrees.same i (Nat.lt_of_lt_of_le (by omega) long) (.inl (by omega))
    · rfl
  have signedOther : Demand.signature.Met other := start.trans signed
  rw [parse_signed longOther signedOther,agrees.headerOf long]

theorem cut (start length : Nat) (behind : 16 ≤ start) (within : start + length ≤ image.size) :
    Cartridge.cut other start length = Cartridge.cut image start length := by
  have longer := agrees.longer
  apply Array.ext_getElem?
  intro i
  rw [Cartridge.cut,Cartridge.cut,Array.getElem?_extract,Array.getElem?_extract,Nat.min_eq_left within,
    Nat.min_eq_left (Nat.le_trans within longer)]
  split
  · exact agrees.same _ (by omega) (.inr (by omega))
  · rfl

theorem ofSections (h : Header) (m : Mapper) (within : h.imageSize ≤ image.size) :
    Cartridge.ofSections other h m = Cartridge.ofSections image h m := by
  rw [Header.imageSize] at within
  have head : Header.size = 16 := rfl
  have trainer := agrees.cut Header.size h.trainerSize (by omega) (by omega)
  have program := agrees.cut (Header.size + h.trainerSize) h.prgSize (by omega) (by omega)
  have patterns := agrees.cut (Header.size + h.trainerSize + h.prgSize) h.chrSize (by omega) within
  simp only [Cartridge.ofSections,trainer,program,patterns]

theorem load (loaded : Cartridge.load image = .ok c) : Cartridge.load other = .ok c := by
  have known := Cartridge.load_loaded loaded
  have header := load_header loaded
  have parsed := agrees.parse (load_all loaded .header) (load_all loaded .signature)
  rw [← header] at parsed
  have banks : c.header.prgBanks ≠ 0 := by
    intro none
    have positive := known.banks
    rw [none] at positive
    exact Nat.lt_irrefl 0 positive
  rw [Cartridge.load_sections parsed banks known.board (Nat.le_trans known.within agrees.longer),
    agrees.ofSections _ _ known.within,← known.sections]

end Agrees

-- An image is accepted exactly when it meets every demand. Its bytes are then those of the sections, in their order
-- and without gaps, and bytes that belong to no section decide nothing.
theorem load_exact (image : Array UInt8) :
    ((∃ c, Cartridge.load image = .ok c) ↔ ∀ d : Demand, d.Met image) ∧
      (∀ d, firstUnmet? image = some d → Cartridge.load image = .error (d.fault image)) ∧
      ∀ c, Cartridge.load image = .ok c →
        Divides image c (image.extract (sizeNeeded image) image.size) ∧ Equipped image c ∧
          (∀ more, Cartridge.load (image ++ more) = .ok c) ∧
          ∀ other, other.size = image.size → (∀ i, i < 8 ∨ 16 ≤ i → other[i]? = image[i]?) →
            Cartridge.load other = .ok c := by
  refine ⟨⟨?_,?_⟩,fun d first => load_unmet first,?_⟩
  · rintro ⟨c,loaded⟩
    exact load_all loaded
  · intro met
    obtain ⟨m,_,loaded⟩ := load_met met
    exact ⟨_,loaded⟩
  · intro c loaded
    refine ⟨load_divides loaded,load_equipped loaded,?_,?_⟩
    · intro more
      exact (Agrees.append image more).load loaded
    · intro other size same
      have agrees : Agrees image other := ⟨Nat.le_of_eq size.symm,fun i _ used => same i used⟩
      exact agrees.load loaded

def bare : Array UInt8 := #[0x4E,0x45,0x53,0x1A,1,0,0x40,0,0,0,0,0,0,0,0,0]

-- A trainer, a battery, serial registers, patterns that are not in the image, and three bytes too many.
def trained : Array UInt8 :=
  #[0x4E,0x45,0x53,0x1A,1,0,0x16,0,0,0,0,0,0,0,0,0] ++ Array.replicate (512 + 16384 + 3) 0xEA

theorem trained_divided :
    Cartridge.load bare = .error (.unsupportedMapper 4) ∧
      ∃ c, Cartridge.load trained = .ok c ∧ c.trainer.map Array.size = some 512 ∧ c.prg.size = 16384 ∧
        c.chr = Array.replicate 8192 0 ∧ c.ram.isSome = true ∧ Cartridge.load (trained ++ #[1,2,3]) = .ok c := by
  have size : trained.size = 16915 := by simp [trained]
  have six : byteAt trained 6 = 0x16 := by simp [byteAt,trained]
  have four : byteAt trained 4 = 1 := by simp [byteAt,trained]
  have five : byteAt trained 5 = 0 := by simp [byteAt,trained]
  have seven : byteAt trained 7 = 0 := by simp [byteAt,trained]
  have board : boardNumber trained = 1 := by
    rw [boardNumber,six,seven]
    rfl
  have met : ∀ d : Demand, d.Met trained := by
    intro d
    cases d with
    | header => simp [Demand.Met,trained]
    | signature =>
        rw [Demand.Met,trained,Array.toList_append,List.take_append_of_le_length (by simp)]
        rfl
    | program => simp [Demand.Met,four]
    | board => exact .inr board
    | sections =>
        rw [Demand.Met,sizeNeeded,six,four,five,size]
        decide
  have refused : firstUnmet? bare = some .board := by decide
  obtain ⟨⟨_,accepted⟩,_,made⟩ := load_exact trained
  obtain ⟨c,loaded⟩ := accepted met
  obtain ⟨divides,equipped,longer,_⟩ := made c loaded
  refine ⟨(load_exact bare).2.1 .board refused,c,loaded,?_,?_,equipped.empty five,?_,longer _⟩
  · rw [divides.trainer,six]
    rfl
  · rw [divides.prg,four]
  · rw [equipped.ram,if_pos (.inr board)]
    rfl

end Format
end Famicom
