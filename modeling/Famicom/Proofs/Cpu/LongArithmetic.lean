import Famicom.Proofs.Cpu.Discipline
import Mathlib.Data.Nat.Digits.Defs

namespace Famicom

variable {μ ν : Type} [AddressSpace μ] [AddressSpace ν]

def littleEndian (bytes : List UInt8) : Nat := Nat.ofDigits 256 (bytes.map UInt8.toNat)

def twosComplement (bytes : List UInt8) : Int := (littleEndian bytes : Int).bmod (256 ^ bytes.length)

theorem littleEndian_append (low : List UInt8) (top : UInt8) :
    littleEndian (low ++ [top]) = littleEndian low + 256 ^ low.length * top.toNat := by
  simp only [littleEndian,List.map_append,List.map_singleton,Nat.ofDigits_append,Nat.ofDigits_singleton,List.length_map]

theorem littleEndian_lt (bytes : List UInt8) : littleEndian bytes < 256 ^ bytes.length := by
  have digits : ∀ d ∈ bytes.map UInt8.toNat, d < 256 := by
    intro d among
    obtain ⟨v,_,rfl⟩ := List.mem_map.mp among
    exact v.toNat_lt
  have bound := Nat.ofDigits_lt_base_pow_length (by decide) digits
  rwa [List.length_map] at bound

theorem littleEndian_top (low : List UInt8) (top : UInt8) :
    (littleEndian (low ++ [top])).testBit (8 * low.length + 7) = top.toNat.testBit 7 := by
  have power : 256 ^ low.length = 2 ^ (8 * low.length) := by
    rw [pow_mul]
    rfl
  have below := littleEndian_lt low
  rw [power] at below
  rw [littleEndian_append,power,Nat.add_comm,Nat.testBit_two_pow_mul_add _ below,if_neg (by omega),
    Nat.add_sub_cancel_left]

theorem scaled_lt {low power : Int} (t bound : Int) (nonnegative : 0 ≤ low) (below : low < power) :
    low + power * t < power * bound ↔ t < bound := by
  have positive : 0 ≤ power := by omega
  constructor
  · intro less
    refine Int.not_le.mp fun above => ?_
    have scaled := Int.mul_le_mul_of_nonneg_left above positive
    omega
  · intro less
    have scaled := Int.mul_le_mul_of_nonneg_left (Int.add_one_le_of_lt less) positive
    rw [Int.mul_add,Int.mul_one] at scaled
    omega

theorem toInt8_cases (v : UInt8) :
    v.toNat < 128 ∧ v.toInt8.toInt = v.toNat ∨ 128 ≤ v.toNat ∧ v.toInt8.toInt = v.toNat - 256 := by
  have all : ∀ n : Fin 256, n.val < 128 ∧ (UInt8.ofFin n).toInt8.toInt = n.val ∨
      128 ≤ n.val ∧ (UInt8.ofFin n).toInt8.toInt = n.val - 256 := by decide +kernel
  exact all v.toFin

theorem toNat_testBit (v : UInt8) : v.toNat.testBit 7 = decide (128 ≤ v.toNat) := by
  have all : ∀ n : Fin 256, n.val.testBit 7 = decide (128 ≤ n.val) := by decide +kernel
  exact all v.toFin

theorem twosComplement_append (low : List UInt8) (top : UInt8) :
    twosComplement (low ++ [top]) = littleEndian low + 256 ^ low.length * top.toInt8.toInt := by
  have below : (littleEndian low : Int) < 256 ^ low.length := by
    exact_mod_cast littleEndian_lt low
  have byte := top.toNat_lt
  -- A negative top byte makes the numbers differ by one turn, which the wrap takes away.
  have wraps : ∃ k : Int, (littleEndian (low ++ [top]) : Int) =
      littleEndian low + 256 ^ low.length * top.toInt8.toInt + ((256 ^ (low.length + 1) : Nat) : Int) * k := by
    rcases toInt8_cases top with ⟨_,plain⟩ | ⟨_,negative⟩
    · refine ⟨0,?_⟩
      rw [littleEndian_append,plain]
      push_cast
      ring
    · refine ⟨1,?_⟩
      rw [littleEndian_append,negative]
      push_cast
      ring
  have lower := scaled_lt top.toInt8.toInt (-128) (Int.natCast_nonneg _) below
  have upper := scaled_lt top.toInt8.toInt 128 (Int.natCast_nonneg _) below
  have power : ((256 ^ (low.length + 1) : Nat) : Int) = 256 * 256 ^ low.length := by
    push_cast
    ring
  obtain ⟨k,whole⟩ := wraps
  rw [twosComplement,whole,List.length_append,List.length_singleton,Int.add_mul_bmod_self_left]
  rcases toInt8_cases top with ⟨small,plain⟩ | ⟨large,negative⟩ <;>
    apply Int.bmod_eq_of_le_mul_two <;> rw [power] <;> omega

theorem littleEndian_complement (bytes : List UInt8) :
    littleEndian (bytes.map (~~~ ·)) + littleEndian bytes + 1 = 256 ^ bytes.length := by
  induction bytes with
  | nil => rfl
  | cons v rest ih =>
      have byte := v.toNat_lt
      have complement : (~~~ v).toNat = 255 - v.toNat := UInt8.toNat_not v
      simp only [littleEndian,List.map_cons,Nat.ofDigits_cons,List.length_cons,Nat.pow_succ,complement] at ih ⊢
      omega

theorem toInt8_complement (v : UInt8) : (~~~ v).toInt8.toInt = -1 - v.toInt8.toInt := by
  have complement : (~~~ v).toNat = 255 - v.toNat := UInt8.toNat_not v
  have byte := v.toNat_lt
  rcases toInt8_cases v with ⟨_,plain⟩ | ⟨_,negative⟩ <;>
    rcases toInt8_cases (~~~ v) with ⟨_,other⟩ | ⟨_,other⟩ <;> omega

theorem twosComplement_complement (low : List UInt8) (top : UInt8) :
    twosComplement ((low ++ [top]).map (~~~ ·)) = -1 - twosComplement (low ++ [top]) := by
  have missing : (littleEndian (low.map (~~~ ·)) : Int) + littleEndian low + 1 = 256 ^ low.length := by
    exact_mod_cast littleEndian_complement low
  rw [List.map_append,List.map_singleton,twosComplement_append,twosComplement_append,toInt8_complement,List.length_map,
    Int.mul_sub,Int.mul_neg,Int.mul_one]
  omega

namespace Registers

variable (r : Registers) (v : UInt8)

-- Nothing is lost: what does not fit the byte is in the carry.
theorem add_total :
    (r.add v).a.toNat + 256 * (r.add v).p.carry.toNat = r.a.toNat + v.toNat + r.p.carry.toNat := by
  have left := r.a.toNat_lt
  have right := v.toNat_lt
  have carried := r.p.carry.toNat_lt
  have carry : (r.add v).p.carry = decide (255 < r.a.toNat + v.toNat + r.p.carry.toNat) := rfl
  have result : (r.add v).a.toNat = (r.a.toNat + v.toNat + r.p.carry.toNat) % 256 := UInt8.toNat_ofNat'
  rw [carry,result]
  by_cases exceeds : 255 < r.a.toNat + v.toNat + r.p.carry.toNat
  · rw [decide_eq_true exceeds,Bool.toNat_true]
    omega
  · rw [decide_eq_false exceeds,Bool.toNat_false]
    omega

theorem add_negative : (r.add v).p.negative = decide ((r.add v).a.toInt8.toInt < 0) := by
  have judged : (r.add v).p.negative = (r.add v).a.toNat.testBit 7 := hasBit_testBit _ 7
  have byte := (r.add v).a.toNat_lt
  rw [judged,toNat_testBit,decide_eq_decide]
  rcases toInt8_cases (r.add v).a with ⟨small,same⟩ | ⟨large,same⟩ <;> omega

-- The signs of the operands agree and that of the result is another: then the signed sum is out of range.
theorem add_overflow :
    (r.add v).p.overflow = true ↔
      ¬ (-128 ≤ r.a.toInt8.toInt + v.toInt8.toInt + r.p.carry.toNat ∧
        r.a.toInt8.toInt + v.toInt8.toInt + r.p.carry.toNat < 128) := by
  have total := r.add_total v
  have carried := r.p.carry.toNat_lt
  have addend := r.a.toNat_lt
  have augend := v.toNat_lt
  have byte := (r.add v).a.toNat_lt
  have out := (r.add v).p.carry.toNat_lt
  have signs : (r.add v).p.overflow =
      ((decide (128 ≤ r.a.toNat) ^^ decide (128 ≤ (r.add v).a.toNat)) &&
        (decide (128 ≤ v.toNat) ^^ decide (128 ≤ (r.add v).a.toNat))) := by
    have tested : (r.add v).p.overflow =
        ((r.a ^^^ (r.add v).a) &&& (v ^^^ (r.add v).a)).toNat.testBit 7 := hasBit_testBit _ 7
    rw [tested,UInt8.toNat_and,UInt8.toNat_xor,UInt8.toNat_xor,Nat.testBit_and,Nat.testBit_xor,Nat.testBit_xor,
      toNat_testBit,toNat_testBit,toNat_testBit]
  rw [signs]
  rcases toInt8_cases r.a with ⟨a,left⟩ | ⟨a,left⟩ <;> rcases toInt8_cases v with ⟨b,right⟩ | ⟨b,right⟩ <;>
    rcases toInt8_cases (r.add v).a with ⟨c,result⟩ | ⟨c,result⟩ <;> simp [a,b,c,left,right] <;> omega

theorem add_sign :
    ((r.add v).p.negative != (r.add v).p.overflow) = true ↔
      r.a.toInt8.toInt + v.toInt8.toInt + r.p.carry.toNat < 0 := by
  have total := r.add_total v
  have overflow := r.add_overflow v
  have negative := r.add_negative v
  have carried := r.p.carry.toNat_lt
  have out := (r.add v).p.carry.toNat_lt
  have addend := r.a.toNat_lt
  have augend := v.toNat_lt
  have byte := (r.add v).a.toNat_lt
  rw [negative,bne_iff_ne,ne_eq,Bool.eq_iff_iff,decide_eq_true_iff,overflow]
  rcases toInt8_cases r.a with ⟨a,left⟩ | ⟨a,left⟩ <;> rcases toInt8_cases v with ⟨b,right⟩ | ⟨b,right⟩ <;>
    rcases toInt8_cases (r.add v).a with ⟨c,result⟩ | ⟨c,result⟩ <;> omega

-- A comparison judges what a subtraction without a borrow would leave in the accumulator.
theorem compare_subtract (register : UInt8) (other : Registers) (same : other.a = register)
    (unborrowed : other.p.carry = true) :
    (r.compare register v).p.carry = (other.subtract v).p.carry ∧
      (r.compare register v).p.zero = (other.subtract v).p.zero ∧
      (r.compare register v).p.negative = (other.subtract v).p.negative := by
  have total := other.add_total (~~~ v)
  have complement : (~~~ v).toNat = 255 - v.toNat := UInt8.toNat_not v
  have left := register.toNat_lt
  have right := v.toNat_lt
  have byte := (other.add (~~~ v)).a.toNat_lt
  have out := (other.add (~~~ v)).p.carry.toNat_lt
  rw [same,unborrowed,complement,Bool.toNat_true] at total
  have difference : register - v = (other.subtract v).a := by
    apply UInt8.toNat_inj.mp
    rw [UInt8.toNat_sub,subtract]
    omega
  refine ⟨?_,congrArg (· == 0) difference,congrArg (hasBit · 0x80) difference⟩
  have carry : (r.compare register v).p.carry = decide (v.toNat ≤ register.toNat) := rfl
  rw [carry,subtract]
  cases borrowed : (other.add (~~~ v)).p.carry with
  | true =>
      rw [borrowed,Bool.toNat_true] at total
      exact decide_eq_true (by omega)
  | false =>
      rw [borrowed,Bool.toNat_false] at total
      exact decide_eq_false (by omega)

end Registers

structure Added (carryIn : Bool) (xs ws zs : List UInt8) (p : Status) : Prop where
  left : xs.length = zs.length
  right : ws.length = zs.length
  total : littleEndian zs + 256 ^ zs.length * p.carry.toNat = littleEndian xs + littleEndian ws + carryIn.toNat

structure Flagged (zs : List UInt8) (whole : Int) (p : Status) : Prop where
  overflow : p.overflow = true ↔ ¬ (-2 ^ (8 * zs.length - 1) ≤ whole ∧ whole < 2 ^ (8 * zs.length - 1))
  negative : p.negative = (littleEndian zs).testBit (8 * zs.length - 1)
  sign : (p.negative != p.overflow) = true ↔ whole < 0

namespace Added

variable {carryIn : Bool} {xs ws zs : List UInt8} {p : Status}

theorem digit (added : Added carryIn xs ws zs p) (r : Registers) (kept : r.p.carry = p.carry) (w : UInt8) :
    Added carryIn (xs ++ [r.a]) (ws ++ [w]) (zs ++ [(r.add w).a]) (r.add w).p where
  left := by simp only [List.length_append,added.left,List.length_singleton]
  right := by simp only [List.length_append,added.right,List.length_singleton]
  total := by
    have top := r.add_total w
    have below := added.total
    rw [← kept] at below
    rw [littleEndian_append,littleEndian_append,littleEndian_append,added.left,added.right,List.length_append,
      List.length_singleton]
    generalize zs.length = n at below ⊢
    calc littleEndian zs + 256 ^ n * (r.add w).a.toNat + 256 ^ (n + 1) * (r.add w).p.carry.toNat
        = littleEndian zs + 256 ^ n * ((r.add w).a.toNat + 256 * (r.add w).p.carry.toNat) := by ring
      _ = littleEndian zs + 256 ^ n * r.p.carry.toNat + 256 ^ n * r.a.toNat + 256 ^ n * w.toNat := by
          rw [top]
          ring
      _ = littleEndian xs + 256 ^ n * r.a.toNat + (littleEndian ws + 256 ^ n * w.toNat) + carryIn.toNat := by
          rw [below]
          ring

theorem signed (added : Added carryIn xs ws zs p) (r : Registers) (kept : r.p.carry = p.carry) (w : UInt8) :
    twosComplement (xs ++ [r.a]) + twosComplement (ws ++ [w]) + carryIn.toNat =
      littleEndian zs + 256 ^ zs.length * (r.a.toInt8.toInt + w.toInt8.toInt + r.p.carry.toNat) := by
  have below : (littleEndian zs : Int) + 256 ^ zs.length * r.p.carry.toNat =
      littleEndian xs + littleEndian ws + carryIn.toNat := by
    rw [kept]
    exact_mod_cast added.total
  rw [twosComplement_append,twosComplement_append,added.left,added.right,Int.mul_add,Int.mul_add]
  omega

theorem flagged (added : Added carryIn xs ws zs p) (r : Registers) (kept : r.p.carry = p.carry) (w : UInt8) :
    Flagged (zs ++ [(r.add w).a]) (twosComplement (xs ++ [r.a]) + twosComplement (ws ++ [w]) + carryIn.toNat)
      (r.add w).p := by
  have below : (littleEndian zs : Int) < 256 ^ zs.length := by
    exact_mod_cast littleEndian_lt zs
  have scaled := fun bound => scaled_lt (r.a.toInt8.toInt + w.toInt8.toInt + r.p.carry.toNat) bound
    (Int.natCast_nonneg _) below
  have bits : 8 * (zs ++ [(r.add w).a]).length - 1 = 8 * zs.length + 7 := by
    rw [List.length_append,List.length_singleton]
    omega
  have half : (2 : Int) ^ (8 * zs.length + 7) = 256 ^ zs.length * 128 := by
    rw [pow_add,pow_mul]
    norm_num
  have upper := scaled 128
  have lower := scaled (-128)
  have zero := scaled 0
  rw [added.signed r kept w]
  constructor
  · rw [r.add_overflow w,bits,half,upper,← Int.not_lt,← Int.not_lt,← lower,Int.mul_neg]
  · rw [bits,littleEndian_top]
    exact hasBit_testBit _ 7
  · rw [r.add_sign w,← zero,Int.mul_zero]

end Added

namespace Cpu

def Takes (cpu : Cpu) (m : μ) (mnemonic : Mnemonic) (v : UInt8) : Prop :=
  ∃ i, decode (AddressSpace.read m cpu.registers.pc).1 = some i ∧ i.mnemonic = mnemonic ∧
    lastRead? (cpu.step (⟨m,[]⟩ : Recorded μ)).memory.accesses = some v

theorem step_takes (cpu : Cpu) (m : μ) {mnemonic : Mnemonic} {update : Registers → UInt8 → Registers} {v : UInt8}
    (acts : mnemonic.action = .load update) (takes : cpu.Takes m mnemonic v) :
    ∃ pc, (cpu.step m).cpu.registers = update {cpu.registers with pc := pc} v := by
  obtain ⟨i,decoded,named,taken⟩ := takes
  have recorded : decode (AddressSpace.read (⟨m,[]⟩ : Recorded μ) cpu.registers.pc).1 = some i := decoded
  have loads : i.mnemonic.action = .load update := named ▸ acts
  have fits := decode_takes _ _ decoded
  have operand := locate_operand i.mode {cpu.registers with pc := cpu.registers.pc + 1}
    (AddressSpace.read (⟨m,[]⟩ : Recorded μ) cpu.registers.pc).2
  have same : (cpu.step m).cpu = (cpu.step (⟨m,[]⟩ : Recorded μ)).cpu :=
    (recorded_faithful.step cpu (⟨m,[]⟩ : Recorded μ)).2.1.symm
  rw [cpu.step_known _ i recorded] at same taken
  rw [same]
  rw [loads] at fits
  rcases operand with ⟨implied,_⟩ | ⟨accumulator,_⟩ | ⟨_,_,a,found⟩
  · rw [implied] at fits
    cases fits
  · rw [accumulator] at fits
    cases fits
  · have here : (cpu.located (⟨m,[]⟩ : Recorded μ) i).operand = .memory a := found
    simp only [performed,loads,Action.perform,here,Operand.load,cpu.located_registers] at taken ⊢
    exact ⟨_,congrArg _ (Option.some.inj taken)⟩

def carriers : List Mnemonic := [.adc,.sbc,.cmp,.cpx,.cpy,.asl,.lsr,.rol,.ror,.clc,.sec,.plp,.rti]

inductive Coasts (cpu : Cpu) (m : μ) : Cpu → μ → Prop where
  | here : Coasts cpu m cpu m
  | step {late : Cpu} {rest : μ} (earlier : Coasts cpu m late rest)
      (spares : ∀ i, decode (AddressSpace.read rest late.registers.pc).1 = some i → i.mnemonic ∉ carriers) :
      Coasts cpu m (late.step rest).cpu (late.step rest).memory

theorem Coasts.carry {cpu late : Cpu} {m rest : μ} (coasts : Coasts cpu m late rest) :
    late.registers.p.carry = cpu.registers.p.carry := by
  induction coasts with
  | here => rfl
  | @step late rest _ spares ih =>
      cases decoded : decode (AddressSpace.read rest late.registers.pc).1 with
      | none =>
          rw [late.step_unknown rest decoded]
          exact ih
      | some i =>
          have disciplined := step_known_disciplined late rest i decoded
          refine Eq.trans ?_ ih
          exact Decidable.byContradiction fun changed => spares i decoded (disciplined.carry changed)

-- An execution that adds or subtracts numbers byte by byte, from the lowest up. What is done between two bytes, such as
-- the load of the next one, leaves the carry alone.
inductive Digits (mnemonic : Mnemonic) (cpu : Cpu) (m : μ) :
    List UInt8 → List UInt8 → List UInt8 → Cpu → μ → Prop where
  | start : Digits mnemonic cpu m [] [] [] cpu m
  | digit {xs ys zs : List UInt8} {late ready : Cpu} {rest left : μ} {y : UInt8}
      (earlier : Digits mnemonic cpu m xs ys zs late rest) (coasts : Coasts late rest ready left)
      (takes : ready.Takes left mnemonic y) :
      Digits mnemonic cpu m (xs ++ [ready.registers.a]) (ys ++ [y]) (zs ++ [(ready.step left).cpu.registers.a])
        (ready.step left).cpu (ready.step left).memory

namespace Digits

variable {mnemonic : Mnemonic} {cpu last : Cpu} {m rest : μ} {xs ys zs : List UInt8} (addend : UInt8 → UInt8)

theorem added (acts : mnemonic.action = .load fun r y => r.add (addend y))
    (digits : Digits mnemonic cpu m xs ys zs last rest) :
    Added cpu.registers.p.carry xs (ys.map addend) zs last.registers.p := by
  induction digits with
  | start => exact ⟨rfl,rfl,by simp [littleEndian]⟩
  | @digit xs ys zs late ready rest left y _ coasts takes ih =>
      -- The sum so far speaks of the carry it left behind, and coasting has brought that to the next byte.
      obtain ⟨pc,after⟩ := ready.step_takes left acts takes
      rw [after,List.map_append,List.map_singleton]
      exact ih.digit {ready.registers with pc := pc} coasts.carry (addend y)

theorem flagged (acts : mnemonic.action = .load fun r y => r.add (addend y))
    (digits : Digits mnemonic cpu m xs ys zs last rest) (nonempty : zs ≠ []) :
    Flagged zs (twosComplement xs + twosComplement (ys.map addend) + cpu.registers.p.carry.toNat)
      last.registers.p := by
  cases digits with
  | start => exact absurd rfl nonempty
  | @digit xs ys zs late ready rest left y earlier coasts takes =>
      obtain ⟨pc,after⟩ := ready.step_takes left acts takes
      rw [after,List.map_append,List.map_singleton]
      exact (earlier.added addend acts).flagged {ready.registers with pc := pc} coasts.carry (addend y)

theorem lengths (acts : mnemonic.action = .load fun r y => r.add (addend y))
    (digits : Digits mnemonic cpu m xs ys zs last rest) : xs.length = zs.length ∧ ys.length = zs.length := by
  have added := digits.added addend acts
  have right := added.right
  rw [List.length_map] at right
  exact ⟨added.left,right⟩

theorem adds (digits : Digits .adc cpu m xs ys zs last rest) :
    littleEndian zs + 256 ^ zs.length * last.registers.p.carry.toNat =
        littleEndian xs + littleEndian ys + cpu.registers.p.carry.toNat ∧
      (zs ≠ [] → Flagged zs (twosComplement xs + twosComplement ys + cpu.registers.p.carry.toNat)
        last.registers.p) := by
  have total := (digits.added id rfl).total
  have flags := digits.flagged id rfl
  rw [List.map_id] at total flags
  exact ⟨total,flags⟩

-- What is borrowed comes back as a carry that is clear.
theorem subtracts (digits : Digits .sbc cpu m xs ys zs last rest) :
    (littleEndian zs : Int) =
        littleEndian xs - littleEndian ys - (1 - cpu.registers.p.carry.toNat) +
          256 ^ zs.length * (1 - last.registers.p.carry.toNat) ∧
      (zs ≠ [] → Flagged zs (twosComplement xs - twosComplement ys - (1 - cpu.registers.p.carry.toNat))
        last.registers.p) := by
  have added := digits.added (~~~ ·) rfl
  have missing := littleEndian_complement ys
  rw [(digits.lengths (~~~ ·) rfl).2] at missing
  constructor
  · have total : (littleEndian zs : Int) + 256 ^ zs.length * last.registers.p.carry.toNat =
        littleEndian xs + littleEndian (ys.map (~~~ ·)) + cpu.registers.p.carry.toNat := by
      exact_mod_cast added.total
    have whole : (littleEndian (ys.map (~~~ ·)) : Int) + littleEndian ys + 1 = 256 ^ zs.length := by
      exact_mod_cast missing
    rw [Int.mul_sub,Int.mul_one]
    omega
  · intro nonempty
    have flags := digits.flagged (~~~ ·) rfl nonempty
    cases digits with
    | start => exact absurd rfl nonempty
    | digit earlier coasts takes =>
        rw [twosComplement_complement] at flags
        have signed : ∀ x y c : Int, x + (-1 - y) + c = x - y - (1 - c) := by
          intro x y c
          omega
        rwa [signed] at flags

theorem orders (digits : Digits .sbc cpu m xs ys zs last rest) (unborrowed : cpu.registers.p.carry = true)
    (nonempty : zs ≠ []) :
    (last.registers.p.carry = true ↔ littleEndian ys ≤ littleEndian xs) ∧
      ((last.registers.p.negative != last.registers.p.overflow) = true ↔ twosComplement xs < twosComplement ys) := by
  obtain ⟨difference,flags⟩ := digits.subtracts
  have sign := (flags nonempty).sign
  have below : (littleEndian zs : Int) < 256 ^ zs.length := by
    exact_mod_cast littleEndian_lt zs
  rw [unborrowed,Bool.toNat_true] at difference sign
  constructor
  · cases carry : last.registers.p.carry with
    | true =>
        rw [carry,Bool.toNat_true] at difference
        exact ⟨fun _ => by omega,fun _ => rfl⟩
    | false =>
        rw [carry,Bool.toNat_false] at difference
        exact ⟨fun set => absurd set Bool.false_ne_true,fun ordered => by omega⟩
  · rw [sign]
    omega

end Digits

def comparisons : List (Mnemonic × (Registers → UInt8)) := [(.cmp,(·.a)),(.cpx,(·.x)),(.cpy,(·.y))]

-- A comparison is a subtraction without a borrow of which only three flags are kept.
theorem comparison_subtracts (cpu : Cpu) (m : μ) (compares : Mnemonic × (Registers → UInt8))
    (among : compares ∈ comparisons) (v : UInt8) (takes : cpu.Takes m compares.1 v) :
    let before := cpu.registers
    let after := (cpu.step m).cpu.registers
    (after.a,after.x,after.y,after.sp,after.p.overflow) = (before.a,before.x,before.y,before.sp,before.p.overflow) ∧
      ∀ (other : Cpu) (n : ν), other.Takes n .sbc v → other.registers.a = compares.2 before →
        other.registers.p.carry = true →
        let difference := (other.step n).cpu.registers.p
        (after.p.carry,after.p.zero,after.p.negative) = (difference.carry,difference.zero,difference.negative) := by
  have acts : compares.1.action = .load fun r v => r.compare (compares.2 r) v := by
    simp only [comparisons,List.mem_cons,List.not_mem_nil,or_false] at among
    rcases among with rfl | rfl | rfl <;> rfl
  have reads : ∀ pc, compares.2 {cpu.registers with pc := pc} = compares.2 cpu.registers := by
    simp only [comparisons,List.mem_cons,List.not_mem_nil,or_false] at among
    rcases among with rfl | rfl | rfl <;> exact fun _ => rfl
  intro before after
  obtain ⟨pc,stepped⟩ := cpu.step_takes m acts takes
  -- What is compared does not depend on the counter, which the fetch of the operand has moved.
  have compared : after = Registers.compare {before with pc := pc} (compares.2 before) v :=
    stepped.trans (congrArg (fun register => Registers.compare {before with pc := pc} register v) (reads pc))
  refine ⟨?_,?_⟩
  · rw [compared]
    rfl
  · intro other n subtracts same unborrowed difference
    have subtracting : Mnemonic.sbc.action = .load Registers.subtract := rfl
    obtain ⟨pc',subtracted⟩ := other.step_takes n subtracting subtracts
    have left : difference = (Registers.subtract {other.registers with pc := pc'} v).p :=
      congrArg Registers.p subtracted
    obtain ⟨carry,zero,negative⟩ := Registers.compare_subtract {before with pc := pc} v (compares.2 before)
      {other.registers with pc := pc'} same unborrowed
    rw [compared,left,carry,zero,negative]

end Cpu

-- Memory of which every read takes the next byte, whatever its address.
structure Tape where
  unread : List UInt8

namespace Tape

instance : AddressSpace Tape where
  read m _ := (m.unread.headD 0,⟨m.unread.tail⟩)
  write m _ _ := m
  takeStall m := (0,m)

def program (opcode : UInt8) (xs ys : List UInt8) : List UInt8 :=
  (xs.zip ys).flatMap fun pair => [0xA9,pair.1,opcode,pair.2]

theorem step_immediate (cpu : Cpu) (opcode v : UInt8) (unread : List UInt8) (i : Instruction)
    {update : Registers → UInt8 → Registers} (decoded : decode opcode = some i) (immediate : i.mode = .immediate)
    (acts : i.mnemonic.action = .load update) :
    let tape : Tape := ⟨opcode :: v :: unread⟩
    cpu.Takes tape i.mnemonic v ∧ (cpu.step tape).memory = ⟨unread⟩ := by
  intro tape
  have known : decode (AddressSpace.read tape cpu.registers.pc).1 = some i := decoded
  have recorded : decode (AddressSpace.read (⟨tape,[]⟩ : Recorded Tape) cpu.registers.pc).1 = some i := decoded
  refine ⟨⟨i,known,rfl,?_⟩,?_⟩
  · rw [cpu.step_known _ i recorded]
    simp only [Cpu.performed,Cpu.located,acts,immediate,Mode.locate,Action.perform,Operand.load]
    rfl
  · rw [cpu.step_known _ i known]
    simp only [Cpu.performed,Cpu.located,acts,immediate,Mode.locate,Action.perform,Operand.load]
    rfl

section

variable {cpu late : Cpu} {m : Tape} {opcode : UInt8} {i : Instruction} {update : Registers → UInt8 → Registers}
  {doneX doneY doneZ : List UInt8}

theorem program_digit (decoded : decode opcode = some i) (immediate : i.mode = .immediate)
    (acts : i.mnemonic.action = .load update) (x y : UInt8) (unread : List UInt8)
    (earlier : Cpu.Digits i.mnemonic cpu m doneX doneY doneZ late ⟨0xA9 :: x :: opcode :: y :: unread⟩) :
    ∃ z next, Cpu.Digits i.mnemonic cpu m (doneX ++ [x]) (doneY ++ [y]) (doneZ ++ [z]) next ⟨unread⟩ := by
  have load : decode 0xA9 = some ⟨.lda,.immediate,2,false⟩ := rfl
  obtain ⟨loads,read⟩ := step_immediate late 0xA9 x (opcode :: y :: unread) _ load rfl rfl
  obtain ⟨pc,loaded⟩ := late.step_takes _ rfl loads
  have spares : ∀ i, decode (AddressSpace.read (⟨0xA9 :: x :: opcode :: y :: unread⟩ : Tape) late.registers.pc).1 =
      some i → i.mnemonic ∉ Cpu.carriers := by
    intro i here
    cases Option.some.inj (load.symm.trans here)
    decide
  have coasts := Cpu.Coasts.here.step spares
  rw [read] at coasts
  obtain ⟨takes,left⟩ := step_immediate _ opcode y unread i decoded immediate acts
  have next := earlier.digit coasts takes
  rw [left,loaded] at next
  exact ⟨_,_,next⟩

theorem program_digits (decoded : decode opcode = some i) (immediate : i.mode = .immediate)
    (acts : i.mnemonic.action = .load update) (xs ys : List UInt8) (same : xs.length = ys.length)
    (earlier : Cpu.Digits i.mnemonic cpu m doneX doneY doneZ late ⟨program opcode xs ys⟩) :
    ∃ zs last, Cpu.Digits i.mnemonic cpu m (doneX ++ xs) (doneY ++ ys) zs last ⟨[]⟩ := by
  induction xs generalizing ys doneX doneY doneZ late with
  | nil =>
      cases ys with
      | nil =>
          rw [List.append_nil,List.append_nil]
          exact ⟨_,_,earlier⟩
      | cons y ys => cases same
  | cons x xs ih =>
      cases ys with
      | nil => cases same
      | cons y ys =>
          obtain ⟨z,next,digit⟩ := program_digit decoded immediate acts x y (program opcode xs ys) earlier
          obtain ⟨zs,last,whole⟩ := ih ys (Nat.succ.inj same) digit
          rw [List.append_assoc,List.append_assoc] at whole
          exact ⟨zs,last,whole⟩

end

end Tape

namespace Cpu

def adders : List (Mnemonic × UInt8) := [(.adc,0x69),(.sbc,0xE9)]

-- Long addition, subtraction and comparison, on any memory and by any program.
theorem digits_exact (cpu : Cpu) (m : μ) :
    (∀ xs ys zs last rest, Digits .adc cpu m xs ys zs last rest →
      littleEndian zs + 256 ^ zs.length * last.registers.p.carry.toNat =
          littleEndian xs + littleEndian ys + cpu.registers.p.carry.toNat ∧
        xs.length = zs.length ∧ ys.length = zs.length ∧
        (zs ≠ [] → Flagged zs (twosComplement xs + twosComplement ys + cpu.registers.p.carry.toNat)
          last.registers.p)) ∧
      (∀ xs ys zs last rest, Digits .sbc cpu m xs ys zs last rest →
        (littleEndian zs : Int) =
            littleEndian xs - littleEndian ys - (1 - cpu.registers.p.carry.toNat) +
              256 ^ zs.length * (1 - last.registers.p.carry.toNat) ∧
          xs.length = zs.length ∧ ys.length = zs.length ∧
          (zs ≠ [] → Flagged zs (twosComplement xs - twosComplement ys - (1 - cpu.registers.p.carry.toNat))
            last.registers.p) ∧
          (cpu.registers.p.carry = true → zs ≠ [] →
            (last.registers.p.carry = true ↔ littleEndian ys ≤ littleEndian xs) ∧
              ((last.registers.p.negative != last.registers.p.overflow) = true ↔
                twosComplement xs < twosComplement ys))) ∧
      (∀ compares ∈ comparisons, ∀ v, cpu.Takes m compares.1 v →
        let before := cpu.registers
        let after := (cpu.step m).cpu.registers
        (after.a,after.x,after.y,after.sp,after.p.overflow) = (before.a,before.x,before.y,before.sp,before.p.overflow) ∧
          ∀ (other : Cpu) (n : ν), other.Takes n .sbc v → other.registers.a = compares.2 before →
            other.registers.p.carry = true →
            let difference := (other.step n).cpu.registers.p
            (after.p.carry,after.p.zero,after.p.negative) =
              (difference.carry,difference.zero,difference.negative)) ∧
      (∀ v, cpu.Takes m .lda v →
        let before := cpu.registers
        let after := (cpu.step m).cpu.registers
        (after.a,after.p.carry,after.p.overflow) = (v,before.p.carry,before.p.overflow)) ∧
      -- Numbers of any length meet in such an execution, whatever the flags at its start.
      ∀ adder ∈ adders, ∀ xs ys : List UInt8, xs.length = ys.length →
        ∃ zs last, Digits adder.1 cpu (⟨Tape.program adder.2 xs ys⟩ : Tape) xs ys zs last ⟨[]⟩ := by
  refine ⟨?adding,?subtracting,fun compares among v takes => cpu.comparison_subtracts m compares among v takes,
    ?loading,?executed⟩
  case adding =>
    intro xs ys zs last rest digits
    obtain ⟨left,right⟩ := digits.lengths id rfl
    exact ⟨digits.adds.1,left,right,digits.adds.2⟩
  case subtracting =>
    intro xs ys zs last rest digits
    obtain ⟨left,right⟩ := digits.lengths (~~~ ·) rfl
    exact ⟨digits.subtracts.1,left,right,digits.subtracts.2,digits.orders⟩
  case loading =>
    intro v takes before after
    obtain ⟨pc,loaded⟩ := cpu.step_takes m rfl takes
    exact congrArg (fun r : Registers => (r.a,r.p.carry,r.p.overflow)) loaded
  case executed =>
    intro adder among xs ys same
    simp only [adders,List.mem_cons,List.not_mem_nil,or_false] at among
    rcases among with rfl | rfl
    · exact Tape.program_digits (i := ⟨.adc,.immediate,2,false⟩) rfl rfl rfl xs ys same .start
    · exact Tape.program_digits (i := ⟨.sbc,.immediate,2,false⟩) rfl rfl rfl xs ys same .start

-- The sum of two bytes each is one more than the greatest that has a sign, with the decimal flag set throughout.
theorem largest_overflows :
    let cpu : Cpu := {registers := {p := {decimal := true}}}
    ∃ zs last, Digits .adc cpu (⟨Tape.program 0x69 [0xFF,0x7F] [0x01,0x00]⟩ : Tape) [0xFF,0x7F] [0x01,0x00] zs last
        ⟨[]⟩ ∧
      littleEndian zs = 0x8000 ∧ last.registers.p.carry = false ∧ last.registers.p.overflow = true := by
  intro cpu
  obtain ⟨adding,_,_,_,executed⟩ := digits_exact (ν := Tape) cpu
    (⟨Tape.program 0x69 [0xFF,0x7F] [0x01,0x00]⟩ : Tape)
  obtain ⟨zs,last,digits⟩ := executed (.adc,0x69) (by decide) [0xFF,0x7F] [0x01,0x00] rfl
  obtain ⟨total,left,_,flags⟩ := adding _ _ _ _ _ digits
  have sum : littleEndian [0xFF,0x7F] + littleEndian [0x01,0x00] + cpu.registers.p.carry.toNat = 0x8000 := by decide
  have signed : twosComplement [0xFF,0x7F] + twosComplement [0x01,0x00] + cpu.registers.p.carry.toNat = 0x8000 := by
    decide
  have length : zs.length = 2 := left.symm
  have nonempty : zs ≠ [] := fun empty => absurd (length.symm.trans (congrArg List.length empty)) (by decide)
  have overflow := (flags nonempty).overflow
  rw [sum,length] at total
  rw [signed,length] at overflow
  have clear : last.registers.p.carry = false := by
    cases carry : last.registers.p.carry with
    | false => rfl
    | true =>
        rw [carry,Bool.toNat_true] at total
        omega
  rw [clear,Bool.toNat_false,Nat.mul_zero,Nat.add_zero] at total
  exact ⟨zs,last,digits,total,clear,overflow.mpr (by decide)⟩

end Cpu
end Famicom
