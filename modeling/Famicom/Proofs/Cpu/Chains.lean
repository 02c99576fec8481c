import Famicom.Proofs.Cpu.LongArithmetic
import Mathlib.Data.List.Nodup
import Mathlib.Logic.Function.Basic

namespace Famicom

theorem littleEndian_cons (v : UInt8) (high : List UInt8) :
    littleEndian (v :: high) = v.toNat + 256 * littleEndian high := by
  simp only [littleEndian,List.map_cons,Nat.ofDigits_cons]

theorem littleEndian_injective {xs ys : List UInt8} (length : xs.length = ys.length)
    (same : littleEndian xs = littleEndian ys) : xs = ys := by
  have digits : ∀ bytes : List UInt8, ∀ d ∈ bytes.map UInt8.toNat, d < 256 := by
    intro bytes d among
    obtain ⟨v,_,rfl⟩ := List.mem_map.mp among
    exact v.toNat_lt
  have equal := Nat.ofDigits_inj_of_len_eq (by decide) (by simpa only [List.length_map] using length) (digits xs)
    (digits ys) same
  exact List.map_inj_right (fun _ _ => UInt8.toNat_inj.mp) |>.mp equal

theorem bytes_power (n : Nat) : 256 ^ n = 2 ^ (8 * n) := by
  rw [pow_mul]
  rfl

-- A byte moves up and takes a bit in from below. Nothing is lost: what leaves it at the top is the bit that comes out.
theorem shiftLeft_total (bitIn : Bool) (v : UInt8) :
    (shiftLeft bitIn v).1.toNat + 256 * (shiftLeft bitIn v).2.toNat = 2 * v.toNat + bitIn.toNat := by
  have all : ∀ (bitIn : Bool) (n : Fin 256), (shiftLeft bitIn (UInt8.ofFin n)).1.toNat +
      256 * (shiftLeft bitIn (UInt8.ofFin n)).2.toNat = 2 * n.val + bitIn.toNat := by decide +kernel
  exact all bitIn v.toFin

theorem shiftRight_total (bitIn : Bool) (v : UInt8) :
    2 * (shiftRight bitIn v).1.toNat + (shiftRight bitIn v).2.toNat = v.toNat + 256 * bitIn.toNat := by
  have all : ∀ (bitIn : Bool) (n : Fin 256), 2 * (shiftRight bitIn (UInt8.ofFin n)).1.toNat +
      (shiftRight bitIn (UInt8.ofFin n)).2.toNat = n.val + 256 * bitIn.toNat := by decide +kernel
  exact all bitIn v.toFin

theorem double_parts {n v twice : Nat} {top : Bool} (positive : 0 < n) (below : twice < 256 ^ n)
    (total : twice + 256 ^ n * top.toNat = 2 * v + false.toNat) :
    twice = 2 * v % 256 ^ n ∧ top = v.testBit (8 * n - 1) := by
  rw [Bool.toNat_false,Nat.add_zero] at total
  constructor
  · rw [← total,Nat.add_mul_mod_self_left,Nat.mod_eq_of_lt below]
  · have up : (2 * v).testBit (8 * n - 1 + 1) = v.testBit (8 * n - 1) := by
      rw [Nat.testBit_add_one,Nat.mul_div_cancel_left _ (by decide)]
    have place : 8 * n - 1 + 1 = 8 * n := by omega
    rw [bytes_power] at below total
    rw [← up,place,← total,Nat.add_comm,Nat.testBit_two_pow_mul_add _ below,if_neg (Nat.lt_irrefl _),Nat.sub_self]
    cases top <;> rfl

theorem half_parts {power v half : Nat} {bit : Bool} (total : 2 * half + bit.toNat = v + power * false.toNat) :
    half = v / 2 ∧ bit = v.testBit 0 := by
  rw [Bool.toNat_false,Nat.mul_zero,Nat.add_zero] at total
  have small := bit.toNat_lt
  constructor
  · omega
  · rw [← total,Nat.testBit_zero,Nat.mul_add_mod,Nat.mod_eq_of_lt small]
    cases bit <;> rfl

def ripple (shift : Bool → UInt8 → UInt8 × Bool) (bitIn : Bool) (bytes : List UInt8) : List UInt8 × Bool :=
  match bytes with
  | [] => ([],bitIn)
  | v :: rest =>
    let (rest,bitOut) := ripple shift (shift bitIn v).2 rest
    ((shift bitIn v).1 :: rest,bitOut)

theorem ripple_length (shift : Bool → UInt8 → UInt8 × Bool) (bitIn : Bool) (bytes : List UInt8) :
    (ripple shift bitIn bytes).1.length = bytes.length := by
  induction bytes generalizing bitIn with
  | nil => rfl
  | cons v rest ih => exact congrArg Nat.succ (ih _)

theorem ripple_left (bitIn : Bool) (bytes : List UInt8) :
    littleEndian (ripple shiftLeft bitIn bytes).1 + 256 ^ bytes.length * (ripple shiftLeft bitIn bytes).2.toNat =
      2 * littleEndian bytes + bitIn.toNat := by
  induction bytes generalizing bitIn with
  | nil => simp [ripple,littleEndian]
  | cons v rest ih =>
      have low := shiftLeft_total bitIn v
      have high := ih (shiftLeft bitIn v).2
      simp only [ripple,littleEndian_cons,List.length_cons,Nat.pow_succ'] at high ⊢
      grind

-- Here the highest byte comes first.
theorem ripple_right (bitIn : Bool) (bytes : List UInt8) :
    2 * littleEndian (ripple shiftRight bitIn bytes).1.reverse + (ripple shiftRight bitIn bytes).2.toNat =
      littleEndian bytes.reverse + 256 ^ bytes.length * bitIn.toNat := by
  induction bytes generalizing bitIn with
  | nil => simp [ripple,littleEndian]
  | cons v rest ih =>
      have top := shiftRight_total bitIn v
      have low := ih (shiftRight bitIn v).2
      simp only [ripple,List.reverse_cons,littleEndian_append,List.length_reverse,ripple_length,List.length_cons,
        Nat.pow_succ] at low ⊢
      grind

section
variable {m : Nat} (positive : 0 < m) (x : BitVec (m + 1))
include positive

theorem rotateLeft_toNat : (x.rotateLeft 1).toNat = 2 * (x.toNat % 2 ^ m) + x.toNat / 2 ^ m := by
  have once : 1 % (m + 1) = 1 := Nat.mod_eq_of_lt (by omega)
  have whole := x.isLt
  have up : x.toNat <<< 1 % 2 ^ (m + 1) = (x.toNat % 2 ^ m) <<< 1 := by
    rw [Nat.shiftLeft_eq,Nat.shiftLeft_eq,pow_one,Nat.pow_succ,Nat.mul_mod_mul_right]
  have bit : x.toNat / 2 ^ m < 2 ^ 1 := by
    rw [Nat.div_lt_iff_lt_mul (Nat.two_pow_pos m),← pow_add,Nat.add_comm 1 m]
    exact whole
  rw [BitVec.toNat_rotateLeft,once,Nat.add_sub_cancel,up,Nat.shiftRight_eq_div_pow,
    ← Nat.shiftLeft_add_eq_or_of_lt bit,Nat.shiftLeft_eq,pow_one,Nat.mul_comm]

theorem rotateRight_toNat : (x.rotateRight 1).toNat = x.toNat / 2 + 2 ^ m * (x.toNat % 2) := by
  have once : 1 % (m + 1) = 1 := Nat.mod_eq_of_lt (by omega)
  have whole := x.isLt
  have out : x.toNat <<< m % 2 ^ (m + 1) = (x.toNat % 2) <<< m := by
    rw [Nat.shiftLeft_eq,Nat.shiftLeft_eq,Nat.pow_succ',Nat.mul_mod_mul_right]
  have below : x.toNat / 2 < 2 ^ m := by
    rw [Nat.div_lt_iff_lt_mul (by decide),← Nat.pow_succ]
    exact whole
  rw [BitVec.toNat_rotateRight,once,Nat.add_sub_cancel,out,Nat.shiftRight_eq_div_pow,pow_one,Nat.or_comm,
    ← Nat.shiftLeft_add_eq_or_of_lt below,Nat.shiftLeft_eq,Nat.add_comm,Nat.mul_comm]

end

theorem rotateLeft_zero {w : Nat} (x : BitVec w) : x.rotateLeft 0 = x := by
  apply BitVec.eq_of_getElem_eq
  intro i inside
  simp [BitVec.getElem_rotateLeft]

theorem rotateLeft_succ {w : Nat} (long : 1 < w) (x : BitVec w) (k : Nat) :
    (x.rotateLeft k).rotateLeft 1 = x.rotateLeft (k + 1) := by
  apply BitVec.eq_of_getElem_eq
  intro i inside
  have once : 1 % w = 1 := Nat.mod_eq_of_lt long
  have turned := Nat.mod_lt k (show 0 < w by omega)
  have next : (k + 1) % w = if k % w + 1 = w then 0 else k % w + 1 := by
    rw [Nat.add_mod,once]
    split
    · rename_i full
      rw [full,Nat.mod_self]
    · exact Nat.mod_eq_of_lt (by omega)
  simp only [BitVec.getElem_rotateLeft,once,next]
  grind

theorem rotateLeft_whole {w : Nat} (x : BitVec w) : x.rotateLeft w = x := by
  rw [← BitVec.rotateLeft_mod_eq_rotateLeft,Nat.mod_self,rotateLeft_zero]

def withCarry (n : Nat) (bytes : List UInt8) (carry : Bool) : BitVec (8 * n + 1) :=
  .ofNat _ (littleEndian bytes + 256 ^ n * carry.toNat)

section
variable {n : Nat} {bytes : List UInt8} (length : bytes.length = n)
include length

theorem withCarry_toNat (carry : Bool) :
    (withCarry n bytes carry).toNat = littleEndian bytes + 2 ^ (8 * n) * carry.toNat := by
  have below := littleEndian_lt bytes
  have bit := carry.toNat_lt
  rw [length,bytes_power] at below
  rw [withCarry,BitVec.toNat_ofNat,bytes_power,pow_succ,Nat.mod_eq_of_lt]
  nlinarith

theorem withCarry_bytes (carry : Bool) : (withCarry n bytes carry).toNat % 2 ^ (8 * n) = littleEndian bytes := by
  have below := littleEndian_lt bytes
  rw [length,bytes_power] at below
  rw [withCarry_toNat length,Nat.add_mul_mod_self_left,Nat.mod_eq_of_lt below]

theorem withCarry_carry (carry : Bool) : (withCarry n bytes carry).toNat / 2 ^ (8 * n) = carry.toNat := by
  have below := littleEndian_lt bytes
  rw [length,bytes_power] at below
  rw [withCarry_toNat length,Nat.add_mul_div_left _ _ (Nat.two_pow_pos _),Nat.div_eq_of_lt below,Nat.zero_add]

theorem withCarry_injective {others : List UInt8} (lengthToo : others.length = n) {carry carry' : Bool}
    (same : withCarry n bytes carry = withCarry n others carry') : bytes = others ∧ carry = carry' := by
  have value := withCarry_bytes length carry
  have bit := withCarry_carry length carry
  rw [same] at value bit
  rw [withCarry_bytes lengthToo] at value
  rw [withCarry_carry lengthToo] at bit
  have bits : carry = carry' := by
    cases carry <;> cases carry' <;> first | rfl | cases bit
  exact ⟨littleEndian_injective (length.trans lengthToo.symm) value.symm,bits⟩

end

def shifters : List Mnemonic := [.asl,.lsr,.rol,.ror]

def Mnemonic.shift (mnemonic : Mnemonic) : Bool → UInt8 → UInt8 × Bool :=
  match mnemonic with
  | .asl => fun _ => shiftLeft false
  | .lsr => fun _ => shiftRight false
  | .rol => shiftLeft
  | .ror => shiftRight
  | _ => fun carry v => (v,carry)

theorem Mnemonic.shift_action {mnemonic : Mnemonic} (shifts : mnemonic ∈ shifters) :
    mnemonic.action = .modify mnemonic.shift := by
  simp only [shifters,List.mem_cons,List.not_mem_nil,or_false] at shifts
  rcases shifts with rfl | rfl | rfl | rfl <;> rfl

def through {π : Type} [DecidableEq π] (shifts : List (Mnemonic × π)) (s : (π → UInt8) × Bool) : (π → UInt8) × Bool :=
  match shifts with
  | [] => s
  | (mnemonic,p) :: later =>
    through later (Function.update s.1 p (mnemonic.shift s.2 (s.1 p)).1,(mnemonic.shift s.2 (s.1 p)).2)

section
variable {π : Type} [DecidableEq π]

theorem through_append (shifts more : List (Mnemonic × π)) (s : (π → UInt8) × Bool) :
    through (shifts ++ more) s = through more (through shifts s) := by
  induction shifts generalizing s with
  | nil => rfl
  | cons first later ih => exact ih _

theorem through_other {p : π} (shifts : List (Mnemonic × π)) (apart : p ∉ shifts.map Prod.snd)
    (s : (π → UInt8) × Bool) : (through shifts s).1 p = s.1 p := by
  induction shifts generalizing s with
  | nil => rfl
  | cons first later ih =>
      rw [List.map_cons,List.mem_cons,not_or] at apart
      exact (ih apart.2 _).trans (Function.update_of_ne apart.1 _ _)

theorem through_congr {places : List π} (shifts : List (Mnemonic × π)) (about : ∀ x ∈ shifts, x.2 ∈ places)
    {bytes bytes' : π → UInt8} {carry carry' : Bool} (same : ∀ p ∈ places, bytes p = bytes' p) (bit : carry = carry') :
    (∀ p ∈ places, (through shifts (bytes,carry)).1 p = (through shifts (bytes',carry')).1 p) ∧
      (through shifts (bytes,carry)).2 = (through shifts (bytes',carry')).2 := by
  induction shifts generalizing bytes bytes' carry carry' with
  | nil => exact ⟨same,bit⟩
  | cons first later ih =>
      obtain ⟨here,others⟩ := List.forall_mem_cons.mp about
      subst bit
      refine ih others ?_ ?_
      · intro p among
        simp only [same _ here,Function.update_apply,same p among]
      · exact congrArg (fun v => (first.1.shift carry v).2) (same _ here)

-- The same shift at one place after the other hands the carry on from byte to byte.
theorem through_ripple (mnemonic : Mnemonic) {places : List π} (distinct : places.Nodup) (s : (π → UInt8) × Bool) :
    places.map (through (places.map (mnemonic,·)) s).1 = (ripple mnemonic.shift s.2 (places.map s.1)).1 ∧
      (through (places.map (mnemonic,·)) s).2 = (ripple mnemonic.shift s.2 (places.map s.1)).2 := by
  induction places generalizing s with
  | nil => exact ⟨rfl,rfl⟩
  | cons p rest ih =>
      obtain ⟨apart,distinct⟩ := List.nodup_cons.mp distinct
      let next := (Function.update s.1 p (mnemonic.shift s.2 (s.1 p)).1,(mnemonic.shift s.2 (s.1 p)).2)
      have later : rest.map next.1 = rest.map s.1 :=
        List.map_congr_left fun q among => Function.update_of_ne (fun same : q = p => apart (same ▸ among)) _ _
      have here : (through (rest.map (mnemonic,·)) next).1 p = (mnemonic.shift s.2 (s.1 p)).1 := by
        rw [through_other _ (by simpa using apart)]
        exact Function.update_self ..
      obtain ⟨bytes,carry⟩ := ih distinct next
      rw [later] at bytes carry
      exact ⟨List.cons_eq_cons.mpr ⟨here,bytes⟩,carry⟩

def chain (first later : Mnemonic) (places : List π) : List (Mnemonic × π) :=
  match places with
  | [] => []
  | p :: rest => (first,p) :: rest.map (later,·)

omit [DecidableEq π] in
theorem chain_same (mnemonic : Mnemonic) (places : List π) :
    chain mnemonic mnemonic places = places.map (mnemonic,·) := by
  cases places <;> rfl

omit [DecidableEq π] in
theorem chain_mem {first later : Mnemonic} {places : List π} {x : Mnemonic × π} (among : x ∈ chain first later places) :
    (x.1 = first ∨ x.1 = later) ∧ x.2 ∈ places := by
  cases places with
  | nil => cases among
  | cons p rest =>
      rcases List.mem_cons.mp among with rfl | others
      · exact ⟨.inl rfl,List.mem_cons_self⟩
      · obtain ⟨q,of,rfl⟩ := List.mem_map.mp others
        exact ⟨.inr rfl,List.mem_cons_of_mem _ of⟩

-- A chain whose first shift lets nothing in is one that finds the carry clear.
theorem chain_clear {first later : Mnemonic} (clear : ∀ carry, first.shift carry = later.shift false) {places : List π}
    (filled : places ≠ []) (bytes : π → UInt8) (carry : Bool) :
    through (chain first later places) (bytes,carry) = through (places.map (later,·)) (bytes,false) := by
  cases places with
  | nil => exact absurd rfl filled
  | cons p rest => simp only [chain,through,List.map_cons,clear]

def wordOf (places : List π) (s : (π → UInt8) × Bool) : BitVec (8 * places.length + 1) :=
  withCarry places.length (places.map s.1) s.2

variable {places : List π} (distinct : places.Nodup) (filled : places ≠ [])
include distinct

theorem leftward_total (s : (π → UInt8) × Bool) :
    littleEndian (places.map (through (places.map (.rol,·)) s).1) +
        256 ^ places.length * (through (places.map (.rol,·)) s).2.toNat =
      2 * littleEndian (places.map s.1) + s.2.toNat := by
  obtain ⟨bytes,carry⟩ := through_ripple .rol distinct s
  have total := ripple_left s.2 (places.map s.1)
  rw [List.length_map] at total
  rw [bytes,carry]
  exact total

theorem rightward_total (s : (π → UInt8) × Bool) :
    2 * littleEndian (places.map (through (places.reverse.map (.ror,·)) s).1) +
        (through (places.reverse.map (.ror,·)) s).2.toNat =
      littleEndian (places.map s.1) + 256 ^ places.length * s.2.toNat := by
  obtain ⟨bytes,carry⟩ := through_ripple .ror (List.nodup_reverse.mpr distinct) s
  have total := ripple_right s.2 (places.reverse.map s.1)
  rw [← List.map_reverse,List.reverse_reverse,List.length_map,List.length_reverse] at total
  rw [← List.reverse_reverse (places.map _),← List.map_reverse,bytes,carry]
  exact total

include filled

omit [DecidableEq π] distinct in
theorem wordOf_long : 0 < 8 * places.length := Nat.mul_pos (by decide) (List.length_pos_of_ne_nil filled)

theorem leftward_word (s : (π → UInt8) × Bool) :
    wordOf places (through (places.map (.rol,·)) s) = (wordOf places s).rotateLeft 1 := by
  have total := leftward_total distinct s
  rw [bytes_power] at total
  apply BitVec.eq_of_toNat_eq
  rw [rotateLeft_toNat (wordOf_long filled),wordOf,wordOf,withCarry_bytes (List.length_map _),
    withCarry_carry (List.length_map _),withCarry_toNat (List.length_map _),total]

theorem rightward_word (s : (π → UInt8) × Bool) :
    wordOf places (through (places.reverse.map (.ror,·)) s) = (wordOf places s).rotateRight 1 := by
  have total := rightward_total distinct s
  have bit := (through (places.reverse.map (.ror,·)) s).2.toNat_lt
  rw [bytes_power] at total
  apply BitVec.eq_of_toNat_eq
  rw [rotateRight_toNat (wordOf_long filled),wordOf,wordOf,withCarry_toNat (List.length_map _),
    withCarry_toNat (List.length_map _),← total,Nat.mul_add_mod,Nat.mod_eq_of_lt bit,Nat.mul_add_div (by decide),
    Nat.div_eq_of_lt bit,Nat.add_zero]

omit filled in
theorem leftward_rightward (s : (π → UInt8) × Bool) :
    wordOf places (through (places.map (.rol,·) ++ places.reverse.map (.ror,·)) s) = wordOf places s := by
  rw [through_append]
  have up := leftward_total distinct s
  have down := rightward_total distinct (through (places.map (.rol,·)) s)
  rw [up] at down
  have bit := s.2.toNat_lt
  have bitToo := (through (places.reverse.map (.ror,·)) (through (places.map (.rol,·)) s)).2.toNat_lt
  apply BitVec.eq_of_toNat_eq
  rw [wordOf,wordOf,withCarry_toNat (List.length_map _),withCarry_toNat (List.length_map _)]
  have bytes : littleEndian (places.map (through (places.reverse.map (.ror,·)) (through (places.map (.rol,·)) s)).1) =
      littleEndian (places.map s.1) := by omega
  have carry : (through (places.reverse.map (.ror,·)) (through (places.map (.rol,·)) s)).2.toNat = s.2.toNat := by omega
  rw [bytes,carry]

theorem leftward_turns (k : Nat) (s : (π → UInt8) × Bool) :
    wordOf places (through (List.replicate k (places.map (.rol,·))).flatten s) = (wordOf places s).rotateLeft k := by
  induction k generalizing s with
  | zero => exact (rotateLeft_zero _).symm
  | succ k ih =>
      rw [List.replicate_succ',List.flatten_append,List.flatten_singleton,through_append,
        leftward_word distinct filled,ih,rotateLeft_succ (Nat.succ_lt_succ (wordOf_long filled))]

end

end Famicom
