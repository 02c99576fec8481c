import Famicom.CommandLine.Dump
import Mathlib.Algebra.Group.Nat.Defs

namespace Famicom

def digitValue? (c : Char) : Option Nat := (List.range 16).find? fun d => "0123456789ABCDEF".toList[d]? = some c

def hexFrom? (total : Nat) (cs : List Char) : Option Nat :=
  cs.foldlM (fun total c => (digitValue? c).map (16 * total + ·)) total

-- What stands in a row of a text. A number is told by its digits, which are read here and never written.
inductive Piece where
  | word (text : String)
  | hex (width value : Nat)
  | decimal (value : Nat)

instance : Coe String Piece := ⟨.word⟩

def Piece.Spelled : Piece → String → Prop
  | word text, s => s = text
  | hex width value, s => s.length = width ∧ hexFrom? 0 s.toList = some value
  | decimal value, s => s = toString value

abbrev Row := List Piece

inductive Spells : Row → String → Prop where
  | nil : Spells [] ""
  | cons : piece.Spelled part → Spells row s → Spells (piece :: row) (part ++ s)

inductive Prints : List Row → String → Prop where
  | nil : Prints [] ""
  | cons : Spells row l → Prints rows s → Prints (row :: rows) (l ++ "\n" ++ s)

theorem digitValue?_digit : ∀ d < 16, digitValue? (digit d) = some d := by
  decide

theorem digitValue?_some {c : Char} {d : Nat} (value : digitValue? c = some d) :
    d < 16 ∧ "0123456789ABCDEF".toList[d]? = some c := by
  have shown := List.find?_some value
  exact ⟨List.mem_range.mp (List.mem_of_find?_eq_some value),of_decide_eq_true shown⟩

theorem hexFrom?_digits (width n : Nat) : hexFrom? 0 (digits 16 width n) = some (n % 16 ^ width) := by
  induction width generalizing n with
  | zero =>
      rw [Nat.pow_zero,Nat.mod_one]
      rfl
  | succ width ih =>
      have upper := ih (n / 16)
      have last := digitValue?_digit (n % 16) (Nat.mod_lt _ (by decide))
      have parts : n % 16 ^ (width + 1) = 16 * (n / 16 % 16 ^ width) + n % 16 := by
        rw [Nat.pow_succ,Nat.mul_comm _ 16,Nat.mod_mul,Nat.add_comm]
      rw [hexFrom?] at upper ⊢
      rw [digits,List.foldlM_append,upper,Option.bind_eq_bind,Option.bind_some,List.foldlM_cons,last,parts]
      rfl

-- Equally many digits with one value are the same digits, whatever was read before them.
theorem hexFrom?_injective {cs cs' : List Char} {a b v : Nat} (long : cs.length = cs'.length)
    (read : hexFrom? a cs = some v) (read' : hexFrom? b cs' = some v) : a = b ∧ cs = cs' := by
  induction cs generalizing a b cs' with
  | nil =>
      cases List.length_eq_zero_iff.mp long.symm
      exact ⟨Option.some.inj (read.trans read'.symm),rfl⟩
  | cons c cs ih =>
      cases cs' with
      | nil => cases long
      | cons c' cs' =>
          rw [hexFrom?,List.foldlM_cons] at read read'
          obtain ⟨next,first,rest⟩ := Option.bind_eq_some_iff.mp read
          obtain ⟨next',first',rest'⟩ := Option.bind_eq_some_iff.mp read'
          obtain ⟨d,value,rfl⟩ := Option.map_eq_some_iff.mp first
          obtain ⟨d',value',rfl⟩ := Option.map_eq_some_iff.mp first'
          obtain ⟨same,rfl⟩ := ih (Nat.succ.inj long) rest rest'
          obtain ⟨small,shown⟩ := digitValue?_some value
          obtain ⟨small',shown'⟩ := digitValue?_some value'
          have digit : d = d' := by omega
          rw [digit,shown'] at shown
          exact ⟨by omega,by rw [Option.some.inj shown]⟩

theorem Piece.Spelled.unique {piece : Piece} {s s' : String} (first : piece.Spelled s) (second : piece.Spelled s') :
    s = s' := by
  cases piece with
  | word text => exact first.trans second.symm
  | hex width value =>
      have long : s.toList.length = s'.toList.length := first.1.trans second.1.symm
      exact String.toList_inj.mp (hexFrom?_injective long first.2 second.2).2
  | decimal value => exact first.trans second.symm

namespace Spells

variable {row row' : Row} {s s' : String}

theorem unique (first : Spells row s) (second : Spells row s') : s = s' := by
  induction first generalizing s' with
  | nil =>
      cases second
      rfl
  | cons piece _ ih =>
      cases second with
      | cons piece' rest' => rw [piece.unique piece',ih rest']

theorem append (first : Spells row s) (second : Spells row' s') : Spells (row ++ row') (s ++ s') := by
  induction first with
  | nil =>
      rw [String.empty_append]
      exact second
  | cons piece _ ih =>
      rw [String.append_assoc]
      exact .cons piece ih

theorem piece {p : Piece} (spelled : p.Spelled s) : Spells [p] s := by
  have whole : Spells [p] (s ++ "") := .cons spelled .nil
  rwa [String.append_empty] at whole

theorem start (text : String) : Spells [text] text := piece rfl

theorem word (before : Spells row s) (text : String) : Spells (row ++ [.word text]) (s ++ text) :=
  before.append (start text)

theorem decimal (before : Spells row s) (n : Nat) : Spells (row ++ [.decimal n]) (s ++ toString n) :=
  before.append (piece rfl)

end Spells

theorem numeral_spelled {width n : Nat} (fits : n < 16 ^ width) : (Piece.hex width n).Spelled (numeral 16 width n) := by
  constructor
  · rw [numeral,String.length_ofList,digits_length]
  · rw [numeral,String.toList_ofList,hexFrom?_digits,Nat.mod_eq_of_lt fits]

theorem hexByte_spelled (v : UInt8) : (Piece.hex 2 v.toNat).Spelled (hexByte v) := numeral_spelled v.toNat_lt

theorem hexWord_spelled (a : UInt16) : (Piece.hex 4 a.toNat).Spelled (hexWord a) := numeral_spelled a.toNat_lt

namespace Spells

variable {row : Row} {s : String}

theorem byte (before : Spells row s) (v : UInt8) : Spells (row ++ [.hex 2 v.toNat]) (s ++ hexByte v) :=
  before.append (piece (hexByte_spelled v))

theorem address (before : Spells row s) (a : UInt16) : Spells (row ++ [.hex 4 a.toNat]) (s ++ hexWord a) :=
  before.append (piece (hexWord_spelled a))

end Spells

theorem Prints.append {rows rows' : List Row} {s s' : String} (first : Prints rows s) (second : Prints rows' s') :
    Prints (rows ++ rows') (s ++ s') := by
  induction first with
  | nil =>
      rw [String.empty_append]
      exact second
  | cons row _ ih =>
      rw [String.append_assoc]
      exact .cons row ih

theorem Prints.shows {rows : List Row} {row : Row} {s : String} (printed : Prints rows s) (member : row ∈ rows) :
    ∃ above l below, Spells row l ∧ s = above ++ (l ++ "\n") ++ below := by
  induction printed with
  | nil => cases member
  | @cons first l rows s spelled _ ih =>
      rcases List.mem_cons.mp member with rfl | later
      · exact ⟨"",l,s,spelled,by rw [String.empty_append]⟩
      · obtain ⟨above,l',below,spelled',rfl⟩ := ih later
        exact ⟨l ++ "\n" ++ above,l',below,spelled',by simp only [String.append_assoc]⟩

theorem Prints.line {row : Row} {rows : List Row} {l : String} {ls : List String} (spelled : Spells row l)
    (below : Prints rows (lines ls)) : Prints (row :: rows) (lines (l :: ls)) := by
  have apart : lines (l :: ls) = l ++ "\n" ++ lines ls := by
    rw [lines,List.map_cons,String.join_cons]
    rfl
  rw [apart]
  exact .cons spelled below

-- The last part of a constructor's name, as its derived printer has it.
def constructorName {α : Type} [Repr α] (a : α) : List Char :=
  match repr a with
  | .group (.nest _ (.text s)) _ => (s.toList.reverse.takeWhile (· != '.')).reverse
  | _ => []

def Mnemonic.name (m : Mnemonic) : String := String.ofList ((constructorName m).map Char.toUpper)

def Mode.name (m : Mode) : String := String.ofList ((constructorName m).modifyHead Char.toUpper)

def Mirroring.name (m : Mirroring) : String := String.ofList ((constructorName m).modifyHead Char.toUpper)

theorem Mnemonic.text_name (m : Mnemonic) : m.text = m.name := by
  cases m <;> rfl

theorem Mode.text_name (m : Mode) : m.text = m.name := by
  cases m <;> rfl

theorem Mirroring.text_name (m : Mirroring) : m.text = m.name := by
  cases m <;> rfl

-- It is enough to look at the texts of the constructors by their numbers.
theorem text_injective_of_listed {α : Type} {text : α → String} {listed : Nat → α} {place : α → Nat} (n : Nat)
    (listed_place : ∀ a, listed (place a) = a) (within : ∀ a, place a < n)
    (apart : ∀ i < n, ∀ j < n, text (listed i) = text (listed j) → i = j) {a b : α} (same : text a = text b) : a = b := by
  rw [← listed_place a,← listed_place b] at same
  have places := apart _ (within a) _ (within b) same
  rw [← listed_place a,places,listed_place]

theorem Mnemonic.text_injective {a b : Mnemonic} (same : a.text = b.text) : a = b :=
  text_injective_of_listed 56 ofNat_ctorIdx (fun m => by cases m <;> decide) (by decide +kernel) same

theorem Mode.text_injective {a b : Mode} (same : a.text = b.text) : a = b :=
  text_injective_of_listed 13 ofNat_ctorIdx (fun m => by cases m <;> decide) (by decide +kernel) same

end Famicom
