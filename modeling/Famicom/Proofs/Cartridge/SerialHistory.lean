import Famicom.Console.Journal
import Mathlib.Data.Nat.Digits.Defs

namespace Famicom
namespace Mmc1

structure PortWrite where
  address : UInt16
  value : UInt8
  deriving DecidableEq, Repr

namespace PortWrite

def abandons (w : PortWrite) : Bool := hasBit w.value 0x80

def bit (w : PortWrite) : Nat := w.value.toNat % 2

end PortWrite

def number (group : List PortWrite) : Nat := Nat.ofDigits 2 (group.map PortWrite.bit)

inductive Milestone where
  | latch (address : UInt16) (value : Nat)
  | abandonment
  deriving DecidableEq, Repr

-- One latch for each five. Of the five addresses only the last one counts.
def latches (piece : List PortWrite) : List Milestone :=
  match piece with
  | a :: b :: c :: d :: e :: rest => .latch e.address (number [a,b,c,d,e]) :: latches rest
  | _ => []

def afterFives (piece : List PortWrite) : List PortWrite :=
  match piece with
  | _ :: _ :: _ :: _ :: _ :: rest => afterFives rest
  | few => few

def pieces (writes : List PortWrite) : List (List PortWrite) := writes.splitOnP PortWrite.abandons

def milestones (writes : List PortWrite) : List Milestone :=
  [Milestone.abandonment].intercalate ((pieces writes).map latches)

-- The writes that no latch has used and no abandonment has lost.
def unfinished (writes : List PortWrite) : List PortWrite := afterFives ((pieces writes).getLastD [])

abbrev Banks := Register → Nat

namespace Banks

def powerOn : Banks
  | .control => 0x0C
  | .chr0 | .chr1 | .prg => 0

def picked (address : UInt16) : Register :=
  match address.toNat.testBit 14, address.toNat.testBit 13 with
  | false, false => .control
  | false, true => .chr0
  | true, false => .chr1
  | true, true => .prg

def after (banks : Banks) (event : Milestone) : Banks :=
  match event with
  | .latch address value => Function.update banks (picked address) value
  | .abandonment => Function.update banks .control (banks .control ||| 0x0C)

end Banks

structure Latch where
  address : UInt16
  value : Nat
  banks : Banks

def Banks.log (banks : Banks) (events : List Milestone) : List Latch :=
  match events with
  | [] => []
  | .latch address value :: rest =>
    let banks := banks.after (.latch address value)
    ⟨address,value,banks⟩ :: banks.log rest
  | .abandonment :: rest => (banks.after .abandonment).log rest

theorem Banks.picked_selected (address : UInt16) : picked address = .selected address := by
  unfold picked Register.selected
  rw [Nat.testBit_eq_decide_div_mod_eq,Nat.testBit_eq_decide_div_mod_eq]
  have pair : address.toNat / 0x2000 % 4 = address.toNat / 2 ^ 14 % 2 * 2 + address.toNat / 2 ^ 13 % 2 := by omega
  rw [pair]
  rcases Nat.mod_two_eq_zero_or_one (address.toNat / 2 ^ 14) with upper | upper <;>
    rcases Nat.mod_two_eq_zero_or_one (address.toNat / 2 ^ 13) with lower | lower <;>
    rw [upper,lower] <;> rfl

theorem Banks.log_append (banks : Banks) (events later : List Milestone) :
    banks.log (events ++ later) = banks.log events ++ (events.foldl Banks.after banks).log later := by
  induction events generalizing banks with
  | nil => rfl
  | cons event events ih =>
      cases event with
      | latch address value => exact congrArg _ (ih _)
      | abandonment => exact ih _

variable {m : Mmc1} {pending : List PortWrite} {w : PortWrite}

theorem pieces_append (rest : List PortWrite) (plain : ∀ w ∈ pending, w.abandons = false) :
    pieces (pending ++ rest) = (pieces rest).modifyHead (pending ++ ·) := by
  obtain ⟨head,tail,cut⟩ := List.exists_cons_of_ne_nil (List.splitOnP_ne_nil PortWrite.abandons rest)
  induction pending with
  | nil => simp only [pieces,cut,List.nil_append,List.modifyHead_cons]
  | cons w pending ih =>
      have here := plain w List.mem_cons_self
      have later := ih fun v member => plain v (List.mem_cons_of_mem w member)
      simp only [pieces] at later ⊢
      rw [List.cons_append,List.splitOnP_cons_eq_if_modifyHead,here,later,cut]
      rfl

theorem latches_short (short : pending.length < 5) : latches pending = [] := by
  unfold latches
  split
  · simp only [List.length_cons] at short
    omega
  · rfl

theorem afterFives_short (short : pending.length < 5) : afterFives pending = pending := by
  unfold afterFives
  split
  · simp only [List.length_cons] at short
    omega
  · rfl

theorem latches_five (rest : List PortWrite) (four : pending.length = 4) :
    latches (pending ++ w :: rest) = .latch w.address (number (pending ++ [w])) :: latches rest := by
  obtain ⟨a,b,c,d,rfl⟩ : ∃ a b c d, pending = [a,b,c,d] := by
    match pending,four with
    | [a,b,c,d],_ => exact ⟨a,b,c,d,rfl⟩
  rfl

theorem afterFives_five (rest : List PortWrite) (four : pending.length = 4) :
    afterFives (pending ++ w :: rest) = afterFives rest := by
  match pending,four with
  | [_,_,_,_],_ => rfl

theorem milestones_short (plain : ∀ w ∈ pending, w.abandons = false) (short : pending.length < 5) :
    milestones pending = [] ∧ unfinished pending = pending := by
  have whole : pieces pending = [pending] := List.splitOnP_eq_singleton plain
  constructor
  · rw [milestones,whole,List.map_singleton,latches_short short]
    rfl
  · rw [unfinished,whole]
    exact afterFives_short short

theorem milestones_abandon (rest : List PortWrite) (plain : ∀ w ∈ pending, w.abandons = false)
    (short : pending.length < 5) (abandons : w.abandons = true) :
    milestones (pending ++ w :: rest) = .abandonment :: milestones rest ∧
      unfinished (pending ++ w :: rest) = unfinished rest := by
  obtain ⟨head,tail,cut⟩ := List.exists_cons_of_ne_nil (List.splitOnP_ne_nil PortWrite.abandons rest)
  have split : pieces (pending ++ w :: rest) = pending :: head :: tail := by
    rw [pieces,List.splitOnP_append_cons_of_forall_mem plain w abandons,cut]
  have later : pieces rest = head :: tail := cut
  constructor
  · rw [milestones,milestones,split,later,List.map_cons,latches_short short]
    rfl
  · rw [unfinished,unfinished,split,later]
    rfl

theorem milestones_latch (rest : List PortWrite) (plain : ∀ w ∈ pending, w.abandons = false)
    (four : pending.length = 4) (collects : w.abandons = false) :
    milestones (pending ++ w :: rest) = .latch w.address (number (pending ++ [w])) :: milestones rest ∧
      unfinished (pending ++ w :: rest) = unfinished rest := by
  obtain ⟨head,tail,cut⟩ := List.exists_cons_of_ne_nil (List.splitOnP_ne_nil PortWrite.abandons rest)
  have five : ∀ v ∈ pending ++ [w], v.abandons = false := by
    intro v member
    rcases List.mem_append.mp member with earlier | last
    · exact plain v earlier
    · rw [List.mem_singleton.mp last]
      exact collects
  have later : pieces rest = head :: tail := cut
  have split : pieces (pending ++ w :: rest) = (pending ++ w :: head) :: tail := by
    rw [List.append_cons,pieces_append rest five,later,List.modifyHead_cons,← List.append_cons]
  constructor
  · rw [milestones,milestones,split,later,List.map_cons,latches_five head four,List.map_cons]
    cases tail <;> rfl
  · rw [unfinished,unfinished,split,later]
    cases tail with
    | nil => exact afterFives_five head four
    | cons next tail => rfl

theorem number_lt (group : List PortWrite) : number group < 2 ^ group.length := by
  have digits : ∀ d ∈ group.map PortWrite.bit, d < 2 := by
    intro d member
    obtain ⟨w,_,rfl⟩ := List.mem_map.mp member
    exact Nat.mod_lt _ Nat.two_pos
  have bound := Nat.ofDigits_lt_base_pow_length Nat.one_lt_two digits
  rwa [List.length_map] at bound

theorem number_append (group : List PortWrite) (w : PortWrite) :
    number (group ++ [w]) = number group + 2 ^ group.length * w.bit := by
  simp only [number,List.map_append,Nat.ofDigits_append,List.length_map,List.map_singleton,Nat.ofDigits_singleton]

def value (m : Mmc1) (register : Register) : BitVec 5 :=
  match register with
  | .control => m.control
  | .chr0 => m.chr0
  | .chr1 => m.chr1
  | .prg => m.prg

def banks (m : Mmc1) : Banks := fun register => (m.value register).toNat

structure Collecting (m : Mmc1) (pending : List PortWrite) : Prop where
  plain : ∀ w ∈ pending, w.abandons = false
  count : m.collected.val = pending.length
  bits : m.shift.toNat = number pending

namespace Collecting

theorem short (collecting : Collecting m pending) : pending.length < 5 := by
  rw [← collecting.count]
  exact m.collected.isLt

theorem shifted (collecting : Collecting m pending) (w : PortWrite) :
    (m.shifted w.value).toNat = number (pending ++ [w]) := by
  have below := number_lt pending
  have bound := number_lt (pending ++ [w])
  have room : 2 ^ (pending ++ [w]).length ≤ 2 ^ 5 := by
    apply Nat.pow_le_pow_right Nat.two_pos
    have := collecting.short
    simp only [List.length_append,List.length_singleton]
    omega
  rw [number_append] at bound ⊢
  have shift : (w.value.toNat % 2 % 2 ^ 5) <<< pending.length % 2 ^ 5 = 2 ^ pending.length * w.bit := by
    rw [Nat.mod_eq_of_lt (Nat.lt_of_lt_of_le (Nat.mod_lt _ Nat.two_pos) (by decide)),Nat.shiftLeft_eq,Nat.mul_comm]
    exact Nat.mod_eq_of_lt (by simp only [PortWrite.bit] at bound; omega)
  rw [Mmc1.shifted,BitVec.toNat_or,BitVec.toNat_shiftLeft,BitVec.toNat_ofNat,collecting.count,collecting.bits,
    shift,Nat.or_comm,← Nat.two_pow_add_eq_or_of_lt below,Nat.add_comm]

theorem abandons (abandons : w.abandons = true) :
    Collecting (m.write w.address w.value) [] ∧
      (m.write w.address w.value).banks = m.banks.after .abandonment := by
  rw [write_abandons m w.address w.value abandons]
  refine ⟨⟨fun _ member => absurd member List.not_mem_nil,rfl,rfl⟩,?_⟩
  funext register
  cases register with
  | control => exact BitVec.toNat_or ..
  | chr0 | chr1 | prg => rfl

theorem collects (collecting : Collecting m pending) (collects : w.abandons = false) (room : pending.length ≠ 4) :
    Collecting (m.write w.address w.value) (pending ++ [w]) ∧
      (m.write w.address w.value).banks = m.banks := by
  have space : m.collected ≠ 4 := fun full => room (collecting.count.symm.trans (congrArg Fin.val full))
  rw [write_collects m w.address w.value collects space]
  refine ⟨⟨?_,?_,collecting.shifted w⟩,rfl⟩
  · intro v member
    rcases List.mem_append.mp member with earlier | last
    · exact collecting.plain v earlier
    · rw [List.mem_singleton.mp last]
      exact collects
  · have count := collecting.count
    have short := collecting.short
    show (m.collected.val + 1) % 5 = (pending ++ [w]).length
    rw [count,List.length_append,List.length_singleton]
    omega

theorem completes (collecting : Collecting m pending) (collects : w.abandons = false) (four : pending.length = 4) :
    m.completes? w.value = some (m.shifted w.value) := by
  have full : m.collected = 4 := Fin.ext (collecting.count.trans four)
  have top : hasBit w.value 0x80 = false := collects
  simp only [completes?,top,full,Bool.false_eq_true,if_false,if_true]

theorem latch (collecting : Collecting m pending) (collects : w.abandons = false) (four : pending.length = 4) :
    Collecting (m.write w.address w.value) [] ∧
      (m.write w.address w.value).banks = m.banks.after (.latch w.address (number (pending ++ [w]))) := by
  rw [write_completes m w.address w.value _ (collecting.completes collects four)]
  refine ⟨⟨fun _ member => absurd member List.not_mem_nil,rfl,rfl⟩,?_⟩
  rw [← collecting.shifted w]
  funext register
  cases picked : Register.selected w.address <;> cases register <;>
    simp [banks,value,assign,discard,Banks.after,Banks.picked_selected,picked]

end Collecting

theorem powerOn_collecting : Collecting powerOn [] := ⟨fun _ member => absurd member List.not_mem_nil,rfl,rfl⟩

theorem powerOn_banks : powerOn.banks = Banks.powerOn := by
  funext register
  cases register <;> rfl

def records (m : Mmc1) (w : PortWrite) : List Record :=
  ((m.completes? w.value).map (.latched w.address · (m.write w.address w.value))).toList

end Mmc1

def Record.latch? (r : Record) : Option Mmc1.Latch :=
  match r with
  | .latched address value registers => some ⟨address,value.toNat,registers.banks⟩
  | _ => none

namespace Mmc1

variable {m : Mmc1} {pending : List PortWrite} {w : PortWrite}

structure Follows (m : Mmc1) (pending : List PortWrite) (w : PortWrite) (events : List Milestone)
    (next : List PortWrite) : Prop where
  collecting : Collecting (m.write w.address w.value) next
  banks : (m.write w.address w.value).banks = events.foldl Banks.after m.banks
  records : (m.records w).map Record.latch? = (m.banks.log events).map some
  milestones : ∀ rest, milestones (pending ++ w :: rest) = events ++ milestones (next ++ rest)
  unfinished : ∀ rest, unfinished (pending ++ w :: rest) = unfinished (next ++ rest)

theorem Collecting.follows (collecting : Collecting m pending) (w : PortWrite) :
    ∃ events next, Follows m pending w events next := by
  cases kind : w.abandons with
  | true =>
      obtain ⟨next,banks⟩ := Collecting.abandons (m := m) kind
      have cut := fun rest => milestones_abandon rest collecting.plain collecting.short kind
      have top : hasBit w.value 0x80 = true := kind
      refine ⟨[.abandonment],[],next,banks,?_,fun rest => (cut rest).1,fun rest => (cut rest).2⟩
      simp only [Mmc1.records,completes?,top,if_true]
      rfl
  | false =>
      -- The write is the last of a five, or one more of an unfinished one.
      by_cases four : pending.length = 4
      · obtain ⟨next,banks⟩ := collecting.latch kind four
        have used := fun rest => milestones_latch rest collecting.plain four kind
        refine ⟨[.latch w.address (number (pending ++ [w]))],[],next,banks,?_,fun rest => (used rest).1,
          fun rest => (used rest).2⟩
        simp only [Mmc1.records,collecting.completes kind four,Option.map_some,Option.toList_some,List.map_singleton,
          Record.latch?,banks,collecting.shifted w]
        rfl
      · obtain ⟨next,banks⟩ := collecting.collects kind four
        have top : hasBit w.value 0x80 = false := kind
        have space : m.collected ≠ 4 := fun full => four (collecting.count.symm.trans (congrArg Fin.val full))
        refine ⟨[],pending ++ [w],next,banks,?_,fun rest => ?_,fun rest => ?_⟩
        · simp only [Mmc1.records,completes?,top,space,Bool.false_eq_true,if_false]
          rfl
        · rw [List.append_cons,List.nil_append]
        · rw [List.append_cons]

def run (m : Mmc1) (writes : List PortWrite) : Mmc1 := writes.foldl (fun m w => m.write w.address w.value) m

end Mmc1

namespace Journal

open Mmc1 (PortWrite Latch Collecting Banks milestones unfinished number)

variable {m : Mmc1} {pending : List PortWrite} {w : PortWrite} {j : Journal}

def writeAll (j : Journal) (writes : List PortWrite) : Journal :=
  writes.foldl (fun j w => j.write w.address w.value) j

def advanced (j : Journal) (m : Mmc1) (records : List Record) : Journal :=
  ⟨{j.bus with cartridge := {j.bus.cartridge with mapper := .mmc1 m}},records.reverse ++ j.records⟩

theorem write_port (board : j.bus.cartridge.mapper = .mmc1 m) (window : 0x8000 ≤ w.address) :
    j.write w.address w.value = j.advanced (m.write w.address w.value) (m.records w) := by
  have region : Bus.Region.containing w.address = .program := by
    simp only [Bus.Region.containing]
    grind
  cases complete : m.completes? w.value <;>
    simp [write,region,board,Mapper.latched?,complete,Bus.write,Cartridge.prgWrite,Mapper.prgWrite,advanced,
      Mmc1.records]

theorem writeAll_advances (collecting : Collecting m pending) (board : j.bus.cartridge.mapper = .mmc1 m)
    (writes : List PortWrite) (window : ∀ w ∈ writes, 0x8000 ≤ w.address) :
    ∃ last records, j.writeAll writes = j.advanced last records ∧
      Collecting last (unfinished (pending ++ writes)) ∧
      last.banks = (milestones (pending ++ writes)).foldl Banks.after m.banks ∧
      records.map Record.latch? = (m.banks.log (milestones (pending ++ writes))).map some := by
  -- What a board makes of some more writes depends on its past only through its registers and the writes it is
  -- collecting, so the induction is on the writes to come.
  induction writes generalizing j m pending with
  | nil =>
      obtain ⟨none,left⟩ := Mmc1.milestones_short collecting.plain collecting.short
      rw [List.append_nil,none,left]
      refine ⟨m,[],?_,collecting,rfl,rfl⟩
      rw [advanced,← board]
      rfl
  | cons w rest ih =>
      obtain ⟨events,next,follows⟩ := collecting.follows w
      have here := write_port board (window w List.mem_cons_self)
      have advanced : (j.write w.address w.value).bus.cartridge.mapper = .mmc1 (m.write w.address w.value) := by
        rw [here]
        rfl
      obtain ⟨last,records,done,holds,banks,log⟩ :=
        ih follows.collecting advanced fun v member => window v (List.mem_cons_of_mem w member)
      refine ⟨last,m.records w ++ records,?_,?_,?_,?_⟩
      · rw [writeAll,List.foldl_cons]
        rw [writeAll] at done
        rw [done,here]
        simp only [Journal.advanced,List.reverse_append,List.append_assoc]
      · rw [follows.unfinished]
        exact holds
      · rw [follows.milestones,List.foldl_append,← follows.banks]
        exact banks
      · rw [follows.milestones,Mmc1.Banks.log_append,← follows.banks,List.map_append,List.map_append,log,
          follows.records]

-- The serial registers are what the history of writes makes them. A complete five is recorded once, and nothing
-- else is.
theorem serial_history (j : Journal) (writes : List PortWrite)
    (fresh : j.bus.cartridge.mapper = .mmc1 .powerOn) (window : ∀ w ∈ writes, 0x8000 ≤ w.address) :
    ∃ m records, j.writeAll writes = j.advanced m records ∧
      m.collected.val = (unfinished writes).length ∧ (unfinished writes).length < 5 ∧
      m.shift.toNat = number (unfinished writes) ∧ m.shift.toNat < 2 ^ m.collected.val ∧
      (∀ register, (m.value register).toNat = (milestones writes).foldl Banks.after .powerOn register ∧
        (milestones writes).foldl Banks.after .powerOn register < 32) ∧
      records.map Record.latch? = (Banks.powerOn.log (milestones writes)).map some := by
  obtain ⟨m,records,done,collecting,banks,log⟩ := writeAll_advances Mmc1.powerOn_collecting fresh writes window
  rw [List.nil_append] at collecting banks log
  rw [Mmc1.powerOn_banks] at banks log
  refine ⟨m,records,done,collecting.count,collecting.short,collecting.bits,?_,?_,log⟩
  · rw [collecting.bits,collecting.count]
    exact Mmc1.number_lt _
  · intro register
    have same : (m.value register).toNat = (milestones writes).foldl Banks.after .powerOn register :=
      congrFun banks register
    rw [← same]
    exact ⟨rfl,(m.value register).isLt⟩

def unusedBoard : Journal where
  bus := .around
    {header := ⟨1,1,0x10,0⟩,trainer := none,prg := #[0],chr := #[0],chrWritable := false,ram := none
     mapper := .mmc1 .powerOn}

-- Two bits lost to an abandonment, a five for the program bank, and one bit more. Only the address of the last
-- write of the five is in the range of that register.
def restartedWrites : List PortWrite :=
  [⟨0x8000,1⟩,⟨0x8000,0⟩,⟨0xFFFF,0x80⟩,
   ⟨0x8000,0x7F⟩,⟨0x8000,0⟩,⟨0xA000,1⟩,⟨0xC000,0x7E⟩,⟨0xE000,0x01⟩,⟨0x8000,1⟩]

theorem restartedWrites_history :
    unusedBoard.bus.cartridge.mapper = .mmc1 .powerOn ∧ (∀ w ∈ restartedWrites, 0x8000 ≤ w.address) ∧
      ∃ m records, unusedBoard.writeAll restartedWrites = unusedBoard.advanced m records ∧
        m.collected.val = 1 ∧ m.shift.toNat = 1 ∧ m.prg.toNat = 0b10101 ∧ m.control.toNat = 0b01100 ∧
        records.length = 1 := by
  have fresh : unusedBoard.bus.cartridge.mapper = .mmc1 .powerOn := rfl
  have window : ∀ w ∈ restartedWrites, 0x8000 ≤ w.address := by decide
  obtain ⟨m,records,done,count,_,bits,_,registers,log⟩ := serial_history unusedBoard restartedWrites fresh window
  refine ⟨fresh,window,m,records,done,count,bits,(registers .prg).1,(registers .control).1,?_⟩
  have lengths := congrArg List.length log
  rwa [List.length_map,List.length_map] at lengths

end Journal
end Famicom
