import Famicom.Proofs.Picture.Ranges

namespace Famicom

open Ppu (Register)

inductive PortAccess where
  | read (a : UInt16)
  | write (a : UInt16) (v : UInt8)
  deriving DecidableEq, Repr

namespace PortAccess

def address (x : PortAccess) : UInt16 :=
  match x with
  | .read a | .write a _ => a

def register (x : PortAccess) : Register := .selected x.address

def OnPort (x : PortAccess) : Prop := 0x2000 ≤ x.address ∧ x.address < 0x4000

instance (x : PortAccess) : Decidable x.OnPort := inferInstanceAs (Decidable (_ ∧ _))

def settles (x : PortAccess) : Bool :=
  match x with
  | .read a => Register.selected a = .status
  | .write .. => false

def turns (x : PortAccess) : Bool :=
  match x with
  | .read _ => false
  | .write a _ => Register.selected a ∈ [.scroll,.address]

def scroll? (x : PortAccess) : Option UInt8 :=
  match x with
  | .read _ => none
  | .write a v => if Register.selected a = .scroll then some v else none

-- An access to none of the registers that have to do with pairs or with the video address.
def Spares (x : PortAccess) : Prop := x.register ∉ [.status,.scroll,.address,.data]

instance (x : PortAccess) : Decidable x.Spares := inferInstanceAs (Decidable (_ ∉ _))

-- The latch after a history, newest first: the parity of the halves written since the report was last read, and where
-- it was never read, of the latch at the start as well.
def latchAfter (start : Bool) (past : List PortAccess) : Bool :=
  let halves := (past.takeWhile (!·.settles)).countP turns
  (halves + if past.any settles then 0 else start.toNat) % 2 = 1

def scrolled? (start latch : Bool) (past : List PortAccess) : Option UInt8 :=
  match past with
  | [] => none
  | x :: earlier =>
    match x.scroll? with
    | some v => if latchAfter start earlier = latch then some v else scrolled? start latch earlier
    | none => scrolled? start latch earlier

variable {start : Bool} {x : PortAccess}

theorem latchAfter_settles (past : List PortAccess) (settles : x.settles = true) :
    latchAfter start (x :: past) = false := by
  simp [latchAfter,settles]

theorem latchAfter_turns (past : List PortAccess) (turns : x.turns = true) :
    latchAfter start (x :: past) = !latchAfter start past := by
  have plain : x.settles = false := by
    cases x with
    | read a => cases turns
    | write a v => rfl
  simp only [latchAfter,List.takeWhile_cons,plain,Bool.not_false,if_true,List.countP_cons,turns,List.any_cons,
    Bool.false_or,← decide_not,decide_eq_decide]
  omega

theorem latchAfter_other (past : List PortAccess) (keeps : x.settles = false) (stays : x.turns = false) :
    latchAfter start (x :: past) = latchAfter start past := by
  simp [latchAfter,keeps,stays]

theorem scrolled?_other (latch : Bool) (past : List PortAccess) (other : x.scroll? = none) :
    scrolled? start latch (x :: past) = scrolled? start latch past := by
  rw [scrolled?,other]

end PortAccess

namespace Bus

def served (b : Bus) (x : PortAccess) : Bus :=
  match x with
  | .read a => (b.read a).2
  | .write a v => b.write a v

def servedAll (b : Bus) (accesses : List PortAccess) : Bus := accesses.foldl served b

theorem servedAll_append (b : Bus) (accesses more : List PortAccess) :
    b.servedAll (accesses ++ more) = (b.servedAll accesses).servedAll more := List.foldl_append

theorem containing_port {a : UInt16} (port : 0x2000 ≤ a ∧ a < 0x4000) :
    Region.containing a = .register (.selected a) := by
  obtain ⟨above,below⟩ := port
  rw [Region.containing,if_neg (UInt16.not_lt.mpr above),if_pos below]

theorem served_read {a : UInt16} (b : Bus) (port : (PortAccess.read a).OnPort) :
    (b.served (.read a)).ppu = (b.ppu.readRegister b.cartridge (.selected a)).2 := by
  have region : Region.containing a = .register (.selected a) := containing_port port
  rw [served,read,region]

theorem served_write {a : UInt16} (b : Bus) (v : UInt8) (port : (PortAccess.write a v).OnPort) :
    (b.served (.write a v)).ppu = (b.ppu.writeRegister b.cartridge (.selected a) v).1 := by
  have region : Region.containing a = .register (.selected a) := containing_port port
  rw [served,write,region]

end Bus

namespace Ppu

-- What the pairs have come to after a history that began at `start`.
structure Paired (start : Ppu) (past : List PortAccess) (p : Ppu) : Prop where
  latch : p.latch = PortAccess.latchAfter start.latch past
  scrollX : p.scrollX = (PortAccess.scrolled? start.latch false past).getD start.scrollX
  scrollY : p.scrollY = (PortAccess.scrolled? start.latch true past).getD start.scrollY
  address : p.address < 0x4000

namespace Paired

variable {start p : Ppu} {past : List PortAccess}

theorem begin (low : start.address < 0x4000) : Paired start [] start where
  latch := by
    cases latch : start.latch <;> rfl
  scrollX := rfl
  scrollY := rfl
  address := low

theorem other (paired : Paired start past p) {x : PortAccess} {p' : Ppu} (keeps : x.settles = false)
    (stays : x.turns = false) (latch : p'.latch = p.latch) (scrollX : p'.scrollX = p.scrollX)
    (scrollY : p'.scrollY = p.scrollY) (low : p'.address < 0x4000) : Paired start (x :: past) p' := by
  have unscrolled : x.scroll? = none := by
    cases x with
    | read a => rfl
    | write a v =>
        refine if_neg fun scrolls => ?_
        simp [PortAccess.turns,scrolls] at stays
  refine ⟨?_,?_,?_,low⟩
  · rw [latch,paired.latch,PortAccess.latchAfter_other past keeps stays]
  · rw [scrollX,paired.scrollX,PortAccess.scrolled?_other false past unscrolled]
  · rw [scrollY,paired.scrollY,PortAccess.scrolled?_other true past unscrolled]

theorem read (paired : Paired start past p) (c : Cartridge) (a : UInt16) :
    Paired start (.read a :: past) (p.readRegister c (.selected a)).2 := by
  cases picked : Register.selected a with
  | status =>
      have settles : (PortAccess.read a).settles = true := by simp [PortAccess.settles,picked]
      exact ⟨(PortAccess.latchAfter_settles past settles).symm,paired.scrollX,paired.scrollY,paired.address⟩
  | data =>
      have keeps : (PortAccess.read a).settles = false := by simp [PortAccess.settles,picked]
      simp only [readRegister,readData]
      split <;> exact paired.other keeps rfl rfl rfl rfl (fold_lt _)
  | control | mask | oamAddress | oamData | scroll | address =>
      have keeps : (PortAccess.read a).settles = false := by simp [PortAccess.settles,picked]
      exact paired.other keeps rfl rfl rfl rfl paired.address

theorem scroll (paired : Paired start past p) (c : Cartridge) (a : UInt16) (v : UInt8)
    (picked : Register.selected a = .scroll) :
    Paired start (.write a v :: past) (p.writeRegister c .scroll v).1 := by
  have turns : (PortAccess.write a v).turns = true := by simp [PortAccess.turns,picked]
  have turned : PortAccess.latchAfter start.latch (.write a v :: past) = !PortAccess.latchAfter start.latch past :=
    PortAccess.latchAfter_turns past turns
  rw [← paired.latch] at turned
  have written : (PortAccess.write a v).scroll? = some v := if_pos picked
  cases stood : p.latch with
  | false =>
      rw [stood] at turned
      refine ⟨?_,?_,?_,?_⟩ <;> simp only [writeRegister,stood,Bool.false_eq_true,if_false]
      · exact turned.symm
      · simp [PortAccess.scrolled?,written,← paired.latch,stood]
      · simp [PortAccess.scrolled?,written,← paired.latch,stood,paired.scrollY]
      · exact paired.address
  | true =>
      rw [stood] at turned
      refine ⟨?_,?_,?_,?_⟩ <;> simp only [writeRegister,stood,if_true]
      · exact turned.symm
      · simp [PortAccess.scrolled?,written,← paired.latch,stood,paired.scrollX]
      · simp [PortAccess.scrolled?,written,← paired.latch,stood]
      · exact paired.address

theorem halfAddress (paired : Paired start past p) (c : Cartridge) (a : UInt16) (v : UInt8)
    (picked : Register.selected a = .address) :
    Paired start (.write a v :: past) (p.writeRegister c .address v).1 := by
  have turns : (PortAccess.write a v).turns = true := by simp [PortAccess.turns,picked]
  have turned : PortAccess.latchAfter start.latch (.write a v :: past) = !PortAccess.latchAfter start.latch past :=
    PortAccess.latchAfter_turns past turns
  rw [← paired.latch] at turned
  have unscrolled : (PortAccess.write a v).scroll? = none := by simp [PortAccess.scroll?,picked]
  have left : PortAccess.scrolled? start.latch false (.write a v :: past) = PortAccess.scrolled? start.latch false past :=
    PortAccess.scrolled?_other false past unscrolled
  have right : PortAccess.scrolled? start.latch true (.write a v :: past) = PortAccess.scrolled? start.latch true past :=
    PortAccess.scrolled?_other true past unscrolled
  cases stood : p.latch with
  | false =>
      rw [stood] at turned
      simp only [writeRegister,stood,Bool.false_eq_true,if_false]
      exact ⟨turned.symm,left ▸ paired.scrollX,right ▸ paired.scrollY,word_lt (paletteByte_lt v)⟩
  | true =>
      rw [stood] at turned
      simp only [writeRegister,stood,if_true]
      exact ⟨turned.symm,left ▸ paired.scrollX,right ▸ paired.scrollY,word_lt (highByte_lt paired.address)⟩

theorem write (paired : Paired start past p) (c : Cartridge) (a : UInt16) (v : UInt8) :
    Paired start (.write a v :: past) (p.writeRegister c (.selected a) v).1 := by
  cases picked : Register.selected a with
  | scroll => exact paired.scroll c a v picked
  | address => exact paired.halfAddress c a v picked
  | data =>
      have stays : (PortAccess.write a v).turns = false := by simp [PortAccess.turns,picked]
      simp only [writeRegister,Ppu.write]
      split
      · exact paired.other rfl stays rfl rfl rfl (fold_lt _)
      · split <;> exact paired.other rfl stays rfl rfl rfl (fold_lt _)
  | control | mask | status | oamAddress | oamData =>
      have stays : (PortAccess.write a v).turns = false := by simp [PortAccess.turns,picked]
      exact paired.other rfl stays rfl rfl rfl paired.address

theorem served {b : Bus} (paired : Paired start past b.ppu) (x : PortAccess) (port : x.OnPort) :
    Paired start (x :: past) (b.served x).ppu := by
  cases x with
  | read a =>
      rw [b.served_read port]
      exact paired.read b.cartridge a
  | write a v =>
      rw [b.served_write v port]
      exact paired.write b.cartridge a v

theorem servedAll (accesses : List PortAccess) : ∀ {past : List PortAccess} {b : Bus}, Paired start past b.ppu →
    (∀ x ∈ accesses, x.OnPort) → Paired start (accesses.reverse ++ past) (b.servedAll accesses).ppu := by
  -- By induction on the accesses to come, because the past grows at its front.
  induction accesses with
  | nil => exact fun paired _ => paired
  | cons x rest ih =>
      intro past b paired ports
      obtain ⟨port,others⟩ := List.forall_mem_cons.mp ports
      have whole := ih (paired.served x port) others
      rwa [List.reverse_cons,List.append_assoc]

end Paired
end Ppu

namespace Bus

theorem served_spares (b : Bus) (x : PortAccess) (port : x.OnPort) (spares : x.Spares) :
    (b.served x).ppu.latch = b.ppu.latch ∧ (b.served x).ppu.address = b.ppu.address := by
  cases x with
  | read a =>
      rw [b.served_read port]
      cases picked : Register.selected a with
      | status | scroll | address | data => exact absurd (by simp [PortAccess.register,PortAccess.address,picked]) spares
      | control | mask | oamAddress | oamData => exact ⟨rfl,rfl⟩
  | write a v =>
      rw [b.served_write v port]
      cases picked : Register.selected a with
      | status | scroll | address | data => exact absurd (by simp [PortAccess.register,PortAccess.address,picked]) spares
      | control | mask | oamAddress | oamData => exact ⟨rfl,rfl⟩

theorem servedAll_spares (accesses : List PortAccess) : ∀ b : Bus, (∀ x ∈ accesses, x.OnPort ∧ x.Spares) →
    (b.servedAll accesses).ppu.latch = b.ppu.latch ∧ (b.servedAll accesses).ppu.address = b.ppu.address := by
  induction accesses with
  | nil => exact fun b _ => ⟨rfl,rfl⟩
  | cons x rest ih =>
      intro b all
      obtain ⟨⟨port,spares⟩,others⟩ := List.forall_mem_cons.mp all
      obtain ⟨latch,address⟩ := ih (b.served x) others
      obtain ⟨latchNow,addressNow⟩ := b.served_spares x port spares
      exact ⟨latch.trans latchNow,address.trans addressNow⟩

theorem served_settles (b : Bus) {report : UInt16} (port : (PortAccess.read report).OnPort)
    (picked : Register.selected report = .status) :
    (b.served (.read report)).ppu.latch = false ∧ (b.served (.read report)).ppu.address = b.ppu.address := by
  rw [b.served_read port,picked]
  exact ⟨rfl,rfl⟩

theorem served_opens (b : Bus) {a : UInt16} (v : UInt8) (port : (PortAccess.write a v).OnPort)
    (back : b.ppu.latch = false) :
    (Register.selected a = .address → (b.served (.write a v)).ppu.latch = true ∧
      (b.served (.write a v)).ppu.address = word (lowByte b.ppu.address) (v % 0x40)) ∧
    (Register.selected a = .scroll → (b.served (.write a v)).ppu.latch = true ∧
      (b.served (.write a v)).ppu.address = b.ppu.address) := by
  rw [b.served_write v port]
  constructor
  · intro picked
    simp only [picked,Ppu.writeRegister,back,Bool.false_eq_true,if_false,and_self]
  · intro picked
    simp only [picked,Ppu.writeRegister,back,Bool.false_eq_true,if_false,and_self]

theorem served_closes (b : Bus) {a : UInt16} (v : UInt8) (port : (PortAccess.write a v).OnPort)
    (picked : Register.selected a = .address) (turned : b.ppu.latch = true) :
    (b.served (.write a v)).ppu.address = word v (highByte b.ppu.address) := by
  rw [b.served_write v port]
  simp only [picked,Ppu.writeRegister,turned,if_true]

def pairing (report a a' : UInt16) (v low : UInt8) (first second : List PortAccess) : List PortAccess :=
  .read report :: first ++ .write a v :: second ++ [.write a' low]

theorem pairing_address (b : Bus) (report a a' : UInt16) (v low : UInt8) (first second : List PortAccess)
    (ports : ∀ x ∈ pairing report a a' v low first second, x.OnPort)
    (spare : ∀ x ∈ first ++ second, x.Spares) (settles : Register.selected report = .status)
    (closes : Register.selected a' = .address) :
    let address := (b.servedAll (pairing report a a' v low first second)).ppu.address.toNat
    (Register.selected a = .address → address = v.toNat % 64 * 256 + low.toNat) ∧
      (Register.selected a = .scroll → address = b.ppu.address.toNat / 256 * 256 + low.toNat) := by
  have parts : ∀ x, x ∈ pairing report a a' v low first second ↔
      x = .read report ∨ x ∈ first ∨ x = .write a v ∨ x ∈ second ∨ x = .write a' low := by
    simp [pairing]
  obtain ⟨back,old⟩ := b.served_settles (ports _ ((parts _).mpr (.inl rfl))) settles
  -- The states after the read of the report, after the accesses that spare the pairs, and after the first half.
  let b₁ := b.served (.read report)
  obtain ⟨stillBack,stillOld⟩ := b₁.servedAll_spares first fun x among =>
    ⟨ports x ((parts x).mpr (.inr (.inl among))),spare x (List.mem_append_left _ among)⟩
  let b₂ := b₁.servedAll first
  obtain ⟨highFirst,scrollFirst⟩ := b₂.served_opens v (ports (.write a v) ((parts _).mpr (.inr (.inr (.inl rfl)))))
    (stillBack.trans back)
  let b₃ := b₂.served (.write a v)
  obtain ⟨turned,kept⟩ := b₃.servedAll_spares second fun x among =>
    ⟨ports x ((parts x).mpr (.inr (.inr (.inr (.inl among))))),spare x (List.mem_append_right _ among)⟩
  have closing := (b₃.servedAll second).served_closes low
    (ports (.write a' low) ((parts _).mpr (.inr (.inr (.inr (.inr rfl)))))) closes
  have whole : b.servedAll (pairing report a a' v low first second) =
      (b₃.servedAll second).served (.write a' low) := by
    rw [pairing,servedAll_append,servedAll_append]
    rfl
  rw [whole]
  constructor
  · intro opens
    obtain ⟨latch,address⟩ := highFirst opens
    rw [closing (turned.trans latch),kept,address,highByte_word,word_toNat,UInt8.toNat_mod]
    rfl
  · intro opens
    obtain ⟨latch,address⟩ := scrollFirst opens
    rw [closing (turned.trans latch),kept,address,stillOld,old,word_toNat,highByte_page]
    rfl

-- What the two registers have come to after any accesses, and what a pair of writes then does.
theorem pairs_told (b : Bus) (low : b.ppu.address < 0x4000) (accesses : List PortAccess)
    (ports : ∀ x ∈ accesses, x.OnPort) :
    let after := b.servedAll accesses
    let past := accesses.reverse
    after.ppu.latch = PortAccess.latchAfter b.ppu.latch past ∧
      after.ppu.scrollX = (PortAccess.scrolled? b.ppu.latch false past).getD b.ppu.scrollX ∧
      after.ppu.scrollY = (PortAccess.scrolled? b.ppu.latch true past).getD b.ppu.scrollY ∧
      after.ppu.address < 0x4000 ∧
      ∀ report a a' v l first second, (∀ x ∈ pairing report a a' v l first second, x.OnPort) →
        (∀ x ∈ first ++ second, x.Spares) → Register.selected report = .status → Register.selected a' = .address →
          let address := (after.servedAll (pairing report a a' v l first second)).ppu.address.toNat
          (Register.selected a = .address → address = v.toNat % 64 * 256 + l.toNat) ∧
            (Register.selected a = .scroll → address = after.ppu.address.toNat / 256 * 256 + l.toNat) := by
  intro after past
  have paired : Ppu.Paired b.ppu past after.ppu := by
    have whole := (Ppu.Paired.begin low).servedAll accesses ports
    rwa [List.append_nil] at whole
  exact ⟨paired.latch,paired.scrollX,paired.scrollY,paired.address,after.pairing_address⟩

-- An address is left half written, so that the next scroll pair starts on its second side. The report is read once, in
-- the middle of another pair.
def interleaved : List PortAccess :=
  [.write 0x2006 0x21,.write 0x3FFD 0x10,.write 0x2005 0x07,.read 0x2007,.read 0x200A,.write 0x2005 0x09]

theorem interleaved_told :
    let b := Machine.stumbling.bus
    let after := b.servedAll interleaved
    b.ppu.address < 0x4000 ∧ (∀ x ∈ interleaved, x.OnPort) ∧ after.ppu.latch = true ∧ after.ppu.scrollX = 0x09 ∧
      after.ppu.scrollY = 0x10 ∧
      (after.servedAll (pairing 0x2002 0x2006 0x200E 0xFF 0x34 [.write 0x2000 0x04] [.read 0x2004])).ppu.address.toNat =
        0x3F34 ∧
      (after.servedAll (pairing 0x2002 0x2005 0x200E 0xFF 0x34 [.write 0x2000 0x04] [.read 0x2004])).ppu.address.toNat =
        0x2134 := by
  intro b after
  have low : b.ppu.address < 0x4000 := by decide
  have ports : ∀ x ∈ interleaved, x.OnPort := by decide
  obtain ⟨latch,scrollX,scrollY,_,pairs⟩ := pairs_told b low interleaved ports
  have left : after.ppu.address.toNat = 0x2101 := by decide +kernel
  have high := (pairs 0x2002 0x2006 0x200E 0xFF 0x34 [.write 0x2000 0x04] [.read 0x2004] (by decide) (by decide)
    (by decide) (by decide)).1 (by decide)
  have scroll := (pairs 0x2002 0x2005 0x200E 0xFF 0x34 [.write 0x2000 0x04] [.read 0x2004] (by decide) (by decide)
    (by decide) (by decide)).2 (by decide)
  refine ⟨low,ports,latch.trans ?_,scrollX.trans ?_,scrollY.trans ?_,high.trans ?_,scroll.trans ?_⟩
  · decide
  · decide
  · decide
  · decide
  · rw [left]
    decide

end Bus
end Famicom
