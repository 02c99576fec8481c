import Famicom.Proofs.Cartridge.Sections
import Famicom.Proofs.Console.Regions
import Famicom.Proofs.Console.Traffic

namespace Famicom

-- The board keeps save memory shut off. On a board with serial registers that is bit 4 of the program register.
def Mapper.locked (m : Mapper) : Bool :=
  match m with
  | .nrom => false
  | .mmc1 registers => registers.prg.getLsbD 4

theorem Mapper.ramEnabled_locked (m : Mapper) : m.ramEnabled = !m.locked := by
  cases m with
  | nrom => rfl
  | mmc1 registers =>
      have all : ∀ v : BitVec 5, (v.toNat / 16 == 0) = !v.getLsbD 4 := by decide
      exact all registers.prg

inductive Entry where
  | wrote (a : UInt16) (v : UInt8) (board : Mapper)
  | powered
  deriving DecidableEq, Repr

namespace Entry

-- The last value written to an address of work memory or to a repetition of it. Entries stand newest first.
def lastWork (entries : List Entry) (b : UInt16) : UInt8 :=
  match entries with
  | [] => 0
  | powered :: _ => 0
  | wrote a v _ :: rest => if a < 0x2000 ∧ a.toNat % 0x800 = b.toNat % 0x800 then v else lastWork rest b

def lastSaved (entries : List Entry) (b : UInt16) : UInt8 :=
  match entries with
  | [] => 0
  | powered :: rest => lastSaved rest b
  | wrote a v board :: rest => if a = b ∧ board.locked = false then v else lastSaved rest b

end Entry

structure Chronicle where
  bus : Bus
  entries : List Entry := []

instance : AddressSpace Chronicle where
  read m a := ((m.bus.read a).1,{m with bus := (m.bus.read a).2})
  write m a v := ⟨m.bus.write a v,.wrote a v m.bus.cartridge.mapper :: m.entries⟩
  takeStall m := (m.bus.stall,{m with bus := {m.bus with stall := 0}})

theorem chronicle_faithful : Faithful Chronicle.bus :=
  ⟨fun _ _ => ⟨rfl,rfl⟩,fun _ _ _ => rfl,fun _ => ⟨rfl,rfl⟩⟩

namespace Hardware

def touchedAll (h : Hardware) (touches : List Touch) : Hardware := touches.foldl touched h

def entries (h : Hardware) (t : Touch) : List Entry :=
  match t with
  | .drive d => (d.done h.cpu (⟨h.bus,[]⟩ : Chronicle)).2.entries
  | .powerCycle => [.powered]
  | _ => []

def chronicle (h : Hardware) (touches : List Touch) : List Entry :=
  match touches with
  | [] => []
  | t :: rest => (h.touched t).chronicle rest ++ h.entries t

end Hardware

theorem Cartridge.chrWrite_ram (c : Cartridge) (a : UInt16) (v : UInt8) : (c.chrWrite a v).ram = c.ram := by
  unfold chrWrite
  split <;> rfl

-- From the picture processor no memory of the cartridge can be reached but the patterns.
theorem Ppu.write_ram (p : Ppu) (c : Cartridge) (a : UInt16) (v : UInt8) : (p.write c a v).2.ram = c.ram := by
  simp only [write]
  split
  · exact c.chrWrite_ram _ v
  · split <;> rfl

theorem Ppu.writeRegister_ram (p : Ppu) (c : Cartridge) (register : Register) (v : UInt8) :
    (p.writeRegister c register v).2.ram = c.ram := by
  cases register with
  | control | mask | status | oamAddress | oamData => rfl
  | scroll | address =>
      simp only [writeRegister]
      split <;> rfl
  | data => exact p.write_ram c _ v

namespace Bus

variable {c : Cartridge} {b b' : Bus} {a : UInt16} {es : List Entry}

theorem ramCell_inj {a' : UInt16} (above : 0x6000 ≤ a) (below : a < 0x8000) (above' : 0x6000 ≤ a')
    (below' : a' < 0x8000) (same : Cartridge.ramCell a = Cartridge.ramCell a') : a = a' := by
  have cells := congrArg Fin.val same
  simp only [Cartridge.ramCell] at cells
  rw [UInt16.le_iff_toNat_le] at above above'
  rw [UInt16.lt_iff_toNat_lt] at below below'
  simp only [UInt16.reduceToNat] at above above' below below'
  apply UInt16.toNat_inj.mp
  omega

theorem get_set {n : Nat} (cells : Vector UInt8 n) (i j : Fin n) (v : UInt8) :
    (cells.set i v).get j = if i.val = j.val then v else cells.get j := Vector.getElem_set i.isLt j.isLt

theorem read_ram (b : Bus) (a : UInt16) : (b.read a).2.ram = b.ram := by
  rw [read]
  split <;> rfl

theorem transfer_ram (b : Bus) (page : UInt8) : (b.transfer page).ram = b.ram :=
  transfer_keeps (fun after => after.ram = b.ram) (fun after a same => (after.read_ram a).trans same)
    (fun _ _ same => same) (fun _ _ same => same) page rfl

structure Tells (c : Cartridge) (b : Bus) (es : List Entry) : Prop where
  work : ∀ a < 0x2000, b.ram.get (workCell a) = Entry.lastWork es a
  save : ∀ ram, b.cartridge.ram = some ram → ∀ a, 0x6000 ≤ a → a < 0x8000 →
    ram.get (Cartridge.ramCell a) = Entry.lastSaved es a
  descends : c.Descends b.cartridge

theorem Tells.start (empty : ∀ ram, c.ram = some ram → ram = Vector.replicate _ 0) : Tells c (.around c) [] where
  work _ _ := Vector.getElem_replicate _
  save ram present a above below := by
    rw [empty ram present]
    exact Vector.getElem_replicate _
  descends := .refl c

theorem Tells.same (tells : Tells c b es) (ram : b'.ram = b.ram) (saved : b'.cartridge.ram = b.cartridge.ram)
    (descends : c.Descends b'.cartridge) : Tells c b' es := by
  refine ⟨?_,?_,descends⟩
  · rw [ram]
    exact tells.work
  · rw [saved]
    exact tells.save

theorem Tells.read (tells : Tells c b es) (a : UInt16) : Tells c (b.read a).2 es := by
  have cartridge := b.read_cartridge a
  apply tells.same (b.read_ram a)
  · rw [cartridge]
  · rw [cartridge]
    exact tells.descends

theorem Tells.pass (tells : Tells c b es) (v : UInt8) (board : Mapper) (work : ¬ a < 0x2000)
    (save : ¬ (0x6000 ≤ a ∧ a < 0x8000)) : Tells c b (.wrote a v board :: es) := by
  refine ⟨?_,?_,tells.descends⟩
  · intro x low
    rw [tells.work x low,Entry.lastWork,if_neg (fun hit => work hit.1)]
  · intro ram present x above below
    rw [tells.save ram present x above below,Entry.lastSaved,if_neg]
    rintro ⟨rfl,_⟩
    exact save ⟨above,below⟩

theorem Tells.write_work (tells : Tells c b es) (low : a < 0x2000) (v : UInt8) (board : Mapper) :
    Tells c {b with ram := b.ram.set (workCell a) v} (.wrote a v board :: es) := by
  refine ⟨?_,?_,tells.descends⟩
  · intro x within
    rw [Entry.lastWork,← tells.work x within,get_set]
    simp only [low,true_and]
    rfl
  · intro ram present x above below
    rw [tells.save ram present x above below,Entry.lastSaved,if_neg]
    rintro ⟨rfl,_⟩
    exact absurd low (UInt16.not_lt.mpr (UInt16.le_trans (by decide) above))

theorem Tells.write_save (tells : Tells c b es) (above : 0x6000 ≤ a) (below : a < 0x8000) (v : UInt8) :
    Tells c {b with cartridge := b.cartridge.ramWrite a v} (.wrote a v b.cartridge.mapper :: es) := by
  refine ⟨?_,?_,tells.descends.ramWrite a v⟩
  · intro x low
    have high : ¬ a < 0x2000 := UInt16.not_lt.mpr (UInt16.le_trans (by decide) above)
    rw [Entry.lastWork,if_neg (fun hit => high hit.1)]
    exact tells.work x low
  · intro ram present x above' below'
    simp only [Cartridge.ramWrite,Mapper.ramEnabled_locked] at present
    rw [Entry.lastSaved]
    cases before : b.cartridge.ram with
    | none =>
        simp [before] at present
    | some old =>
        have kept := tells.save old before x above' below'
        -- A locked board takes no write, and the search for the last value passes over its entry.
        cases locked : b.cartridge.mapper.locked with
        | true =>
            simp only [before,locked,Bool.not_true,Bool.false_eq_true,if_false] at present
            cases present
            rw [kept,if_neg (fun hit => Bool.noConfusion hit.2)]
        | false =>
            simp only [before,locked,Bool.not_false,if_true] at present
            cases present
            simp only [get_set,and_true]
            by_cases here : a = x
            · simp [here]
            · have apart : (Cartridge.ramCell a).val ≠ (Cartridge.ramCell x).val :=
                fun same => here (ramCell_inj above below above' below' (Fin.eq_of_val_eq same))
              rw [if_neg here,if_neg apart]
              exact kept

theorem Tells.write (tells : Tells c b es) (a : UInt16) (v : UInt8) :
    Tells c (b.write a v) (.wrote a v b.cartridge.mapper :: es) := by
  have bounds := containing_bounds a
  have descends := write_descends tells.descends a v
  unfold Bus.write at descends ⊢
  -- A write is told by its region, and only two regions have memory that is told of.
  cases region : Region.containing a with
  | work cell =>
      rw [region] at bounds
      have here : cell = workCell a := Fin.eq_of_val_eq bounds.2
      rw [here]
      exact tells.write_work bounds.1 v _
  | save =>
      rw [region] at bounds
      exact tells.write_save bounds.1 bounds.2 v
  | register register =>
      rw [region] at bounds descends
      have passed := tells.pass v b.cartridge.mapper (a := a) (by grind) (by grind)
      exact passed.same rfl (b.ppu.writeRegister_ram b.cartridge register v) descends
  | transfer =>
      rw [region] at bounds descends
      have passed := tells.pass v b.cartridge.mapper (a := a) (by grind) (by grind)
      exact passed.same (b.transfer_ram v) (by rw [transfer_cartridge]) descends
  | unwired | program =>
      rw [region] at bounds descends
      have passed := tells.pass v b.cartridge.mapper (a := a) (by grind) (by grind)
      exact passed.same rfl rfl descends

theorem Tells.powered (tells : Tells c b es) : Tells c b.powerCycle (.powered :: es) where
  work _ _ := Vector.getElem_replicate _
  save := tells.save
  descends := tells.descends.powerOn

theorem tells_lasting (c : Cartridge) (earlier : List Entry) :
    Lasting fun m : Chronicle => Tells c m.bus (m.entries ++ earlier) where
  read _ a tells := tells.read a
  write _ a v tells := tells.write a v
  stall _ tells := tells.same rfl rfl tells.descends

end Bus

namespace Hardware

variable {c : Cartridge} {h : Hardware} {earlier : List Entry}

theorem touched_tells (tells : h.bus.Tells c earlier) (t : Touch) :
    (h.touched t).bus.Tells c (h.entries t ++ earlier) := by
  cases t with
  | drive d =>
      have told := d.done_lasting (Bus.tells_lasting c earlier) h.cpu (⟨h.bus,[]⟩ : Chronicle) tells
      rw [(d.done_faithful chronicle_faithful h.cpu _).2] at told
      exact told
  | peek | peekVideo => exact tells
  | writeVideo a v =>
      exact tells.same rfl (h.bus.ppu.write_ram _ a v) (h.bus.ppu.write_descends tells.descends a v)
  | poke | takeStall => exact tells.same rfl rfl tells.descends
  | powerCycle => exact tells.powered

theorem touchedAll_tells (tells : h.bus.Tells c earlier) (touches : List Touch) :
    (h.touchedAll touches).bus.Tells c (h.chronicle touches ++ earlier) := by
  induction touches generalizing h earlier with
  | nil => exact tells
  | cons t touches ih =>
      rw [chronicle,List.append_assoc]
      exact ih (touched_tells tells t)

end Hardware

namespace Bus

structure Shows (image : Array UInt8) (c : Cartridge) (b : Bus) (es : List Entry) : Prop where
  work : ∀ a < 0x2000, b.peek a = Entry.lastWork es a
  unwired : ∀ a, 0x4000 ≤ a → a < 0x6000 → b.peek a = 0
  save : ∀ a, 0x6000 ≤ a → a < 0x8000 →
    b.peek a = if c.hasRam ∧ b.cartridge.mapper.locked = false then Entry.lastSaved es a else 0
  -- The registers of the board pick a byte of the image, and nothing else has a say in it.
  program : ∀ a, 0x8000 ≤ a →
    image[Header.size + c.header.trainerSize + b.cartridge.mapper.prgOffset c.header.prgSize a]? = some (b.peek a)

structure Drops (c : Cartridge) (b : Bus) : Prop where
  board : b.cartridge.mapper.powerOn = c.mapper
  unwired : ∀ a v, 0x4000 ≤ a → a < 0x6000 → a ≠ 0x4014 → b.write a v = b
  save : ∀ a v, 0x6000 ≤ a → a < 0x8000 → c.hasRam = false ∨ b.cartridge.mapper.locked = true → b.write a v = b
  program : ∀ a v, 0x8000 ≤ a → c.mapper = .nrom → b.write a v = b
  registers : ∀ a v, 0x8000 ≤ a → ∀ registers, b.cartridge.mapper = .mmc1 registers →
    b.write a v = {b with cartridge := {b.cartridge with mapper := .mmc1 (registers.write a v)}}

variable {image : Array UInt8} {c : Cartridge} {b : Bus} {es : List Entry}

theorem Tells.shows (tells : Tells c b es) (loaded : Cartridge.Loaded image c) : Shows image c b es where
  work a low := by
    rw [peek,containing_work low]
    exact tells.work a low
  unwired a above below := by
    have bounds := containing_bounds a
    rw [peek]
    cases region : Region.containing a with
    | transfer | unwired => rfl
    | work | register | save | program =>
        rw [region] at bounds
        grind
  save a above below := by
    have present := tells.descends.ram
    rw [peek,containing_save above below,Cartridge.hasRam,← present]
    simp only [Cartridge.ramRead,Mapper.ramEnabled_locked]
    cases ram : b.cartridge.ram with
    | none => rfl
    | some ram' =>
        have told := tells.save ram' ram a above below
        cases b.cartridge.mapper.locked with
        | true => rfl
        | false => exact told
  program a above := by
    have size : b.cartridge.prg.size = c.header.prgSize :=
      (congrArg Array.size tells.descends.prg).trans loaded.prg_size
    have inside : b.cartridge.mapper.prgOffset c.header.prgSize a < c.header.prgSize :=
      b.cartridge.mapper.prgOffset_lt _ loaded.banks a
    rw [peek,containing_program above,Cartridge.prgRead,Mapper.prgRead,size,tells.descends.prg,
      ← loaded.prg_getElem? _ inside]
    rw [← loaded.prg_size] at inside ⊢
    simp only [Array.getD_eq_getD_getElem?,Array.getElem?_eq_getElem inside,Option.getD_some]

theorem Tells.drops (tells : Tells c b es) (loaded : Cartridge.Loaded image c) : Drops c b where
  board := tells.descends.board.trans (congrArg Cartridge.mapper loaded.powerOn)
  unwired a v above below other := by
    rw [Bus.write,containing_unwired above below other]
  save a v above below shut := by
    have present := tells.descends.ram
    rw [Bus.write,containing_save above below]
    have same : b.cartridge.ramWrite a v = b.cartridge := by
      rw [Cartridge.hasRam,← present] at shut
      simp only [Cartridge.ramWrite,Mapper.ramEnabled_locked]
      cases ram : b.cartridge.ram with
      | none => rfl
      | some ram' =>
          rw [ram] at shut
          rcases shut with absent | locked
          · cases absent
          · simp only [locked,Bool.not_true,Bool.false_eq_true,if_false]
    simp only [same]
  program a v above plain := by
    have board := tells.descends.board
    rw [Bus.write,containing_program above]
    have same : b.cartridge.prgWrite a v = b.cartridge := by
      rw [plain] at board
      cases mapper : b.cartridge.mapper with
      | nrom =>
          rw [Cartridge.prgWrite,mapper]
          exact congrArg (fun m => {b.cartridge with mapper := m}) mapper.symm
      | mmc1 registers =>
          rw [mapper] at board
          cases board
    simp only [same]
  registers a v above registers mapper := by
    rw [Bus.write,containing_program above]
    simp only [Cartridge.prgWrite,Mapper.prgWrite,mapper]

end Bus

namespace Hardware

variable {image : Array UInt8} {c : Cartridge}

-- Whatever a processor and a host do to a console that was switched on around an image, its memory is what they wrote.
theorem memory_told (made : Cartridge.load image = .ok c) (cpu : Cpu) (raster : Raster) (frames : UInt64)
    (touches : List Touch) :
    let h : Hardware := ⟨cpu,.around c,raster,frames⟩
    (h.touchedAll touches).bus.Shows image c (h.chronicle touches) ∧ (h.touchedAll touches).bus.Drops c := by
  intro h
  have loaded := Cartridge.load_loaded made
  have told := touchedAll_tells (h := h) (Bus.Tells.start loaded.ram) touches
  rw [List.append_nil] at told
  exact ⟨told.shows loaded,told.drops loaded⟩

-- Five writes to the program window that shut save memory off, and a write to it that is lost. The power switch opens
-- it again.
def shutting : List Touch :=
  [.drive (.write 0x0801 0x42),.drive (.write 0x6000 0x12),.drive (.write 0xE000 0),.drive (.write 0xE000 0),
   .drive (.write 0xE000 0),.drive (.write 0xE000 0),.drive (.write 0xE000 1),.drive (.write 0x6000 0x34),.drive .step]

theorem shutting_told :
    ∃ c, Cartridge.load (Cartridge.singleBanked 0x10) = .ok c ∧
      let h : Hardware := ⟨{},.around c,{},0⟩
      (h.touchedAll shutting).bus.peek 0x0001 = 0x42 ∧ (h.touchedAll shutting).bus.peek 0x6000 = 0 ∧
      (h.touchedAll (shutting ++ [.powerCycle])).bus.peek 0x0001 = 0 ∧
      (h.touchedAll (shutting ++ [.powerCycle])).bus.peek 0x6000 = 0x12 := by
  have made := Cartridge.load_singleBanked 0x10 (.mmc1 .powerOn) rfl rfl
  obtain ⟨shown,_⟩ := memory_told made {} {} 0 shutting
  obtain ⟨later,_⟩ := memory_told made {} {} 0 (shutting ++ [.powerCycle])
  refine ⟨_,made,?_,?_,?_,?_⟩
  · rw [shown.work 0x0001 (by decide)]
    decide +kernel
  · rw [shown.save 0x6000 (by decide) (by decide)]
    decide +kernel
  · rw [later.work 0x0001 (by decide)]
    decide +kernel
  · rw [later.save 0x6000 (by decide) (by decide)]
    decide +kernel

end Hardware
end Famicom
