import Famicom.Proofs.Checked.Drawing
import Famicom.Proofs.Console.Regions
import Famicom.Proofs.Console.Traffic

namespace Famicom

open Checked

namespace Bus

def read? (b : Bus) (a : UInt16) : Option (UInt8 × Bus) :=
  match Region.containing a with
  | .work _ => do
    let v ← b.ram[(workCell a).val]?
    some (v,b)
  | .register register => do
    let (v,ppu) ← b.ppu.readRegister? b.cartridge register
    some (v,{b with ppu := ppu})
  | .transfer | .unwired => some (0,b)
  | .save => do
    let v ← b.cartridge.ramRead? a
    some (v,b)
  | .program => do
    let v ← b.cartridge.prgRead? a
    some (v,b)

def peek? (b : Bus) (a : UInt16) : Option UInt8 :=
  match Region.containing a with
  | .work _ => b.ram[(workCell a).val]?
  | .register register => b.ppu.peekRegister? b.cartridge register
  | .transfer | .unwired => some 0
  | .save => b.cartridge.ramRead? a
  | .program => b.cartridge.prgRead? a

def transferByte? (page : UInt8) (i : Nat) (b : Bus) : Option Bus := do
  let (v,b) ← b.read? (word (UInt8.ofNat i) page)
  let ppu ← b.ppu.storeOam? v
  some {b with ppu := ppu}

def transfer? (b : Bus) (page : UInt8) : Option Bus := do
  let b ← rounds? 256 (transferByte? page) b
  some {b with stall := b.stall + transferCycles}

def write? (b : Bus) (a : UInt16) (v : UInt8) : Option Bus :=
  match Region.containing a with
  | .work _ => do
    let ram ← set? b.ram (workCell a).val v
    some {b with ram := ram}
  | .register register => do
    let (ppu,cartridge) ← b.ppu.writeRegister? b.cartridge register v
    some {b with ppu := ppu,cartridge := cartridge}
  | .transfer => b.transfer? v
  | .unwired => some b
  | .save => do
    let cartridge ← b.cartridge.ramWrite? a v
    some {b with cartridge := cartridge}
  | .program => do
    let cartridge ← b.cartridge.prgWrite? a v
    some {b with cartridge := cartridge}

def writeVideo? (b : Bus) (a : UInt16) (v : UInt8) : Option Bus := do
  let (ppu,cartridge) ← b.ppu.write? b.cartridge a v
  some {b with ppu := ppu,cartridge := cartridge}

variable {b : Bus}

theorem read?_eq (whole : b.cartridge.Whole) (a : UInt16) : b.read? a = some (b.read a) := by
  unfold read? read
  cases region : Region.containing a with
  | work cell =>
      rw [cell_of_work region]
      simp only [Vector.getElem?_eq_getElem (workCell a).isLt]
      rfl
  | register register =>
      simp only [b.ppu.readRegister?_eq whole]
      rfl
  | transfer | unwired => rfl
  | save =>
      simp only [b.cartridge.ramRead?_eq]
      rfl
  | program =>
      simp only [Cartridge.prgRead?_eq whole]
      rfl

theorem peek?_eq (whole : b.cartridge.Whole) (a : UInt16) : b.peek? a = some (b.peek a) := by
  unfold peek? peek
  cases region : Region.containing a with
  | work cell =>
      rw [cell_of_work region]
      simp only [Vector.getElem?_eq_getElem (workCell a).isLt]
      rfl
  | register register => exact b.ppu.peekRegister?_eq whole register
  | transfer | unwired => rfl
  | save => exact b.cartridge.ramRead?_eq a
  | program => exact Cartridge.prgRead?_eq whole a

theorem transfer?_eq (whole : b.cartridge.Whole) (page : UInt8) : b.transfer? page = some (b.transfer page) := by
  have copied : rounds? 256 (transferByte? page) b = some (Nat.fold 256 (fun i _ b => transferByte page i b) b) := by
    apply rounds?_eq (fun b => b.cartridge.Whole) whole
    intro i _ b before
    have after : (b.read (word (UInt8.ofNat i) page)).2.cartridge.Whole := by
      rw [read_cartridge]
      exact before
    refine ⟨?_,after⟩
    simp only [transferByte?,read?_eq before,Ppu.storeOam?_eq,Option.bind_eq_bind,Option.bind_some]
    rfl
  rw [transfer?,copied]
  rfl

theorem write?_eq (whole : b.cartridge.Whole) (a : UInt16) (v : UInt8) : b.write? a v = some (b.write a v) := by
  unfold write? write
  cases region : Region.containing a with
  | work cell =>
      rw [cell_of_work region]
      simp only [set?_eq _ _ (workCell a).isLt]
      rfl
  | register register =>
      simp only [b.ppu.writeRegister?_eq whole]
      rfl
  | transfer => exact transfer?_eq whole v
  | unwired => rfl
  | save =>
      simp only [b.cartridge.ramWrite?_eq]
      rfl
  | program =>
      simp only [b.cartridge.prgWrite?_eq]
      rfl

theorem writeVideo?_eq (whole : b.cartridge.Whole) (a : UInt16) (v : UInt8) :
    b.writeVideo? a v = some (b.writeVideo a v) := by
  rw [writeVideo?,b.ppu.write?_eq whole]
  rfl

end Bus

theorem Cartridge.Whole.used {c used : Cartridge} (whole : c.Whole) (descends : c.Descends used) : used.Whole := by
  refine ⟨?_,?_⟩
  · rw [descends.prg]
    exact whole.prg
  · rw [descends.chrSize]
    exact whole.chr

theorem Bus.whole_abiding : Abiding fun b : Bus => b.cartridge.Whole where
  lasting :=
    {read := fun b a whole => whole.used ((descends_lasting b.cartridge).read b a (.refl _))
     write := fun b a v whole => whole.used ((descends_lasting b.cartridge).write b a v (.refl _))
     stall := fun _ whole => whole}
  poked _ _ whole := whole
  writeVideo b a v whole := whole.used ((descends_abiding b.cartridge).writeVideo b a v (.refl _))
  powerCycle b whole := whole.used ((descends_abiding b.cartridge).powerCycle b (.refl _))

-- A bus with its checks on, as long as none of them has stopped it.
structure Guarded where
  bus : Option Bus

instance : AddressSpace Guarded where
  read m a :=
    match m.bus.bind (·.read? a) with
    | some (v,b) => (v,⟨some b⟩)
    | none => (0,⟨none⟩)
  write m a v := ⟨m.bus.bind (·.write? a v)⟩
  takeStall m :=
    match m.bus with
    | some b => (b.stall,⟨some {b with stall := 0}⟩)
    | none => (0,⟨none⟩)

theorem guarded_faithful :
    @Faithful Guarded {b : Bus // b.cartridge.Whole} _ Bus.whole_abiding.lasting.space fun b => ⟨some b.val⟩ := by
  let _ := Bus.whole_abiding.lasting.space
  refine ⟨?_,?_,?_⟩
  · intro b a
    have read := Bus.read?_eq b.property a
    have seen : AddressSpace.read (⟨some b.val⟩ : Guarded) a = ((b.val.read a).1,⟨some (b.val.read a).2⟩) := by
      simp only [AddressSpace.read,Option.bind_some,read]
    rw [seen]
    exact ⟨rfl,rfl⟩
  · intro b a v
    exact congrArg Guarded.mk (Bus.write?_eq b.property a v).symm
  · exact fun b => ⟨rfl,rfl⟩

theorem Drive.done_guarded (d : Drive) (cpu : Cpu) {b : Bus} (whole : b.cartridge.Whole) :
    d.done cpu (⟨some b⟩ : Guarded) = ((d.done cpu b).1,⟨some (d.done cpu b).2⟩) := by
  let _ := Bus.whole_abiding.lasting.space
  obtain ⟨cpus,buses⟩ := d.done_faithful Bus.whole_abiding.lasting.faithful cpu ⟨b,whole⟩
  obtain ⟨checked,memories⟩ := d.done_faithful guarded_faithful cpu ⟨b,whole⟩
  rw [buses] at memories
  exact Prod.ext (checked.symm.trans cpus) memories.symm

theorem Cpu.reset_guarded {b : Bus} (whole : b.cartridge.Whole) :
    Cpu.reset (⟨some b⟩ : Guarded) = ((Cpu.reset b).1,⟨some (Cpu.reset b).2⟩) := by
  let _ := Bus.whole_abiding.lasting.space
  obtain ⟨cpus,buses⟩ := Bus.whole_abiding.lasting.faithful.reset ⟨b,whole⟩
  obtain ⟨checked,memories⟩ := guarded_faithful.reset ⟨b,whole⟩
  rw [buses] at memories
  exact Prod.ext (checked.symm.trans cpus) memories.symm

namespace Hardware

def driven? (h : Hardware) (d : Drive) : Option Hardware := do
  let bus ← (d.done h.cpu (⟨some h.bus⟩ : Guarded)).2.bus
  some (h.put (d.done h.cpu (⟨some h.bus⟩ : Guarded)).1 bus)

def act? (h : Hardware) (a : Act) : Option Hardware :=
  match a with
  | .instruction => h.driven? .step
  | .draw => do
    let raster ← h.raster.draw? h.bus.ppu h.bus.cartridge
    some {h with raster := raster}
  | .blank =>
    let blanked : Hardware := {h with bus := h.bus.poked .enterVblank}
    if blanked.bus.ppu.control.nmiEnabled then blanked.driven? .nmi else some blanked
  | .begin | .publish | .count => some (h.act a)

def touched? (h : Hardware) (t : Touch) : Option Hardware :=
  match t with
  | .drive d => h.driven? d
  | .peek a => do
    let _ ← h.bus.peek? a
    some h
  | .peekVideo a => do
    let _ ← h.bus.ppu.read? h.bus.cartridge a
    some h
  | .writeVideo a v => do
    let bus ← h.bus.writeVideo? a v
    some {h with bus := bus}
  | .poke (.storeOam v) => do
    let ppu ← h.bus.ppu.storeOam? v
    some {h with bus := {h.bus with ppu := ppu}}
  | .poke _ | .takeStall | .powerCycle => some (h.touched t)

def reset? (h : Hardware) : Option Hardware := do
  let bus ← (Cpu.reset (⟨some h.bus.powerCycle⟩ : Guarded)).2.bus
  some ⟨(Cpu.reset (⟨some h.bus.powerCycle⟩ : Guarded)).1,bus,{},0⟩

def move? (h : Hardware) (m : Move) : Option Hardware :=
  match m with
  | .act a => h.act? a
  | .touch t => h.touched? t
  | .reset => h.reset?

def after? (h : Hardware) (moves : List Move) : Option Hardware :=
  match moves with
  | [] => some h
  | m :: rest => do
    let h ← h.move? m
    h.after? rest

variable {h : Hardware}

theorem driven?_eq (whole : h.bus.cartridge.Whole) (d : Drive) : h.driven? d = some (h.touched (.drive d)) := by
  rw [driven?,d.done_guarded h.cpu whole]
  rfl

theorem act?_eq (whole : h.bus.cartridge.Whole) (a : Act) : h.act? a = some (h.act a) := by
  cases a with
  | instruction => exact driven?_eq whole .step
  | draw =>
      rw [act?,Raster.draw?_eq whole]
      rfl
  | blank =>
      have blanked : (h.bus.poked .enterVblank).cartridge.Whole := whole
      simp only [act?,driven?_eq (h := {h with bus := h.bus.poked .enterVblank}) blanked]
      exact (apply_ite some _ _ _).symm
  | begin | publish | count => rfl

theorem touched?_eq (whole : h.bus.cartridge.Whole) (t : Touch) : h.touched? t = some (h.touched t) := by
  cases t with
  | drive d => exact driven?_eq whole d
  | peek a =>
      rw [touched?,Bus.peek?_eq whole]
      rfl
  | peekVideo a =>
      rw [touched?,Ppu.read?_eq whole]
      rfl
  | writeVideo a v =>
      rw [touched?,Bus.writeVideo?_eq whole]
      rfl
  | poke poke =>
      cases poke with
      | storeOam v =>
          rw [touched?,Ppu.storeOam?_eq]
          rfl
      | control | mask | report | beginFrame | enterVblank | publishSprites | powerOn => rfl
  | takeStall | powerCycle => rfl

theorem reset?_eq (whole : h.bus.cartridge.Whole) : h.reset? = some h.reset := by
  rw [reset?,Cpu.reset_guarded (Bus.whole_abiding.powerCycle h.bus whole)]
  rfl

theorem move?_eq (whole : h.bus.cartridge.Whole) (m : Move) : h.move? m = some (h.move m) := by
  cases m with
  | act a => exact act?_eq whole a
  | touch t => exact touched?_eq whole t
  | reset => exact reset?_eq whole

theorem after?_eq (whole : h.bus.cartridge.Whole) (moves : List Move) : h.after? moves = some (h.after moves) := by
  induction moves generalizing h with
  | nil => rfl
  | cons m moves ih =>
      have next := Bus.whole_abiding.move h m whole
      rw [after?,move?_eq whole m]
      exact ih next

end Hardware
end Famicom
