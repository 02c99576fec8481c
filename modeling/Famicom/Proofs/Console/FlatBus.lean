import Famicom.Proofs.Console.Regions
import Famicom.Proofs.Cpu.Alongside

namespace Famicom.Bus

-- The part of the bus that is flat: a read has no effect there, and a write none but on its own cell. The repetitions
-- of work memory are left out, because in flat memory they are cells of their own.
def flatPart : Fence := ⟨fun a => a < 0x0800 ∨ 0x8000 ≤ a,fun a => a < 0x0800⟩

instance (access : Access) : Decidable (flatPart.Admits access) :=
  match access with
  | .read a _ => inferInstanceAs (Decidable (a < 0x0800 ∨ 0x8000 ≤ a))
  | .write a _ => inferInstanceAs (Decidable (a < 0x0800))

instance (seen : List Access) : Decidable (flatPart.Keeps seen) :=
  inferInstanceAs (Decidable (∀ access ∈ seen, flatPart.Admits access))

structure Flattens (ppu : Ppu) (c : Cartridge) (b : Bus) (t : FlatMemory) : Prop where
  shared : ∀ a, flatPart.reads a → b.peek a = t.get a
  ppu : b.ppu = ppu
  cartridge : b.cartridge = c
  settled : b.stall = 0
  still : t.stall = 0

theorem containing_low {a : UInt16} (low : a < 0x0800) : Region.containing a = .work (workCell a) :=
  containing_work (by grind)

theorem workCell_low {a e : UInt16} (low : a < 0x0800) (lowToo : e < 0x0800) :
    (workCell a).val = (workCell e).val ↔ a = e := by
  rw [UInt16.lt_iff_toNat_lt] at low lowToo
  simp only [UInt16.reduceToNat] at low lowToo
  rw [workCell,workCell,Fin.val_ofNat,Fin.val_ofNat,Nat.mod_eq_of_lt low,Nat.mod_eq_of_lt lowToo,UInt16.toNat_inj]

theorem read_flat (b : Bus) {a : UInt16} (inside : flatPart.reads a) : b.read a = (b.peek a,b) := by
  rcases inside with low | high
  · rw [read,peek,containing_low low]
  · rw [read,peek,containing_program high]

theorem write_flat (b : Bus) {a : UInt16} (v : UInt8) (inside : flatPart.writes a) :
    b.write a v = {b with ram := b.ram.set (workCell a) v (workCell a).isLt} := by
  rw [write,containing_low inside]

theorem peek_write_flat (b : Bus) {a e : UInt16} (v : UInt8) (inside : flatPart.writes a) (read : flatPart.reads e) :
    (b.write a v).peek e = if a = e then v else b.peek e := by
  rw [b.write_flat v inside]
  rcases read with low | high
  · simp only [peek,containing_low low,Fin.getElem_fin,Vector.getElem_set,workCell_low inside low]
  · have other : a ≠ e := by
      intro same
      rw [← same] at high
      have low : a < 0x0800 := inside
      grind
    rw [if_neg other]
    simp only [peek,containing_program high]

theorem flattens_alongside (ppu : Ppu) (c : Cartridge) : Alongside flatPart (Flattens ppu c) where
  read b t a flat inside := by
    have same : AddressSpace.read b a = (b.peek a,b) := b.read_flat inside
    rw [same]
    exact ⟨flat.shared a inside,flat⟩
  write b t a v flat inside := by
    have same : AddressSpace.write b a v = {b with ram := b.ram.set (workCell a) v} := b.write_flat v inside
    refine ⟨?_,?_,?_,?_,flat.still⟩
    · intro e read
      change (b.write a v).peek e = (t.set a v).get e
      rw [b.peek_write_flat v inside read]
      by_cases here : a = e
      · rw [if_pos here,← here,FlatMemory.get_set_same]
      · rw [if_neg here,FlatMemory.get_set_other _ _ _ _ here,flat.shared e read]
    · rw [same]
      exact flat.ppu
    · rw [same]
      exact flat.cartridge
    · rw [same]
      exact flat.settled
  stall b t flat := ⟨flat.settled.trans flat.still.symm,⟨flat.shared,flat.ppu,flat.cartridge,rfl,rfl⟩⟩

-- Runs of any length and interrupts between them, on code that may change itself. It does not matter on which of the two
-- the accesses are watched.
theorem simulates_flat (b : Bus) (t : FlatMemory) (cpu : Cpu) (ops : List Operation)
    (settled : b.stall = 0) (still : t.stall = 0) (shared : ∀ a, a < 0x0800 ∨ 0x8000 ≤ a → b.peek a = t.get a)
    (inside : flatPart.Keeps (Operation.doneAll cpu (⟨b,[]⟩ : Recorded Bus) ops).2.accesses ∨
      flatPart.Keeps (Operation.doneAll cpu (⟨t,[]⟩ : Recorded FlatMemory) ops).2.accesses) :
    let onBus := Operation.doneAll cpu b ops
    let onFlat := Operation.doneAll cpu t ops
    Operation.results cpu b ops = Operation.results cpu t ops ∧ onBus.1 = onFlat.1 ∧
      (∀ a, a < 0x0800 ∨ 0x8000 ≤ a → onBus.2.peek a = onFlat.2.get a) ∧
      onBus.2.ppu = b.ppu ∧ onBus.2.cartridge = b.cartridge ∧ onBus.2.stall = 0 := by
  have start : Flattens b.ppu b.cartridge b t := ⟨shared,rfl,rfl,settled,still⟩
  have alongside := flattens_alongside b.ppu b.cartridge
  have both : Operation.results cpu b ops = Operation.results cpu t ops ∧
      (Operation.doneAll cpu b ops).1 = (Operation.doneAll cpu t ops).1 ∧
      Flattens b.ppu b.cartridge (Operation.doneAll cpu b ops).2 (Operation.doneAll cpu t ops).2 := by
    rcases inside with onBus | onFlat
    · exact alongside.operations ops cpu b t start onBus
    · obtain ⟨results,same,flat⟩ := alongside.symm.operations ops cpu t b start onFlat
      exact ⟨results.symm,same.symm,flat⟩
  obtain ⟨results,same,flat⟩ := both
  exact ⟨results,same,flat.shared,flat.ppu,flat.cartridge,flat.settled⟩

def flattened (b : Bus) : FlatMemory := {cells := Vector.ofFn fun i => b.peek (UInt16.ofFin i)}

theorem flattened_get (b : Bus) (a : UInt16) : b.flattened.get a = b.peek a := by
  simp [FlatMemory.get,flattened]

def counting : Bus := .around
  {header := ⟨1,1,0,0⟩,trainer := none,prg := #[0xE6,0x10,0x4C,0x00,0x80],chr := #[0],chrWritable := false,ram := none
   mapper := .nrom}

def atProgram : Cpu := {registers := {pc := 0x8000}}

theorem counting_flat :
    flatPart.Keeps (Operation.doneAll atProgram (⟨counting,[]⟩ : Recorded Bus) [.step,.run 2,.nmi]).2.accesses ∧
      Operation.results atProgram counting [.step,.run 2,.nmi] =
        Operation.results atProgram counting.flattened [.step,.run 2,.nmi] ∧
      (Operation.doneAll atProgram counting.flattened [.step,.run 2,.nmi]).2.get 0x0010 = 2 := by
  have inside : flatPart.Keeps
      (Operation.doneAll atProgram (⟨counting,[]⟩ : Recorded Bus) [.step,.run 2,.nmi]).2.accesses := by
    decide +kernel
  obtain ⟨results,_,shared,_⟩ := simulates_flat counting counting.flattened atProgram [.step,.run 2,.nmi] rfl rfl
    (fun a _ => (counting.flattened_get a).symm) (.inl inside)
  have counted : (Operation.doneAll atProgram counting [.step,.run 2,.nmi]).2.peek 0x0010 = 2 := by decide +kernel
  exact ⟨inside,results,(shared 0x0010 (by decide)).symm.trans counted⟩

end Famicom.Bus
