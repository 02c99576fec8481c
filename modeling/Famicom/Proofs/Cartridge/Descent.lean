import Famicom.Proofs.Cpu.Faithful
import Famicom.Console.Bus

namespace Famicom

namespace Mapper

@[simp] theorem prgWrite_powerOn (m : Mapper) (a : UInt16) (v : UInt8) : (m.prgWrite a v).powerOn = m.powerOn := by
  cases m <;> rfl

@[simp] theorem powerOn_powerOn (m : Mapper) : m.powerOn.powerOn = m.powerOn := by
  cases m <;> rfl

end Mapper

namespace Cartridge

-- In use, memory that can be written is filled and the registers of the board change, and nothing else.
structure Descends (c used : Cartridge) : Prop where
  header : used.header = c.header
  trainer : used.trainer = c.trainer
  prg : used.prg = c.prg
  chrWritable : used.chrWritable = c.chrWritable
  patterns : c.chrWritable = false → used.chr = c.chr
  chrSize : used.chr.size = c.chr.size
  ram : used.ram.isSome = c.ram.isSome
  board : used.mapper.powerOn = c.mapper.powerOn

theorem Descends.refl (c : Cartridge) : c.Descends c := ⟨rfl,rfl,rfl,rfl,fun _ => rfl,rfl,rfl,rfl⟩

variable {c used : Cartridge}

theorem Descends.powerOn (descends : c.Descends used) : c.Descends used.powerOn :=
  {descends with board := (used.mapper.powerOn_powerOn).trans descends.board}

theorem Descends.prgWrite (descends : c.Descends used) (a : UInt16) (v : UInt8) : c.Descends (used.prgWrite a v) :=
  {descends with board := (used.mapper.prgWrite_powerOn a v).trans descends.board}

theorem Descends.chrWrite (descends : c.Descends used) (a : UInt16) (v : UInt8) : c.Descends (used.chrWrite a v) := by
  unfold Cartridge.chrWrite
  split
  · rename_i writable
    refine {descends with patterns := ?_,chrSize := ?_}
    · intro fixed
      rw [descends.chrWritable,fixed] at writable
      cases writable
    · exact Array.size_setIfInBounds.trans descends.chrSize
  · exact descends

theorem Descends.ramWrite (descends : c.Descends used) (a : UInt16) (v : UInt8) : c.Descends (used.ramWrite a v) := by
  unfold Cartridge.ramWrite
  split
  · rename_i ram present
    split
    · refine {descends with ram := ?_}
      rw [← descends.ram,present]
      rfl
    · exact descends
  · exact descends

theorem Descends.powerOn_eq (descends : c.Descends used) (new : c.powerOn = c) :
    used.powerOn = {c with ram := used.ram,chr := used.chr} := by
  have board : used.mapper.powerOn = c.mapper := descends.board.trans (congrArg Cartridge.mapper new)
  rw [Cartridge.powerOn,board]
  obtain ⟨header,trainer,prg,chr,chrWritable,ram,mapper⟩ := used
  obtain ⟨rfl,rfl,rfl,rfl,_,_,_,_⟩ := descends
  rfl

end Cartridge

namespace Bus

variable {c : Cartridge} {b : Bus}

@[simp] theorem read_cartridge (b : Bus) (a : UInt16) : (b.read a).2.cartridge = b.cartridge := by
  rw [read]
  split <;> rfl

theorem transfer_keeps (holds : Bus → Prop) (read : ∀ b a, holds b → holds (b.read a).2)
    (store : ∀ b v, holds b → holds {b with ppu := b.ppu.storeOam v})
    (stall : ∀ b n, holds b → holds {b with stall := n})
    (page : UInt8) (start : holds b) : holds (b.transfer page) := by
  have copied : ∀ n, holds (Nat.fold n (fun i _ b => transferByte page i b) b) := by
    intro n
    induction n with
    | zero => exact start
    | succ n ih =>
        rw [Nat.fold_succ]
        exact store _ _ (read _ _ ih)
  exact stall _ _ (copied 256)

@[simp] theorem transfer_cartridge (b : Bus) (page : UInt8) : (b.transfer page).cartridge = b.cartridge :=
  transfer_keeps (fun after => after.cartridge = b.cartridge)
    (fun after a same => (after.read_cartridge a).trans same) (fun _ _ same => same) (fun _ _ same => same) page rfl

end Bus

theorem Ppu.write_descends {c used : Cartridge} (descends : c.Descends used) (p : Ppu) (a : UInt16) (v : UInt8) :
    c.Descends (p.write used a v).2 := by
  simp only [Ppu.write]
  split
  · exact descends.chrWrite _ v
  · split <;> exact descends

theorem Ppu.writeRegister_descends {c used : Cartridge} (descends : c.Descends used) (p : Ppu) (register : Register)
    (v : UInt8) : c.Descends (p.writeRegister used register v).2 := by
  cases register with
  | control | mask | status | oamAddress | oamData => exact descends
  | scroll | address =>
      simp only [writeRegister]
      split <;> exact descends
  | data => exact p.write_descends descends _ v

theorem Bus.write_descends {c : Cartridge} {b : Bus} (descends : c.Descends b.cartridge) (a : UInt16) (v : UInt8) :
    c.Descends (b.write a v).cartridge := by
  unfold Bus.write
  split
  · exact descends
  · exact b.ppu.writeRegister_descends descends _ v
  · rw [transfer_cartridge]
    exact descends
  · exact descends
  · exact descends.ramWrite a v
  · exact descends.prgWrite a v

theorem Bus.descends_lasting (c : Cartridge) : Lasting fun b : Bus => c.Descends b.cartridge where
  read b a descends := by
    show c.Descends (b.read a).2.cartridge
    rw [read_cartridge]
    exact descends
  write b a v descends := write_descends descends a v
  stall _ descends := descends

end Famicom
