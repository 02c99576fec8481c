import Famicom.Proofs.Checked.Console
import Famicom.Proofs.Console.Counting
import Famicom.Proofs.Console.PowerCycle
import Famicom.Proofs.Picture.Ranges

namespace Famicom

structure Hardware.Shaped (c : Cartridge) (h : Hardware) : Prop where
  -- Of the cartridge nothing changes but the contents of memory that can be written, and registers of the board.
  cartridge : c.Descends h.bus.cartridge
  banks : h.bus.cartridge.Whole
  ram : (h.bus.cartridge.ram.map Vector.size).getD 0 = 0 ∨ (h.bus.cartridge.ram.map Vector.size).getD 0 = 0x2000
  picture : h.bus.ppu.InRange
  report : h.bus.ppu.report.toByte &&& 0x1F = 0
  collected : ∀ registers, h.bus.cartridge.mapper = .mmc1 registers → registers.collected.val ≤ 4
  frame : h.raster.frame.bytes.size = 184320

theorem Report.toByte_low (r : Report) : r.toByte &&& 0x1F = 0 := by
  obtain ⟨v,h,o⟩ := r
  revert v h o
  decide

theorem Config.budget_fits (c : Config) (count : UInt64) (low : count.toNat < 0x8000000000000000) :
    c.instructionsPerFrame * 241 < UInt64.size ∧ count.toNat + c.instructionsPerFrame < UInt64.size := by
  have budget := c.cyclesPerFrame.toNat_lt
  have share := Nat.div_le_self c.cyclesPerFrame.toNat (max 1 c.cyclesPerInstruction.toNat)
  have most : c.instructionsPerFrame ≤ 0x100000000 := by
    rw [instructionsPerFrame]
    omega
  rw [UInt64.size]
  omega

namespace Hardware

variable {c : Cartridge} {h : Hardware}

theorem shaped (descends : c.Descends h.bus.cartridge) (whole : c.Whole) (ranges : h.bus.ppu.InRange) : h.Shaped c := by
  refine ⟨descends,whole.used descends,?_,ranges,h.bus.ppu.report.toByte_low,?_,h.raster.frame.bytes_size⟩
  · cases h.bus.cartridge.ram with
    | none => exact .inl rfl
    | some cells => exact .inr rfl
  · intro registers _
    exact Nat.le_of_lt_succ registers.collected.isLt

end Hardware

namespace Machine

variable {image : Array UInt8} {config : Config} {started : Turn}

-- Every image can be looked through, and what is done to a machine that was made from one never makes a check fail.
theorem traffic_sound (loaded : load image config = .ok started) :
    let start := started.machine.hardware
    Cartridge.load? image = some (Cartridge.load image) ∧
      (∀ requests, (started.machine.serveAll requests).config = config ∧
        (started.machine.serveAll requests).hardware = start.after (started.machine.history requests)) ∧
      (∀ moves, (start.after moves).Shaped start.bus.cartridge ∧ start.after? moves = some (start.after moves) ∧
        (start.Paced 0 moves → ∀ before m rest, moves = before ++ m :: rest → (start.after before).Counts m)) ∧
      ∀ count : UInt64, count.toNat < 0x8000000000000000 → config.instructionsPerFrame * 241 < UInt64.size ∧
        count.toNat + config.instructionsPerFrame < UInt64.size := by
  intro start
  obtain ⟨c,made,rfl⟩ := load_around loaded
  have whole : c.Whole := (Cartridge.load_loaded made).whole
  refine ⟨Cartridge.load?_eq image,?_,?_,config.budget_fits⟩
  · intro requests
    exact ⟨serveAll_config _ requests,serveAll_moves _ requests⟩
  · intro moves
    have descends := (Bus.descends_abiding c).after start moves (.refl c)
    have ranges := Bus.inRange_abiding.after start moves Ppu.powerOn_inRange
    refine ⟨Hardware.shaped descends whole ranges,Hardware.after?_eq whole moves,?_⟩
    intro paced before m rest split
    exact paced.counts rfl before m rest split

-- A transfer by the host, a write behind the video address, a drawing, and a reset while the transfer is pending.
def mixed : List Move :=
  [.touch (.drive (.write 0x4014 0x02)),.touch (.drive (.write 0x2007 0x55)),.act .draw,.touch (.drive (.read 0x6000)),
   .reset]

theorem mixed_sound :
    ∃ started, load (Cartridge.singleBanked 0x10) {} = .ok started ∧ started.machine.hardware.Paced 0 mixed ∧
      started.machine.hardware.after? mixed = some (started.machine.hardware.after mixed) ∧
      (started.machine.hardware.after (mixed.take 3)).Counts (.touch (.drive (.read 0x6000))) := by
  let c := Cartridge.ofSections (Cartridge.singleBanked 0x10) ⟨1,1,0x10,0⟩ (.mmc1 .powerOn)
  have loaded := load_made (c := c) (Cartridge.load_singleBanked 0x10 (.mmc1 .powerOn) rfl rfl) {}
  obtain ⟨_,_,sound,_⟩ := traffic_sound loaded
  obtain ⟨_,checked,counts⟩ := sound mixed
  have paced : (around c {}).hardware.Paced 0 mixed := by decide +kernel
  exact ⟨_,loaded,paced,checked,counts paced (mixed.take 3) _ [.reset] rfl⟩

end Machine
end Famicom
