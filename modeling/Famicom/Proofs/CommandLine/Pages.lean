import Famicom.Proofs.CommandLine.Lines

namespace Famicom

def Cartridge.page (c : Cartridge) : List Row :=
  [["Loaded cartridge:"],
   ["  PRG ROM: ",.decimal c.prg.size," bytes"],
   ["  CHR ",.word (if c.chrWritable then "RAM" else "ROM"),": ",.decimal c.chr.size," bytes"],
   match c.mapper with
   | .nrom => ["  Mapper: 0 (NROM)"]
   | .mmc1 _ => ["  Mapper: 1 (MMC1)"],
   ["  Mirroring: ",c.mirroring.name],
   ["  PRG RAM: ",.word (if c.ram.isSome then "8KB" else "none")]]

def Status.number (p : Status) : Nat :=
  p.carry.toNat + 2 * p.zero.toNat + 4 * p.interruptDisable.toNat + 8 * p.decimal.toNat + 16 * p.brk.toNat +
    32 * p.unused.toNat + 64 * p.overflow.toNat + 128 * p.negative.toNat

def Report.number (r : Report) : Nat :=
  32 * r.spriteOverflow.toNat + 64 * r.spriteZeroHit.toNat + 128 * r.vblank.toNat

def Bus.vector (b : Bus) (low high : UInt16) : Nat := (b.peek high).toNat * 256 + (b.peek low).toNat

def Status.row (p : Status) : Row :=
  ["C:",.decimal p.carry.toNat," ","Z:",.decimal p.zero.toNat," ","I:",.decimal p.interruptDisable.toNat," ",
   "D:",.decimal p.decimal.toNat," ","B:",.decimal p.brk.toNat," ","U:",.decimal p.unused.toNat," ",
   "V:",.decimal p.overflow.toNat," ","N:",.decimal p.negative.toNat]

def nextRow (b : Bus) (pc : UInt16) : Row :=
  match decode (b.peek pc) with
  | none => unknownRow pc (b.peek pc)
  | some i => knownRow pc ((List.range (i.mode.operandLength + 1)).map fun k => b.peek (pc + UInt16.ofNat k)) i

namespace Machine

def cpuPage (m : Machine) : List Row :=
  let r := m.cpu.registers
  [[],
   ["CPU State:"],
   ["  A:    $",.hex 2 r.a.toNat],
   ["  X:    $",.hex 2 r.x.toNat],
   ["  Y:    $",.hex 2 r.y.toNat],
   ["  PC:   $",.hex 4 r.pc.toNat],
   ["  SP:   $",.hex 2 r.sp.toNat],
   "  P:    $" :: .hex 2 r.p.number :: " (" :: (r.p.row ++ [Piece.word ")"]),
   ["  Cycles: ",.decimal m.cpu.cycles.toNat],
   ["  Instructions: ",.decimal m.cpu.instructions.toNat],
   ["  Vectors: NMI=$",.hex 4 (m.bus.vector 0xFFFA 0xFFFB)," RESET=$",.hex 4 (m.bus.vector 0xFFFC 0xFFFD)," IRQ=$",
    .hex 4 (m.bus.vector 0xFFFE 0xFFFF)],
   "  Next: " :: nextRow m.bus r.pc]

def ppuPage (m : Machine) : List Row :=
  let p := m.bus.ppu
  [[],
   ["PPU State:"],
   ["  PPUCTRL:   $",.hex 2 p.control.bits.toNat],
   ["  PPUMASK:   $",.hex 2 p.mask.bits.toNat],
   ["  PPUSTATUS: $",.hex 2 p.report.number],
   ["  VBLANK: ",toString p.report.vblank],
   ["  Scroll: (",.decimal p.scrollX.toNat,", ",.decimal p.scrollY.toNat,")"],
   ["  VRAM address: $",.hex 4 p.address.toNat],
   ["  OAM address: $",.hex 2 p.oamAddress.toNat],
   ["  Sprite 0 hit: ",toString m.raster.spriteZeroHit,", overflow: ",toString m.raster.spriteOverflow]]

end Machine

theorem Status.toByte_number (p : Status) : p.toByte.toNat = p.number := by
  obtain ⟨c,z,i,d,b,u,v,n⟩ := p
  revert c z i d b u v n
  decide +kernel

theorem Report.toByte_number (r : Report) : r.toByte.toNat = r.number := by
  obtain ⟨v,h,o⟩ := r
  revert v h o
  decide

theorem Status.text_spelled (p : Status) : Spells p.row p.text := by
  have flag : ∀ (name : String) (set : Bool), Spells [.word (name ++ ":"),.decimal set.toNat] (shown name set) := by
    intro name set
    have spelled := (Spells.start (name ++ ":")).decimal set.toNat
    cases set <;> rwa [String.append_assoc] at spelled
  rw [text]
  simp only [String.intercalate_cons_cons,String.intercalate_singleton]
  exact ((flag "C" p.carry).word " ").append <| ((flag "Z" p.zero).word " ").append <|
    ((flag "I" p.interruptDisable).word " ").append <| ((flag "D" p.decimal).word " ").append <|
    ((flag "B" p.brk).word " ").append <| ((flag "U" p.unused).word " ").append <|
    ((flag "V" p.overflow).word " ").append <| flag "N" p.negative

theorem disassemble_spelled (b : Bus) (pc : UInt16) : Spells (nextRow b pc) (disassemble b pc) := by
  unfold nextRow disassemble
  split
  · rename_i unknown
    simp only [unknown]
    exact unknownLine_spelled pc (b.peek pc)
  · rename_i i known
    simp only [known]
    exact knownLine_spelled pc (instructionBytes b pc i) i

theorem Cartridge.dump_printed (c : Cartridge) : Prints c.page c.dump := by
  have patterns : ∀ kind : String, Spells ["  CHR ",.word kind,": ",.decimal c.chr.size," bytes"]
      s!"  CHR {kind}: {c.chr.size} bytes" :=
    fun kind => ((((Spells.start "  CHR ").word kind).word ": ").decimal c.chr.size).word " bytes"
  have mapper : Spells
      (match c.mapper with | .nrom => ["  Mapper: 0 (NROM)"] | .mmc1 _ => ["  Mapper: 1 (MMC1)"])
      s!"  Mapper: {c.mapper.number} ({c.mapper.name})" := by
    cases c.mapper with
    | nrom => exact .start "  Mapper: 0 (NROM)"
    | mmc1 registers =>
        rw [Mapper.number,Mapper.name]
        exact .start "  Mapper: 1 (MMC1)"
  have mirroring : Spells ["  Mirroring: ",c.mirroring.name] s!"  Mirroring: {c.mirroring.text}" := by
    rw [c.mirroring.text_name]
    exact (Spells.start "  Mirroring: ").word c.mirroring.name
  exact .line (.start "Loaded cartridge:") <|
    .line (((Spells.start "  PRG ROM: ").decimal c.prg.size).word " bytes") <|
    .line (patterns _) <| .line mapper <| .line mirroring <| .line ((Spells.start "  PRG RAM: ").word _) .nil

namespace Machine

variable (m : Machine)

theorem dumpCpu_printed : Prints m.cpuPage m.dumpCpu := by
  let r := m.cpu.registers
  have status := (((Spells.start "  P:    $").byte r.p.toByte).word " (").append (r.p.text_spelled.word ")")
  rw [← String.append_assoc,r.p.toByte_number] at status
  have vector : ∀ a, (m.bus.peekWord a).toNat = m.bus.vector a (a + 1) := fun _ => word_toNat _ _
  have vectors := (((((Spells.start "  Vectors: NMI=$").address (m.bus.peekWord 0xFFFA)).word " RESET=$").address
    (m.bus.peekWord 0xFFFC)).word " IRQ=$").address (m.bus.peekWord 0xFFFE)
  rw [vector,vector,vector] at vectors
  exact .line .nil <| .line (.start "CPU State:") <|
    .line ((Spells.start "  A:    $").byte r.a) <|
    .line ((Spells.start "  X:    $").byte r.x) <|
    .line ((Spells.start "  Y:    $").byte r.y) <|
    .line ((Spells.start "  PC:   $").address r.pc) <|
    .line ((Spells.start "  SP:   $").byte r.sp) <|
    .line status <|
    .line ((Spells.start "  Cycles: ").decimal m.cpu.cycles.toNat) <|
    .line ((Spells.start "  Instructions: ").decimal m.cpu.instructions.toNat) <|
    .line vectors <|
    .line ((Spells.start "  Next: ").append (disassemble_spelled m.bus r.pc)) .nil

theorem dumpPpu_printed : Prints m.ppuPage m.dumpPpu := by
  let p := m.bus.ppu
  have report := (Spells.start "  PPUSTATUS: $").byte p.report.toByte
  rw [p.report.toByte_number] at report
  exact .line .nil <| .line (.start "PPU State:") <|
    .line ((Spells.start "  PPUCTRL:   $").byte p.control.bits) <|
    .line ((Spells.start "  PPUMASK:   $").byte p.mask.bits) <|
    .line report <|
    .line ((Spells.start "  VBLANK: ").word (toString p.report.vblank)) <|
    .line (((((Spells.start "  Scroll: (").decimal p.scrollX.toNat).word ", ").decimal p.scrollY.toNat).word ")") <|
    .line ((Spells.start "  VRAM address: $").address p.address) <|
    .line ((Spells.start "  OAM address: $").byte p.oamAddress) <|
    .line ((((Spells.start "  Sprite 0 hit: ").word (toString m.raster.spriteZeroHit)).word ", overflow: ").word
      (toString m.raster.spriteOverflow)) .nil

end Machine
end Famicom
