import Famicom.CommandLine.Disassembly
import Famicom.Console.Machine

namespace Famicom

def lines (ls : List String) : String := String.join (ls.map (· ++ "\n"))

def Cartridge.dump (c : Cartridge) : String :=
  let patterns := if c.chrWritable then "RAM" else "ROM"
  let ram := if c.hasRam then "8KB" else "none"
  lines
    ["Loaded cartridge:",
     s!"  PRG ROM: {c.prg.size} bytes",
     s!"  CHR {patterns}: {c.chr.size} bytes",
     s!"  Mapper: {c.mapper.number} ({c.mapper.name})",
     s!"  Mirroring: {c.mirroring.text}",
     s!"  PRG RAM: {ram}"]

namespace Machine

def dumpCpu (m : Machine) : String :=
  let r := m.cpu.registers
  let vector := fun a => hexWord (m.bus.peekWord a)
  lines
    ["",
     "CPU State:",
     s!"  A:    ${hexByte r.a}",
     s!"  X:    ${hexByte r.x}",
     s!"  Y:    ${hexByte r.y}",
     s!"  PC:   ${hexWord r.pc}",
     s!"  SP:   ${hexByte r.sp}",
     s!"  P:    ${hexByte r.p.toByte} ({r.p.text})",
     s!"  Cycles: {m.cpu.cycles}",
     s!"  Instructions: {m.cpu.instructions}",
     s!"  Vectors: NMI=${vector nmiVector} RESET=${vector resetVector} IRQ=${vector irqVector}",
     s!"  Next: {disassemble m.bus r.pc}"]

def dumpPpu (m : Machine) : String :=
  let p := m.bus.ppu
  lines
    ["",
     "PPU State:",
     s!"  PPUCTRL:   ${hexByte p.control.bits}",
     s!"  PPUMASK:   ${hexByte p.mask.bits}",
     s!"  PPUSTATUS: ${hexByte p.report.toByte}",
     s!"  VBLANK: {p.report.vblank}",
     s!"  Scroll: ({p.scrollX}, {p.scrollY})",
     s!"  VRAM address: ${hexWord p.address}",
     s!"  OAM address: ${hexByte p.oamAddress}",
     s!"  Sprite 0 hit: {m.raster.spriteZeroHit}, overflow: {m.raster.spriteOverflow}"]

end Machine
end Famicom
