import Famicom.Console.Config
import Famicom.Console.Journal
import Famicom.Picture.Raster

namespace Famicom

structure Machine where
  cpu : Cpu := {}
  bus : Bus
  raster : Raster := {}
  config : Config := {}
  frames : UInt64 := 0
  halted : Option UnknownOpcode := none
  -- Opcodes already warned about since the last reset.
  warned : List UInt8 := []

-- A machine after something was done with it, and what it recorded meanwhile, oldest first.
structure Turn where
  machine : Machine
  records : List Record

inductive Failure where
  | load (cause : ImageError)
  | halted (unknown : UnknownOpcode)
  deriving DecidableEq, Repr

def Failure.message : Failure → String
  | load cause => s!"failed to load cartridge: {cause.message}"
  | halted unknown =>
    s!"emulator halted at unimplemented opcode ${hexByte unknown.opcode} (PC=${hexWord unknown.pc})"

def Turn.failure? (t : Turn) : Option Failure := t.machine.halted.map .halted

structure Spent where
  cpu : Cpu
  journal : Journal
  warned : List UInt8
  halted : Option UnknownOpcode

def Spent.into (s : Spent) (m : Machine) : Turn :=
  ⟨{m with cpu := s.cpu,bus := s.journal.bus,halted := s.halted,warned := s.warned},s.journal.records.reverse⟩

namespace Machine

-- Everything starts anew from the reset vector. Configuration and the cartridge's memory stay.
def reset (m : Machine) : Turn :=
  let (cpu,bus) := Cpu.reset m.bus.powerCycle
  ⟨{cpu := cpu,bus := bus,config := m.config},[.reset cpu.registers.pc]⟩

def load (image : Array UInt8) (config : Config) : Except Failure Turn :=
  match Cartridge.load image with
  | .error e => .error (.load e)
  | .ok c =>
    let started := Machine.reset {bus := .around c,config := config}
    .ok ⟨started.machine,.loaded c :: started.records⟩

-- Runs instructions up to the next unknown opcode and deals with it as the policy says, until the count of
-- retired instructions has reached the target. What is left is counted anew after each fault.
def spendTo (config : Config) (frames : UInt64) (target : UInt64) (cpu : Cpu) (journal : Journal)
    (warned : List UInt8) : Spent :=
  let ran := cpu.run journal (target - cpu.instructions).toNat
  match _ : ran.fault with
  | none => ⟨ran.cpu,ran.memory,warned,none⟩
  | some e =>
    match config.policy with
    | .halt => ⟨ran.cpu,ran.memory.note (.halted e frames),warned,some e⟩
    | .skip =>
      let first := !warned.contains e.opcode
      spendTo config frames target ran.cpu (ran.memory.note (.skipped e first))
        (if first then e.opcode :: warned else warned)
  termination_by (target - cpu.instructions).toNat
  decreasing_by exact Cpu.run_fault_nears cpu journal target e ‹_›

theorem spendTo_quiet (config : Config) (frames target : UInt64) (cpu : Cpu) (journal : Journal)
    (warned : List UInt8) (quiet : (cpu.run journal (target - cpu.instructions).toNat).fault = none) :
    spendTo config frames target cpu journal warned =
      ⟨(cpu.run journal (target - cpu.instructions).toNat).cpu,
       (cpu.run journal (target - cpu.instructions).toNat).memory,warned,none⟩ := by
  rw [spendTo]
  split
  · rfl
  · rename_i e fault
    rw [quiet] at fault
    cases fault

theorem spendTo_halts (config : Config) (frames target : UInt64) (cpu : Cpu) (journal : Journal)
    (warned : List UInt8) (e : UnknownOpcode) (halts : config.policy = .halt)
    (fault : (cpu.run journal (target - cpu.instructions).toNat).fault = some e) :
    spendTo config frames target cpu journal warned =
      ⟨(cpu.run journal (target - cpu.instructions).toNat).cpu,
       (cpu.run journal (target - cpu.instructions).toNat).memory.note (.halted e frames),warned,some e⟩ := by
  rw [spendTo]
  split
  · rename_i quiet
    rw [quiet] at fault
    cases fault
  · rename_i other met
    rw [fault] at met
    cases met
    rw [halts]

def spend (config : Config) (frames : UInt64) (budget : Nat) (cpu : Cpu) (journal : Journal)
    (warned : List UInt8) : Spent :=
  spendTo config frames (cpu.instructions + UInt64.ofNat budget) cpu journal warned

-- The instructions of a frame that fall on the visible lines, 241 of all 262.
def visibleShare (budget : Nat) : Nat := budget * 241 / 262

def runVisible (m : Machine) : Spent :=
  spend m.config m.frames (visibleShare m.config.instructionsPerFrame) m.cpu
    {bus := {m.bus with ppu := m.bus.ppu.beginFrame}} m.warned

-- The drawing is done: what it saw is published, the blank begins, and the processor is interrupted if
-- the program has asked for it.
def startBlank (raster : Raster) (cpu : Cpu) (journal : Journal) : Cpu × Journal :=
  let ppu := (journal.bus.ppu.publishSprites raster.spriteZeroHit raster.spriteOverflow).enterVblank
  let journal := {journal with bus := {journal.bus with ppu := ppu}}
  if ppu.control.nmiEnabled then cpu.nmi journal else (cpu,journal)

def runBlank (m : Machine) (raster : Raster) (visible : Spent) : Spent :=
  let budget := m.config.instructionsPerFrame
  let (cpu,journal) := startBlank raster visible.cpu visible.journal
  spend m.config m.frames (budget - visibleShare budget) cpu journal visible.warned

-- One frame. A machine that has halted does nothing, and one that halts on the way leaves its frame
-- unfinished.
def runFrame (m : Machine) : Turn :=
  if m.halted.isSome then ⟨m,[]⟩
  else
    let visible := m.runVisible
    if visible.halted.isSome then visible.into m
    else
      let bus := visible.journal.bus
      let raster := m.raster.draw bus.ppu bus.cartridge
      let blank := m.runBlank raster visible
      let m := {m with raster := raster}
      blank.into (if blank.halted.isSome then m else {m with frames := m.frames + 1})

theorem halted_frame (m : Machine) (stopped : m.halted.isSome = true) : m.runFrame = ⟨m,[]⟩ := by
  simp [runFrame,stopped]

end Machine
end Famicom
