import Famicom.CommandLine.Dump
import Famicom.CommandLine.Options

namespace Famicom

def Options.config (o : Options) : Config :=
  {cyclesPerFrame := o.cyclesPerFrame.getD 29780,policy := if o.haltOnUnknown then .halt else .skip}

def Options.wants (o : Options) (r : Record) : Bool := decide (r.level.rank ≤ Level.info.rank + o.verbosity)

-- Frames run one after another, up to the first that fails. Records are kept newest first.
structure FramesRun where
  machine : Machine
  log : List Record
  failure : Option Failure

def Machine.runFrames (wants : Record → Bool) (m : Machine) (log : List Record) : Nat → FramesRun
  | 0 => ⟨m,log,none⟩
  | frames + 1 =>
    let done := m.runFrame
    let log := (done.records.filter wants).reverse ++ log
    match done.failure? with
    | some e => ⟨done.machine,log,some e⟩
    | none => done.machine.runFrames wants log frames

structure Ending where
  code : UInt32
  output : String
  errors : String
  deriving DecidableEq, Repr

structure Played where
  machine : Machine
  failure : Option Failure
  output : String
  log : List Record

def failed (output reason : String) : Ending := ⟨1,output,reason ++ "\n"⟩

-- Loads the image, runs the frames and describes the machine. An image that could not be read is given
-- by the reason.
def Options.play (o : Options) (image : Except String (Array UInt8)) : Except Ending Played :=
  match image with
  | .error reason => .error (failed "" s!"Failed to read ROM file {o.rom}: {reason}")
  | .ok image =>
    match Machine.load image o.config with
    | .error e => .error (failed "" s!"Failed to load ROM: {e.message}")
    | .ok started =>
      let ran := started.machine.runFrames o.wants (started.records.filter o.wants).reverse o.frames.toNat
      let m := ran.machine
      let output :=
        started.machine.bus.cartridge.dump ++
        lines ["",s!"Running {o.frames} frames...",s!"Completed {m.frames} frames."] ++
        (if o.dumpCpu then m.dumpCpu else "") ++
        (if o.dumpPpu then m.dumpPpu else "")
      .ok ⟨m,ran.failure,output,ran.log.reverse⟩

def Options.screenshotOf (o : Options) (p : Played) : Option (String × Array UInt8) :=
  o.screenshot.map (·,p.machine.raster.frame.pixmap)

-- The end of a run, after the screenshot was written or could not be. A screenshot that fails hides the
-- failure of the machine.
def Options.conclude (o : Options) (p : Played) (written : Except String Unit) : Ending :=
  match o.screenshot, written with
  | some path, .error reason => failed p.output s!"Failed to write screenshot {path}: {reason}"
  | wanted, _ =>
    let output := p.output ++ (match wanted with | some path => s!"Wrote {path}\n" | none => "")
    match p.failure with
    | some e => failed output s!"Error running system: {e.message}"
    | none => ⟨0,output,""⟩

end Famicom
