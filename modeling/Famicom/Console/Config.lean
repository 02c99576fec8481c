namespace Famicom

inductive OpcodePolicy where
  | skip
  | halt
  deriving DecidableEq, Repr

def OpcodePolicy.text : OpcodePolicy → String
  | skip => "Skip"
  | halt => "Halt"

structure Config where
  cyclesPerFrame : UInt32 := 29780
  -- The cycles that an instruction is taken to cost when a frame's time is counted in instructions.
  cyclesPerInstruction : UInt32 := 3
  policy : OpcodePolicy := .skip
  deriving DecidableEq, Repr

-- The instructions of a frame, of which there is always one.
def Config.instructionsPerFrame (c : Config) : Nat :=
  max 1 (c.cyclesPerFrame.toNat / max 1 c.cyclesPerInstruction.toNat)

end Famicom
