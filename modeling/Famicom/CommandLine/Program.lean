import Famicom.CommandLine.Session

namespace Famicom

structure Host (m : Type → Type) where
  readImage : String → m (Except String (Array UInt8))
  writeImage : String → Array UInt8 → m (Except String Unit)
  print : String → m Unit
  complain : String → m Unit

variable {m : Type → Type} [Monad m]

def Options.session (o : Options) (host : Host m) : m Ending := do
  match o.play (← host.readImage o.rom) with
  | .error ending => return ending
  | .ok played =>
    played.log.forM fun r => host.complain (r.line ++ "\n")
    match o.screenshotOf played with
    | none => return o.conclude played (.ok ())
    | some (path,bytes) => return o.conclude played (← host.writeImage path bytes)

namespace CommandLine

-- `parse` reads the arguments, or says how the program ends without a run.
def run (parse : List String → Except Ending Options) (host : Host m) (arguments : List String) : m UInt32 := do
  let ending ← match parse arguments with
    | .error ending => pure ending
    | .ok options => options.session host
  host.print ending.output
  host.complain ending.errors
  return ending.code

def Stop.ending (stop : Stop) : Ending :=
  if stop.code = 0 then ⟨0,stop.message,""⟩ else ⟨stop.code,"",stop.message⟩

def parseOrEnd (arguments : List String) : Except Ending Options := (parse arguments).mapError Stop.ending

end CommandLine

end Famicom
