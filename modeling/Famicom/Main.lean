import Famicom.CommandLine.FileFailure
import Famicom.CommandLine.Program

namespace Famicom

-- The system's number for a failed file operation. Some operations report it negated, in 32 bits.
def failureNumber? (e : IO.Error) : Option Nat :=
  let number (code : UInt32) := if code < 4096 then code.toNat else (0 - code).toNat
  match e with
  | .noFileOrDirectory _ code _ | .permissionDenied _ code _ | .inappropriateType _ code _
  | .invalidArgument _ code _ | .noSuchThing _ code _ | .resourceExhausted _ code _
  | .resourceBusy code _ | .hardwareFault code _ | .unsupportedOperation code _
  | .otherError code _ => some (number code)
  | _ => none

def failureText (e : IO.Error) : String :=
  match (failureNumber? e).bind FileFailure.ofNumber? with
  | some f => f.text
  | none => toString e

def readImage (path : String) : IO (Except String (Array UInt8)) := do
  try
    return .ok (← IO.FS.readBinFile path).data
  catch e => return .error (failureText e)

def writeImage (path : String) (bytes : Array UInt8) : IO (Except String Unit) := do
  try
    IO.FS.withFile path .write fun file => do
      file.write ⟨bytes⟩
      file.flush
    return .ok ()
  catch e => return .error (failureText e)

def system : Host IO := ⟨readImage,writeImage,IO.print,IO.eprint⟩

end Famicom

def main (arguments : List String) : IO UInt32 :=
  Famicom.CommandLine.run Famicom.CommandLine.parseOrEnd Famicom.system arguments
