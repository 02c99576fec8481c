namespace Famicom

structure Options where
  rom : String
  frames : UInt64 := 60
  dumpCpu : Bool := false
  dumpPpu : Bool := false
  screenshot : Option String := none
  haltOnUnknown : Bool := false
  cyclesPerFrame : Option UInt32 := none
  verbosity : Nat := 0
  deriving DecidableEq, Repr

namespace CommandLine

inductive Item where
  | rom
  | frames
  | dumpCpu
  | dumpPpu
  | screenshot
  | haltOnUnknown
  | cyclesPerFrame
  | verbose
  | help
  deriving DecidableEq, Repr

namespace Item

def long : Item → String
  | rom => "rom"
  | frames => "frames"
  | dumpCpu => "dump-cpu"
  | dumpPpu => "dump-ppu"
  | screenshot => "screenshot"
  | haltOnUnknown => "halt-on-unknown"
  | cyclesPerFrame => "cycles-per-frame"
  | verbose => "verbose"
  | help => "help"

def short? : Item → Option Char
  | rom => some 'r'
  | frames => some 'f'
  | dumpCpu => some 'c'
  | dumpPpu => some 'p'
  | verbose => some 'v'
  | help => some 'h'
  | screenshot | haltOnUnknown | cyclesPerFrame => none

def all : List Item :=
  [rom,frames,dumpCpu,dumpPpu,screenshot,haltOnUnknown,cyclesPerFrame,verbose,help]

def ofLong? (name : String) : Option Item := all.find? (·.long == name)

def ofShort? (c : Char) : Option Item := all.find? (·.short? == some c)

def takesValue : Item → Bool
  | rom | frames | screenshot | cyclesPerFrame => true
  | dumpCpu | dumpPpu | haltOnUnknown | verbose | help => false

end Item

inductive Stop where
  | helpWanted
  | unexpected (argument : String)
  | missingValue (item : Item)
  | unwantedValue (item : Item)
  | invalidValue (item : Item) (value : String)
  | repeated (item : Item)
  | missingRom
  deriving DecidableEq, Repr

def usage : String :=
  "Usage: --rom PATH [--frames N] [--dump-cpu] [--dump-ppu] [--screenshot OUT.ppm]\n" ++
  "       [--halt-on-unknown] [--cycles-per-frame N] [--verbose]\n"

def Stop.message : Stop → String
  | helpWanted => usage
  | unexpected argument => s!"unexpected argument {argument}\n"
  | missingValue item => s!"a value is required for --{item.long}\n"
  | unwantedValue item => s!"no value is taken by --{item.long}\n"
  | invalidValue item value => s!"invalid value {value} for --{item.long}\n"
  | repeated item => s!"--{item.long} cannot be given more than once\n"
  | missingRom => s!"--{Item.rom.long} is required\n"

def Stop.code : Stop → UInt32
  | helpWanted => 0
  | _ => 2

def digitsValue? (cs : List Char) : Option Nat :=
  if cs ≠ [] ∧ cs.all Char.isDigit then some (cs.foldl (fun n c => n * 10 + (c.toNat - 48)) 0) else none

def unsigned? (bound : Nat) (text : String) : Option Nat :=
  let value := match text.toList with
    | '+' :: cs => digitsValue? cs
    | cs => digitsValue? cs
  value.filter (decide <| · < bound)

-- As `unsigned?`, where zero may also carry a minus sign.
def nonnegative? (bound : Nat) (text : String) : Option Nat :=
  match text.toList with
  | '-' :: cs => (digitsValue? cs).filter (· == 0)
  | _ => unsigned? bound text

structure Draft where
  rom : Option String := none
  frames : Option UInt64 := none
  dumpCpu : Bool := false
  dumpPpu : Bool := false
  screenshot : Option String := none
  haltOnUnknown : Bool := false
  cyclesPerFrame : Option UInt32 := none
  verbosity : Nat := 0
  deriving DecidableEq, Repr

namespace Draft

def flag (d : Draft) : Item → Except Stop Draft
  | .dumpCpu => if d.dumpCpu then .error (.repeated .dumpCpu) else .ok {d with dumpCpu := true}
  | .dumpPpu => if d.dumpPpu then .error (.repeated .dumpPpu) else .ok {d with dumpPpu := true}
  | .haltOnUnknown =>
    if d.haltOnUnknown then .error (.repeated .haltOnUnknown) else .ok {d with haltOnUnknown := true}
  | .verbose => .ok {d with verbosity := d.verbosity + 1}
  | .help => .error .helpWanted
  | item => .error (.missingValue item)

def value (d : Draft) (item : Item) (v : String) : Except Stop Draft :=
  match item with
  | .rom =>
    if d.rom.isSome then .error (.repeated .rom)
    else if v = "" then .error (.invalidValue .rom v)
    else .ok {d with rom := some v}
  | .frames =>
    if d.frames.isSome then .error (.repeated .frames)
    else match unsigned? UInt64.size v with
      | none => .error (.invalidValue .frames v)
      | some n => .ok {d with frames := some (UInt64.ofNat n)}
  | .screenshot =>
    if d.screenshot.isSome then .error (.repeated .screenshot)
    else if v = "" then .error (.invalidValue .screenshot v)
    else .ok {d with screenshot := some v}
  | .cyclesPerFrame =>
    if d.cyclesPerFrame.isSome then .error (.repeated .cyclesPerFrame)
    else match nonnegative? UInt32.size v with
      | none => .error (.invalidValue .cyclesPerFrame v)
      | some n => .ok {d with cyclesPerFrame := some (UInt32.ofNat n)}
  | item => .error (.unwantedValue item)

def finish (d : Draft) : Except Stop Options :=
  match d.rom with
  | none => .error .missingRom
  | some rom =>
    .ok ⟨rom,d.frames.getD 60,d.dumpCpu,d.dumpPpu,d.screenshot,d.haltOnUnknown,d.cyclesPerFrame,d.verbosity⟩

-- Short options sharing an argument. One that takes a value takes the rest of the argument, or, at its
-- end, waits for the next argument.
def cluster (d : Draft) : List Char → Except Stop (Draft × Option Item)
  | [] => .ok (d,none)
  | c :: rest =>
    match Item.ofShort? c with
    | none => .error (.unexpected (String.ofList ['-',c]))
    | some item =>
      if item.takesValue then
        match rest with
        | [] => .ok (d,some item)
        | '=' :: v => (d.value item (String.ofList v)).map (·,none)
        | v => (d.value item (String.ofList v)).map (·,none)
      else match d.flag item with
        | .error e => .error e
        | .ok d => d.cluster rest

def longOption (d : Draft) (body : List Char) : Except Stop (Draft × Option Item) :=
  let name := String.ofList (body.takeWhile (· != '='))
  match Item.ofLong? name with
  | none => .error (.unexpected (String.ofList ('-' :: '-' :: body)))
  | some item =>
    match body.dropWhile (· != '=') with
    | _ :: v =>
      if item.takesValue then (d.value item (String.ofList v)).map (·,none) else .error (.unwantedValue item)
    | [] => if item.takesValue then .ok (d,some item) else (d.flag item).map (·,none)

def isOption (argument : String) : Bool :=
  match argument.toList with
  | '-' :: _ :: _ => true
  | _ => false

-- Takes the arguments in order. `waiting` is an option whose value is still to come. Two dashes end
-- the options, and nothing may stand after them.
def take (d : Draft) (waiting : Option Item) : List String → Except Stop Draft
  | [] =>
    match waiting with
    | some item => .error (.missingValue item)
    | none => .ok d
  | argument :: rest =>
    match waiting with
    | some item =>
      if isOption argument then .error (.missingValue item)
      else match d.value item argument with
        | .error e => .error e
        | .ok d => d.take none rest
    | none =>
      match argument.toList with
      | ['-','-'] =>
        match rest with
        | [] => .ok d
        | extra :: _ => .error (.unexpected extra)
      | '-' :: '-' :: body =>
        match d.longOption body with
        | .error e => .error e
        | .ok (d,waiting) => d.take waiting rest
      | '-' :: c :: more =>
        match d.cluster (c :: more) with
        | .error e => .error e
        | .ok (d,waiting) => d.take waiting rest
      | _ => .error (.unexpected argument)

end Draft

def parse (arguments : List String) : Except Stop Options :=
  match Draft.take {} none arguments with
  | .error e => .error e
  | .ok d => d.finish

end CommandLine
end Famicom
