import Famicom.Cpu.Instruction
import Famicom.Cpu.Registers

namespace Famicom

-- An action names the accesses that an instruction makes and holds a pure function for the rest, so that
-- a fact about accesses is proved once for a kind of action and a fact about registers never meets memory.
inductive Action where
  | load (update : Registers → UInt8 → Registers)
  | store (value : Registers → UInt8)
  -- Reads the operand, writes a result back and keeps the carry that comes out.
  | modify (result : Bool → UInt8 → UInt8 × Bool)
  | internal (update : Registers → Registers)
  | push (value : Registers → UInt8)
  | pull (update : Registers → UInt8 → Registers)
  | branch (taken : Status → Bool)
  | jump
  | call
  | returnCall
  | returnInterrupt

namespace Registers

-- There is no decimal mode: the sum is binary whatever the decimal flag says.
def add (r : Registers) (v : UInt8) : Registers :=
  let sum := r.a.toNat + v.toNat + r.p.carry.toNat
  let result := UInt8.ofNat sum
  let signOff := hasBit ((r.a ^^^ result) &&& (v ^^^ result)) 0x80
  {r with a := result,p := {r.p with carry := decide (255 < sum),overflow := signOff}.judging result}

-- Subtraction adds the complement, and a set carry stands for no borrow.
def subtract (r : Registers) (v : UInt8) : Registers := r.add (~~~ v)

def compare (r : Registers) (register v : UInt8) : Registers :=
  {r with p := {r.p with carry := decide (v ≤ register)}.judging (register - v)}

def testBits (r : Registers) (v : UInt8) : Registers :=
  {r with p := {r.p with zero := r.a &&& v == 0,overflow := hasBit v 0x40,negative := hasBit v 0x80}}

def setA (r : Registers) (v : UInt8) : Registers := {r with a := v,p := r.p.judging v}

def setX (r : Registers) (v : UInt8) : Registers := {r with x := v,p := r.p.judging v}

def setY (r : Registers) (v : UInt8) : Registers := {r with y := v,p := r.p.judging v}

end Registers

def shiftLeft (bitIn : Bool) (v : UInt8) : UInt8 × Bool := (v * 2 + bitIn.toUInt8,hasBit v 0x80)

def shiftRight (bitIn : Bool) (v : UInt8) : UInt8 × Bool :=
  (v / 2 + (if bitIn then 0x80 else 0),hasBit v 0x01)

def Mnemonic.action : Mnemonic → Action
  | .lda => .load .setA
  | .ldx => .load .setX
  | .ldy => .load .setY
  | .sta => .store (·.a)
  | .stx => .store (·.x)
  | .sty => .store (·.y)
  | .tax => .internal fun r => r.setX r.a
  | .tay => .internal fun r => r.setY r.a
  | .tsx => .internal fun r => r.setX r.sp
  | .txa => .internal fun r => r.setA r.x
  | .txs => .internal fun r => {r with sp := r.x}
  | .tya => .internal fun r => r.setA r.y
  | .pha => .push (·.a)
  | .php => .push (·.p.saved)
  | .pla => .pull .setA
  | .plp => .pull fun r v => {r with p := .restored v}
  | .and => .load fun r v => r.setA (r.a &&& v)
  | .eor => .load fun r v => r.setA (r.a ^^^ v)
  | .ora => .load fun r v => r.setA (r.a ||| v)
  | .bit => .load .testBits
  | .adc => .load .add
  | .sbc => .load .subtract
  | .cmp => .load fun r v => r.compare r.a v
  | .cpx => .load fun r v => r.compare r.x v
  | .cpy => .load fun r v => r.compare r.y v
  | .inc => .modify fun c v => (v + 1,c)
  | .inx => .internal fun r => r.setX (r.x + 1)
  | .iny => .internal fun r => r.setY (r.y + 1)
  | .dec => .modify fun c v => (v - 1,c)
  | .dex => .internal fun r => r.setX (r.x - 1)
  | .dey => .internal fun r => r.setY (r.y - 1)
  | .asl => .modify fun _ v => shiftLeft false v
  | .lsr => .modify fun _ v => shiftRight false v
  | .rol => .modify shiftLeft
  | .ror => .modify shiftRight
  | .jmp => .jump
  | .jsr => .call
  | .rts => .returnCall
  | .bcc => .branch (!·.carry)
  | .bcs => .branch (·.carry)
  | .bne => .branch (!·.zero)
  | .beq => .branch (·.zero)
  | .bpl => .branch (!·.negative)
  | .bmi => .branch (·.negative)
  | .bvc => .branch (!·.overflow)
  | .bvs => .branch (·.overflow)
  | .clc => .internal fun r => {r with p := {r.p with carry := false}}
  | .cld => .internal fun r => {r with p := {r.p with decimal := false}}
  | .cli => .internal fun r => {r with p := {r.p with interruptDisable := false}}
  | .clv => .internal fun r => {r with p := {r.p with overflow := false}}
  | .sec => .internal fun r => {r with p := {r.p with carry := true}}
  | .sed => .internal fun r => {r with p := {r.p with decimal := true}}
  | .sei => .internal fun r => {r with p := {r.p with interruptDisable := true}}
  -- A break leaves its mark in the status and takes no vector.
  | .brk => .internal fun r => {r with p := {r.p with brk := true}}
  | .nop => .internal id
  | .rti => .returnInterrupt

end Famicom
