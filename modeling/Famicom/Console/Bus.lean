import Famicom.AddressSpace
import Famicom.Picture.Ppu

namespace Famicom

structure Bus where
  ram : Vector UInt8 0x800
  ppu : Ppu
  cartridge : Cartridge
  stall : UInt32 := 0

-- What answers an address. Where nothing is wired the answer is zero.
inductive Bus.Region where
  | work (cell : Fin 0x800)
  | register (register : Ppu.Register)
  | transfer
  | unwired
  | save
  | program
  deriving DecidableEq, Repr

namespace Bus

def Region.containing (a : UInt16) : Region :=
  if a < 0x2000 then .work ⟨a.toNat % 0x800,by omega⟩
  else if a < 0x4000 then .register (Ppu.Register.selected a)
  else if a = 0x4014 then .transfer
  else if a < 0x6000 then .unwired
  else if a < 0x8000 then .save
  else .program

def around (c : Cartridge) : Bus := {ram := Vector.replicate _ 0,ppu := .powerOn,cartridge := c}

-- The power switched off and on: of the cartridge only memory contents outlast it.
def powerCycle (b : Bus) : Bus := around b.cartridge.powerOn

def peek (b : Bus) (a : UInt16) : UInt8 :=
  match Region.containing a with
  | .work cell => b.ram[cell]
  | .register register => b.ppu.peekRegister b.cartridge register
  | .transfer | .unwired => 0
  | .save => b.cartridge.ramRead a
  | .program => b.cartridge.prgRead a

def peekWord (b : Bus) (a : UInt16) : UInt16 := word (b.peek a) (b.peek (a + 1))

def peekVideo (b : Bus) (a : UInt16) : UInt8 := b.ppu.read b.cartridge a

def read (b : Bus) (a : UInt16) : UInt8 × Bus :=
  match Region.containing a with
  | .work cell => (b.ram[cell],b)
  | .register register =>
    let (v,ppu) := b.ppu.readRegister b.cartridge register
    (v,{b with ppu := ppu})
  | .transfer | .unwired => (0,b)
  | .save => (b.cartridge.ramRead a,b)
  | .program => (b.cartridge.prgRead a,b)

def transferCycles : UInt32 := 513

-- A transfer reads its page as the processor would, side effects included, one byte at a time.
def transferByte (page : UInt8) (i : Nat) (b : Bus) : Bus :=
  let (v,b) := b.read (word (UInt8.ofNat i) page)
  {b with ppu := b.ppu.storeOam v}

def transfer (b : Bus) (page : UInt8) : Bus :=
  let b := Nat.fold 256 (fun i _ b => transferByte page i b) b
  {b with stall := b.stall + transferCycles}

def write (b : Bus) (a : UInt16) (v : UInt8) : Bus :=
  match Region.containing a with
  | .work cell => {b with ram := b.ram.set cell v}
  | .register register =>
    let (ppu,cartridge) := b.ppu.writeRegister b.cartridge register v
    {b with ppu := ppu,cartridge := cartridge}
  | .transfer => b.transfer v
  | .unwired => b
  | .save => {b with cartridge := b.cartridge.ramWrite a v}
  | .program => {b with cartridge := b.cartridge.prgWrite a v}

instance : AddressSpace Bus where
  read := read
  write := write
  takeStall b := (b.stall,{b with stall := 0})

end Bus
end Famicom
