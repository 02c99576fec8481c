namespace Famicom.Nrom

def prgOffset (size : Nat) (a : UInt16) : Nat := a.toNat % 0x8000 % size

def chrOffset (size : Nat) (a : UInt16) : Nat := a.toNat % 0x2000 % size

end Famicom.Nrom
