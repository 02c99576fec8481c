import Famicom.Picture.Frame

namespace Famicom

structure Handle where
  slot : Nat
  deriving DecidableEq, Repr

-- Holders of one handle see one frame, and a frame is replaced as a whole.
structure Exchange where
  slots : Array Frame := #[]

namespace Exchange

def acquire (e : Exchange) : Handle × Exchange := (⟨e.slots.size⟩,⟨e.slots.push .blank⟩)

def publish (e : Exchange) (h : Handle) (f : Frame) : Exchange := ⟨e.slots.setIfInBounds h.slot f⟩

def snapshot (e : Exchange) (h : Handle) : Frame := e.slots.getD h.slot .blank

end Exchange
end Famicom
