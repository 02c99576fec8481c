import Famicom.Proofs.Console.Traffic

namespace Famicom

namespace Ppu

structure InRange (p : Ppu) : Prop where
  address : p.address < 0x4000
  palette : ∀ i : Fin 0x20, p.palette[i] < 0x40

theorem fold_lt (a : UInt16) : fold a < 0x4000 := UInt16.mod_lt a (by decide)

theorem paletteByte_lt (v : UInt8) : v % 0x40 < 0x40 := UInt8.mod_lt v (by decide)

-- Of an address that is written byte by byte, each half has its own bound.
theorem word_lt {lo hi : UInt8} (low : hi < 0x40) : word lo hi < 0x4000 := by
  have := lo.toNat_lt
  rw [UInt8.lt_iff_toNat_lt] at low
  rw [UInt16.lt_iff_toNat_lt,word_toNat]
  simp only [UInt8.reduceToNat,UInt16.reduceToNat] at low ⊢
  omega

theorem highByte_lt {a : UInt16} (low : a < 0x4000) : highByte a < 0x40 := by
  rw [UInt16.lt_iff_toNat_lt] at low
  rw [UInt8.lt_iff_toNat_lt,highByte]
  simp only [UInt16.toNat_toUInt8,UInt16.toNat_div,UInt8.reduceToNat,UInt16.reduceToNat] at low ⊢
  omega

theorem powerOn_inRange : powerOn.InRange where
  address := by decide
  palette := by decide

variable {p : Ppu}

theorem InRange.advance (ranges : p.InRange) : p.advance.InRange := {ranges with address := fold_lt _}

theorem InRange.write (ranges : p.InRange) (c : Cartridge) (a : UInt16) (v : UInt8) : (p.write c a v).1.InRange := by
  simp only [Ppu.write]
  split
  · exact ranges
  · split
    · exact ⟨ranges.address,ranges.palette⟩
    · refine ⟨ranges.address,?_⟩
      intro i
      simp only [Fin.getElem_fin,Vector.getElem_set]
      split
      · exact paletteByte_lt v
      · exact ranges.palette i

theorem InRange.readRegister (ranges : p.InRange) (c : Cartridge) (register : Register) :
    (p.readRegister c register).2.InRange := by
  cases register with
  | data =>
      simp only [Ppu.readRegister,readData]
      split <;> exact ⟨fold_lt _,ranges.palette⟩
  | control | mask | status | oamAddress | oamData | scroll | address => exact ⟨ranges.address,ranges.palette⟩

theorem InRange.writeRegister (ranges : p.InRange) (c : Cartridge) (register : Register) (v : UInt8) :
    (p.writeRegister c register v).1.InRange := by
  cases register with
  | control | mask | status | oamAddress | oamData => exact ⟨ranges.address,ranges.palette⟩
  | scroll =>
      simp only [Ppu.writeRegister]
      split <;> exact ⟨ranges.address,ranges.palette⟩
  | address =>
      simp only [Ppu.writeRegister]
      split
      · exact ⟨word_lt (highByte_lt ranges.address),ranges.palette⟩
      · exact ⟨word_lt (paletteByte_lt v),ranges.palette⟩
  | data => exact (ranges.write c _ v).advance

theorem InRange.poked (ranges : p.InRange) (poke : Poke) : (p.poked poke).InRange := by
  cases poke with
  | powerOn => exact powerOn_inRange
  | control | mask | report | storeOam | beginFrame | enterVblank | publishSprites =>
      exact ⟨ranges.address,ranges.palette⟩

end Ppu

namespace Bus

variable {b : Bus}

theorem read_inRange (ranges : b.ppu.InRange) (a : UInt16) : (b.read a).2.ppu.InRange := by
  rw [read]
  split
  · exact ranges
  · exact ranges.readRegister b.cartridge _
  all_goals exact ranges

theorem write_inRange (ranges : b.ppu.InRange) (a : UInt16) (v : UInt8) : (b.write a v).ppu.InRange := by
  rw [write]
  split
  · exact ranges
  · exact ranges.writeRegister b.cartridge _ v
  · exact transfer_keeps (fun after => after.ppu.InRange) (fun after a before => read_inRange before a)
      (fun _ v before => before.poked (.storeOam v)) (fun _ _ before => before) v ranges
  all_goals exact ranges

theorem inRange_abiding : Abiding fun b : Bus => b.ppu.InRange where
  lasting :=
    {read := fun _ a ranges => read_inRange ranges a
     write := fun _ a v ranges => write_inRange ranges a v
     stall := fun _ ranges => ranges}
  poked _ poke ranges := ranges.poked poke
  writeVideo b a v ranges := ranges.write b.cartridge a v
  powerCycle _ _ := Ppu.powerOn_inRange

end Bus
end Famicom
