import Famicom.Proofs.Console.ReportCycle

namespace Famicom

def Bus.ShowsData (a : UInt16) : Prop := 0x2000 ≤ a ∧ a < 0x4000 ∧ a.toNat % 8 = 7

instance (a : UInt16) : Decidable (Bus.ShowsData a) :=
  inferInstanceAs (Decidable (0x2000 ≤ a ∧ a < 0x4000 ∧ a.toNat % 8 = 7))

theorem Ppu.Register.selected_data (a : UInt16) : Register.selected a = .data ↔ a.toNat % 8 = 7 := by
  unfold selected
  split <;> simp_all
  omega

namespace Ppu

def reported (p : Ppu) : Ppu := {p with report := {p.report with vblank := false},latch := false}

-- Video data has been read. The buffer is filled from the address as it was, and from beneath the palette where that
-- lies at the address. Of the address fourteen bits exist.
def fetched (p : Ppu) (c : Cartridge) : Ppu :=
  let old := p.address % 0x4000
  {p with
    buffer := p.read c (if 0x3F00 ≤ old then old - 0x1000 else old)
    address := (old + if hasBit p.control.bits 0x04 then 32 else 1) % 0x4000}

theorem readData_fetched (p : Ppu) (c : Cartridge) : (p.readData c).2 = p.fetched c := by
  have folded : fold (p.address + p.control.step) = (p.address % 0x4000 + p.control.step) % 0x4000 := by
    apply UInt16.toNat_inj.mp
    simp only [fold,UInt16.toNat_mod,UInt16.toNat_add,UInt16.reduceToNat]
    omega
  simp only [readData,advance,fetched]
  split
  · rename_i palette
    have above : 0x3F00 ≤ p.address % 0x4000 := palette
    rw [folded,if_pos above]
    rfl
  · rename_i below
    have under : ¬ 0x3F00 ≤ p.address % 0x4000 := below
    rw [folded,if_neg under]
    rfl

theorem readRegister_value (p : Ppu) (c : Cartridge) (register : Register) :
    (p.readRegister c register).1 = p.peekRegister c register := by
  cases register with
  | data =>
      simp only [readRegister,readData,peekRegister]
      split <;> rfl
  | control | mask | status | oamAddress | oamData | scroll | address => rfl

end Ppu

namespace Bus

def afterRead (b : Bus) (a : UInt16) : Bus :=
  if ShowsReport a then {b with ppu := b.ppu.reported}
  else if ShowsData a then {b with ppu := b.ppu.fetched b.cartridge}
  else b

theorem containing_data (a : UInt16) : Region.containing a = .register .data ↔ ShowsData a := by
  rw [ShowsData,← Ppu.Register.selected_data]
  unfold Region.containing
  grind

theorem read_peek (b : Bus) (a : UInt16) : (b.read a).1 = b.peek a := by
  rw [read,peek]
  cases Region.containing a with
  | register register => exact b.ppu.readRegister_value b.cartridge register
  | work | transfer | unwired | save | program => rfl

theorem afterRead_quiet (b : Bus) {a : UInt16} (report : Region.containing a ≠ .register .status)
    (data : Region.containing a ≠ .register .data) : b.afterRead a = b := by
  rw [ne_eq,containing_report] at report
  rw [ne_eq,containing_data] at data
  rw [afterRead,if_neg report,if_neg data]

-- Of the registers only these two have a read that leaves traces.
theorem read_leaves (b : Bus) (a : UInt16) : (b.read a).2 = b.afterRead a := by
  cases region : Region.containing a with
  | register register =>
      cases register with
      | status =>
          rw [read,afterRead,region,if_pos ((containing_report a).mp region)]
          rfl
      | data =>
          have shows := (containing_data a).mp region
          have other : ¬ ShowsReport a := fun report => absurd (report.2.2.symm.trans shows.2.2) (by decide)
          rw [read,afterRead,region,if_neg other,if_pos shows]
          simp only [Ppu.readRegister,Ppu.readData_fetched]
      | control | mask | oamAddress | oamData | scroll | address =>
          rw [b.afterRead_quiet (by rw [region]; decide) (by rw [region]; decide),read,region]
          rfl
  | work | transfer | unwired | save | program =>
      rw [b.afterRead_quiet (by rw [region]; simp) (by rw [region]; simp),read,region]

def SparedBy (b after : Bus) : Prop :=
  after = {b with ppu := {b.ppu with
    report := {b.ppu.report with vblank := after.ppu.report.vblank}
    latch := after.ppu.latch
    address := after.ppu.address
    buffer := after.ppu.buffer}}

theorem read_spared (b : Bus) (a : UInt16) : b.SparedBy (b.read a).2 := by
  rw [read_leaves,afterRead]
  split
  · rfl
  · split <;> rfl

def readAll (b : Bus) (addresses : List UInt16) : Bus := addresses.foldl (fun b a => (b.read a).2) b

theorem SparedBy.trans {b b' b'' : Bus} (first : b.SparedBy b') (second : b'.SparedBy b'') : b.SparedBy b'' := by
  unfold SparedBy at first second ⊢
  rw [second,first]

theorem readAll_spared (addresses : List UInt16) : ∀ b : Bus, b.SparedBy (b.readAll addresses) := by
  induction addresses with
  | nil => exact fun _ => rfl
  | cons a rest ih => exact fun b => (b.read_spared a).trans (ih (b.read a).2)

-- A read answers what a peek shows, and leaves the report's or the data's traces at their addresses and none elsewhere.
-- However many of them are made, memory, the cartridge and what is pending stay as they were.
theorem peeks_exact (b : Bus) (a : UInt16) :
    b.peek a = (b.read a).1 ∧
      (b.read a).2 = (if 0x2000 ≤ a ∧ a < 0x4000 ∧ a.toNat % 8 = 2 then {b with ppu := b.ppu.reported}
        else if 0x2000 ≤ a ∧ a < 0x4000 ∧ a.toNat % 8 = 7 then {b with ppu := b.ppu.fetched b.cartridge}
        else b) ∧
      ∀ addresses, b.SparedBy (b.readAll addresses) :=
  ⟨(b.read_peek a).symm,b.read_leaves a,fun addresses => readAll_spared addresses b⟩

end Bus
end Famicom
