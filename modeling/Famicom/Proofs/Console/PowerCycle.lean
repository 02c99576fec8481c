import Famicom.Proofs.Cartridge.Sections
import Famicom.Proofs.Console.Traffic

namespace Famicom

-- Where a program starts. The vector lies in the cartridge, so that it depends on the board.
def Cartridge.resetVector (c : Cartridge) : UInt16 :=
  word (c.prgRead Famicom.resetVector) (c.prgRead (Famicom.resetVector + 1))

namespace Machine

variable {image : Array UInt8} {config : Config} {started : Turn}

def around (c : Cartridge) (config : Config) : Machine :=
  {cpu := {registers := {pc := c.resetVector}},bus := .around c,config := config}

-- The machine with the memory contents of another cartridge. Patterns that came with the image stay.
def keeping (m : Machine) (c : Cartridge) : Machine :=
  let chr := if m.bus.cartridge.chrWritable then c.chr else m.bus.cartridge.chr
  let kept := {m.bus.cartridge with ram := c.ram,chr := chr}
  {m with bus := {m.bus with cartridge := kept}}

theorem reset_around (m : Machine) :
    m.reset = ⟨around m.bus.cartridge.powerOn m.config,[.reset m.bus.cartridge.powerOn.resetVector]⟩ := rfl

theorem load_made {c : Cartridge} (made : Cartridge.load image = .ok c) (config : Config) :
    load image config = .ok ⟨around c config,[.loaded c,.reset c.resetVector]⟩ := by
  have new : (Bus.around c).cartridge.powerOn = c := (Cartridge.load_loaded made).powerOn
  simp only [load,made,reset_around,new]

theorem load_around (loaded : load image config = .ok started) :
    ∃ c, Cartridge.load image = .ok c ∧ started = ⟨around c config,[.loaded c,.reset c.resetVector]⟩ := by
  cases made : Cartridge.load image with
  | error e =>
      rw [load,made] at loaded
      cases loaded
  | ok c =>
      rw [load_made made] at loaded
      cases loaded
      exact ⟨c,rfl,rfl⟩

theorem keeping_used {c used : Cartridge} (descends : c.Descends used) (new : c.powerOn = c) (config : Config) :
    around used.powerOn config = (around c config).keeping used := by
  have patterns : used.chr = if c.chrWritable then used.chr else c.chr := by
    cases writable : c.chrWritable with
    | true => rfl
    | false => exact descends.patterns writable
  rw [descends.powerOn_eq new,patterns]
  rfl

theorem keeping_nothing (m : Machine) (c : Cartridge) (fixed : m.bus.cartridge.chrWritable = false)
    (same : c.ram = m.bus.cartridge.ram) : m.keeping c = m := by
  rw [keeping,fixed,same]
  rfl

-- Of everything that can have happened since loading, only the contents of writable cartridge memory outlast a reset.
-- Where there is no such memory, a machine that was reset and one that was loaded cannot be told apart.
theorem reset_renews (loaded : load image config = .ok started) (requests : List Request) :
    let fresh := started.machine
    let used := fresh.serveAll requests
    (∃ c, Cartridge.load image = .ok c ∧ fresh = around c config) ∧
      used.reset.machine = fresh.keeping used.bus.cartridge ∧ used.reset.records = [.reset fresh.cpu.registers.pc] ∧
      (fresh.bus.cartridge.chrWritable = false → fresh.bus.cartridge.ram = none →
        used.reset.machine = fresh ∧ ∀ later, used.reset.machine.transcript later = fresh.transcript later) := by
  intro fresh used
  obtain ⟨c,made,rfl⟩ := load_around loaded
  have new : c.powerOn = c := (Cartridge.load_loaded made).powerOn
  have descends : c.Descends used.bus.cartridge :=
    serveAll_keeps (Bus.descends_abiding c) (around c config) requests (Cartridge.Descends.refl c)
  have sameConfig : used.config = config := (around c config).serveAll_config requests
  have renewed : used.reset.machine = fresh.keeping used.bus.cartridge := by
    rw [reset_around,sameConfig]
    exact keeping_used descends new config
  refine ⟨⟨c,made,rfl⟩,renewed,?_,?_⟩
  · rw [reset_around,descends.powerOn_eq new]
    rfl
  · intro fixed none
    have absent : c.ram = Option.none := none
    have noRam : used.bus.cartridge.ram = c.ram := by
      have still := descends.ram
      rw [absent] at still ⊢
      exact Option.isNone_iff_eq_none.mp (Option.isSome_eq_false_iff.mp still)
    have same : used.reset.machine = fresh := renewed.trans (fresh.keeping_nothing _ fixed noRam)
    exact ⟨same,fun later => by rw [same]⟩

theorem singleBanked_renews :
    ∃ started, load (Cartridge.singleBanked 0) {} = .ok started ∧
      (started.machine.serveAll [.frame,.touch (.drive (.write 0x0000 0x12)),.touch (.poke (.control 0x80)),.reset,
        .frame]).reset.machine = started.machine := by
  have loaded := load_made (Cartridge.load_singleBanked 0 .nrom rfl rfl) {}
  exact ⟨_,loaded,((reset_renews loaded _).2.2.2 rfl rfl).1⟩

end Machine
end Famicom
