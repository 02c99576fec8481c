import Famicom.Proofs.Console.Regions
import Famicom.Proofs.Console.Storage

namespace Famicom

structure Sample where
  address : UInt16
  value : UInt8
  deriving DecidableEq, Repr

-- A bus with all reads of it, newest first. A transfer's own reads are among them.
structure Tapped where
  bus : Bus
  samples : List Sample := []

namespace Tapped

def read (t : Tapped) (a : UInt16) : UInt8 × Tapped :=
  ((t.bus.read a).1,⟨(t.bus.read a).2,⟨a,(t.bus.read a).1⟩ :: t.samples⟩)

def transferByte (page : UInt8) (i : Nat) (t : Tapped) : Tapped :=
  let (v,t) := t.read (word (UInt8.ofNat i) page)
  {t with bus := {t.bus with ppu := t.bus.ppu.storeOam v}}

def transfer (t : Tapped) (page : UInt8) : Tapped :=
  let t := Nat.fold 256 (fun i _ t => transferByte page i t) t
  {t with bus := {t.bus with stall := t.bus.stall + Bus.transferCycles}}

def write (t : Tapped) (a : UInt16) (v : UInt8) : Tapped :=
  match Bus.Region.containing a with
  | .transfer => t.transfer v
  | _ => {t with bus := t.bus.write a v}

instance : AddressSpace Tapped where
  read := read
  write := write
  takeStall t := (t.bus.stall,{t with bus := {t.bus with stall := 0}})

theorem transfer_bus (t : Tapped) (page : UInt8) : (t.transfer page).bus = t.bus.transfer page := by
  have copied : ∀ n, (Nat.fold n (fun i _ t => transferByte page i t) t).bus =
      Nat.fold n (fun i _ b => Bus.transferByte page i b) t.bus := by
    intro n
    induction n with
    | zero => rfl
    | succ n ih =>
        rw [Nat.fold_succ,Nat.fold_succ,← ih]
        rfl
  rw [transfer,Bus.transfer,← copied]

theorem write_bus (t : Tapped) (a : UInt16) (v : UInt8) : (t.write a v).bus = t.bus.write a v := by
  rw [write]
  split
  · rename_i region
    rw [transfer_bus,Bus.write,region]
  · rfl

end Tapped

theorem tapped_faithful : Faithful Tapped.bus :=
  ⟨fun _ _ => ⟨rfl,rfl⟩,Tapped.write_bus,fun _ => ⟨rfl,rfl⟩⟩

def Bus.ShowsReport (a : UInt16) : Prop := 0x2000 ≤ a ∧ a < 0x4000 ∧ a.toNat % 8 = 2

instance (a : UInt16) : Decidable (Bus.ShowsReport a) :=
  inferInstanceAs (Decidable (0x2000 ≤ a ∧ a < 0x4000 ∧ a.toNat % 8 = 2))

theorem Ppu.Register.selected_status (a : UInt16) : Register.selected a = .status ↔ a.toNat % 8 = 2 := by
  unfold selected
  split <;> simp_all

namespace Bus

theorem containing_report (a : UInt16) : Region.containing a = .register .status ↔ ShowsReport a := by
  rw [ShowsReport,← Ppu.Register.selected_status]
  unfold Region.containing
  grind

end Bus

namespace Report

def sampled (r : Report) (a : UInt16) : Report := if Bus.ShowsReport a then {r with vblank := false} else r

end Report

theorem Ppu.readRegister_report (p : Ppu) (c : Cartridge) (register : Register) :
    (p.readRegister c register).2.report =
      if register = .status then {p.report with vblank := false} else p.report := by
  cases register with
  | data =>
      simp only [readRegister,readData]
      split <;> rfl
  | control | mask | status | oamAddress | oamData | scroll | address => rfl

theorem Ppu.write_report (p : Ppu) (c : Cartridge) (a : UInt16) (v : UInt8) : (p.write c a v).1.report = p.report := by
  simp only [write]
  split
  · rfl
  · split <;> rfl

theorem Ppu.writeRegister_report (p : Ppu) (c : Cartridge) (register : Register) (v : UInt8) :
    (p.writeRegister c register v).1.report = p.report := by
  cases register with
  | control | mask | status | oamAddress | oamData => rfl
  | scroll | address =>
      simp only [writeRegister]
      split <;> rfl
  | data => exact p.write_report c _ v

namespace Bus

theorem read_report (b : Bus) (a : UInt16) : (b.read a).2.ppu.report = b.ppu.report.sampled a := by
  have report := containing_report a
  rw [read,Report.sampled]
  cases region : Region.containing a with
  | register register =>
      rw [region] at report
      simp only [← report,Region.register.injEq,Ppu.readRegister_report]
  | work | transfer | unwired | save | program =>
      rw [region] at report
      rw [if_neg]
      intro shows
      cases report.mpr shows

theorem read_value (b : Bus) (a : UInt16) (shows : ShowsReport a) : (b.read a).1 = b.ppu.report.toByte := by
  rw [read,(containing_report a).mpr shows]
  rfl

theorem write_report (b : Bus) (a : UInt16) (v : UInt8) (other : Region.containing a ≠ .transfer) :
    (b.write a v).ppu.report = b.ppu.report := by
  rw [write]
  split
  · rfl
  · exact b.ppu.writeRegister_report b.cartridge _ v
  · exact absurd ‹_› other
  all_goals rfl

end Bus

-- Something about the report and about the samples so far that one more sample keeps.
def Sampling (holds : Report → List Sample → Prop) : Prop :=
  ∀ r past a v, holds r past → (Bus.ShowsReport a → v = r.toByte) → holds (r.sampled a) (⟨a,v⟩ :: past)

namespace Sampling

variable {holds : Report → List Sample → Prop} {t : Tapped} {earlier : List Sample}

theorem read (sampling : Sampling holds) (start : holds t.bus.ppu.report (t.samples ++ earlier)) (a : UInt16) :
    holds (t.read a).2.bus.ppu.report ((t.read a).2.samples ++ earlier) := by
  have sampled := sampling _ _ a (t.bus.read a).1 start (t.bus.read_value a)
  rw [← Bus.read_report] at sampled
  exact sampled

theorem transfer (sampling : Sampling holds) (start : holds t.bus.ppu.report (t.samples ++ earlier)) (page : UInt8) :
    holds (t.transfer page).bus.ppu.report ((t.transfer page).samples ++ earlier) := by
  have copied : ∀ n, let after := Nat.fold n (fun i _ t => Tapped.transferByte page i t) t
      holds after.bus.ppu.report (after.samples ++ earlier) := by
    intro n
    induction n with
    | zero => exact start
    | succ n ih =>
        rw [Nat.fold_succ]
        exact sampling.read ih _
  exact copied 256

theorem lasting (sampling : Sampling holds) (earlier : List Sample) :
    Lasting fun t : Tapped => holds t.bus.ppu.report (t.samples ++ earlier) where
  read _ a start := sampling.read start a
  write t a v start := by
    show holds (t.write a v).bus.ppu.report ((t.write a v).samples ++ earlier)
    rw [Tapped.write]
    split
    · exact sampling.transfer start v
    · rename_i other
      simp only [t.bus.write_report a v other]
      exact start
  stall _ start := start

end Sampling

namespace Hardware

def actSamples (h : Hardware) (a : Act) : List Sample :=
  match a with
  | .instruction => (h.cpu.step (⟨h.bus,[]⟩ : Tapped)).memory.samples
  | .blank =>
    let bus := {h.bus with ppu := h.bus.ppu.enterVblank}
    if bus.ppu.control.nmiEnabled then (h.cpu.nmi (⟨bus,[]⟩ : Tapped)).2.samples else []
  | .begin | .draw | .publish | .count => []

def samples (h : Hardware) (acts : List Act) : List Sample :=
  match acts with
  | [] => []
  | a :: rest => (h.act a).samples rest ++ h.actSamples a

variable {holds : Report → List Sample → Prop} {h : Hardware} {earlier : List Sample}

theorem instruction_sampling (sampling : Sampling holds) (start : holds h.bus.ppu.report earlier) :
    holds (h.act .instruction).bus.ppu.report (h.actSamples .instruction ++ earlier) := by
  have after := (sampling.lasting earlier).step h.cpu (⟨h.bus,[]⟩ : Tapped) start
  rw [(tapped_faithful.step h.cpu _).2.2] at after
  exact after

theorem blank_sampling (sampling : Sampling holds) (h : Hardware) (earlier : List Sample)
    (start : holds {h.bus.ppu.report with vblank := true} earlier) :
    holds (h.act .blank).bus.ppu.report (h.actSamples .blank ++ earlier) := by
  let bus := {h.bus with ppu := h.bus.ppu.enterVblank}
  have after := (sampling.lasting earlier).interrupt nmiVector h.cpu (⟨bus,[]⟩ : Tapped) start
  rw [(tapped_faithful.interrupt nmiVector h.cpu _).2] at after
  simp only [act,actSamples]
  split
  · exact after
  · exact start

-- Acts that bring nothing into the report but what reading does to it.
def Passive (a : Act) : Prop := a = .instruction ∨ a = .draw ∨ a = .count

theorem passive_sampling (sampling : Sampling holds) (acts : List Act) (passive : ∀ a ∈ acts, Passive a) :
    ∀ (h : Hardware) (earlier : List Sample), holds h.bus.ppu.report earlier →
      holds (h.play acts).bus.ppu.report (h.samples acts ++ earlier) := by
  induction acts with
  | nil => exact fun _ _ start => start
  | cons a acts ih =>
      intro h earlier start
      obtain ⟨first,rest⟩ := List.forall_mem_cons.mp passive
      have after : holds (h.act a).bus.ppu.report (h.actSamples a ++ earlier) := by
        rcases first with rfl | rfl | rfl
        · exact instruction_sampling sampling start
        · exact start
        · exact start
      rw [samples,List.append_assoc]
      exact ih rest (h.act a) _ after

end Hardware

namespace Report

theorem empty_sampling : Sampling fun r past => r = {} ∧ ∀ s ∈ past, Bus.ShowsReport s.address → s.value = 0 := by
  rintro r past a v ⟨rfl,zero⟩ told
  refine ⟨?_,List.forall_mem_cons.mpr ⟨told,zero⟩⟩
  rw [sampled]
  split <;> rfl

theorem sprites_sampling (hit overflow : Bool) :
    Sampling fun r _ => r.spriteZeroHit = hit ∧ r.spriteOverflow = overflow := by
  rintro r past a v same _
  rw [sampled]
  split
  · exact same
  · exact same

-- The blank is told of as long as nobody has sampled the report.
theorem blank_sampling :
    Sampling fun r past => r.vblank = true ↔ ∀ s ∈ past, ¬ Bus.ShowsReport s.address := by
  intro r past a v told _
  rw [sampled,List.forall_mem_cons]
  by_cases shows : Bus.ShowsReport a
  · simp [shows]
  · rw [if_neg shows,told]
    exact ⟨fun all => ⟨shows,all⟩,fun all => all.2⟩

theorem toByte_vblank (r : Report) : r.toByte.toNat.testBit 7 = r.vblank := by
  obtain ⟨v,h,o⟩ := r
  revert v h o
  decide

def Sees (r : Report) (raster : Raster) : Prop :=
  r.toByte.toNat.testBit 6 = raster.spriteZeroHit ∧ r.toByte.toNat.testBit 5 = raster.spriteOverflow

theorem sees_iff (r : Report) (raster : Raster) :
    r.Sees raster ↔ r.spriteZeroHit = raster.spriteZeroHit ∧ r.spriteOverflow = raster.spriteOverflow := by
  have bits : r.toByte.toNat.testBit 6 = r.spriteZeroHit ∧ r.toByte.toNat.testBit 5 = r.spriteOverflow := by
    obtain ⟨v,h,o⟩ := r
    revert v h o
    decide
  rw [Sees,bits.1,bits.2]

end Report

def Touch.sparesSprites (t : Touch) : Bool :=
  match t with
  | .poke (.report _) | .poke .beginFrame | .poke (.publishSprites _ _) | .poke .powerOn | .powerCycle => false
  | .poke (.control _) | .poke (.mask _) | .poke (.storeOam _) | .poke .enterVblank | .drive _ | .peek _ | .peekVideo _
  | .writeVideo _ _ | .takeStall => true

namespace Hardware

theorem touched_sees {h : Hardware} {raster : Raster} (sees : h.bus.ppu.report.Sees raster) (t : Touch)
    (spares : t.sparesSprites = true) : (h.touched t).bus.ppu.report.Sees raster := by
  rw [Report.sees_iff] at sees ⊢
  cases t with
  | drive d =>
      have after := d.done_lasting ((Report.sprites_sampling _ _).lasting []) h.cpu (⟨h.bus,[]⟩ : Tapped) sees
      rw [(d.done_faithful tapped_faithful h.cpu _).2] at after
      exact after
  | writeVideo a v =>
      rw [touched,Bus.writeVideo]
      simp only [Ppu.write_report]
      exact sees
  | poke poke =>
      cases poke with
      | control | mask | storeOam | enterVblank => exact sees
      | report | beginFrame | publishSprites | powerOn => cases spares
  | peek | peekVideo | takeStall => exact sees
  | powerCycle => cases spares

theorem touchedAll_sees {raster : Raster} (touches : List Touch) (spare : ∀ t ∈ touches, t.sparesSprites = true) :
    ∀ {h : Hardware}, h.bus.ppu.report.Sees raster → (h.touchedAll touches).bus.ppu.report.Sees raster := by
  induction touches with
  | nil => exact fun sees => sees
  | cons t touches ih =>
      intro h sees
      obtain ⟨first,rest⟩ := List.forall_mem_cons.mp spare
      exact ih rest (touched_sees sees t first)

theorem play_raster (acts : List Act) (undrawn : .draw ∉ acts) : ∀ h : Hardware, (h.play acts).raster = h.raster := by
  induction acts with
  | nil => exact fun _ => rfl
  | cons a acts ih =>
      intro h
      have other : a ≠ .draw := fun same => undrawn (same ▸ List.mem_cons_self)
      have first : (h.act a).raster = h.raster := by
        cases a with
        | draw => exact absurd rfl other
        | blank =>
            rw [act]
            dsimp only
            split <;> rfl
        | begin | instruction | publish | count => rfl
      exact (ih (fun among => undrawn (List.mem_cons_of_mem _ among)) (h.act a)).trans first

theorem actsToFault_prefix (h : Hardware) (acts : List Act) : h.actsToFault acts <+: acts := by
  induction acts generalizing h with
  | nil => exact List.prefix_rfl
  | cons a acts ih =>
      rw [actsToFault]
      split
      · exact List.prefix_append [a] acts
      · exact List.cons_prefix_cons.mpr ⟨rfl,ih (h.act a)⟩

theorem actsToFault_quiet (h : Hardware) (acts : List Act) (quiet : (h.playToFault acts).2 = none) :
    h.actsToFault acts = acts := by
  induction acts generalizing h with
  | nil => rfl
  | cons a acts ih =>
      rw [playToFault] at quiet
      cases fault : h.fault? a with
      | some e =>
          rw [fault] at quiet
          cases quiet
      | none =>
          rw [fault] at quiet
          rw [actsToFault,fault,Option.isSome_none,if_neg Bool.false_ne_true,ih _ quiet]

end Hardware

theorem prefix_cut {α : Type} {done before after : List α} {a : α} (first : done <+: before ++ a :: after) :
    done <+: before ∨ ∃ more, done = before ++ a :: more ∧ more <+: after := by
  obtain ⟨rest,split⟩ := first
  rcases List.append_eq_append_iff.mp split with ⟨missing,whole,_⟩ | ⟨more,whole,tail⟩
  · exact .inl ⟨missing,whole.symm⟩
  · cases more with
    | nil =>
        rw [List.append_nil] at whole
        exact .inl (whole ▸ List.prefix_rfl)
    | cons b more =>
        rw [List.cons_append] at tail
        cases tail
        exact .inr ⟨more,whole,rest,rfl⟩

namespace Machine

theorem actsDone_prefix (m : Machine) : m.actsDone <+: m.config.acts := by
  unfold actsDone
  split
  · exact List.nil_prefix
  · exact List.prefix_rfl
  · exact m.hardware.actsToFault_prefix m.config.acts

theorem actsDone_succeeding (m : Machine) (succeeds : m.runFrame.failure? = none) : m.actsDone = m.config.acts := by
  have running : m.runFrame.machine.halted = none := Option.map_eq_none_iff.mp succeeds
  unfold actsDone
  split
  · rename_i e stopped
    rw [m.halted_frame (by rw [stopped]; rfl),stopped] at running
    cases running
  · rfl
  · rename_i started halts
    apply m.hardware.actsToFault_quiet
    rw [m.runFrame_halts started halts]
    exact running

def visibleActs (m : Machine) : List Act :=
  .begin :: List.replicate (visibleShare m.config.instructionsPerFrame) .instruction

def blankActs (m : Machine) : List Act :=
  List.replicate (m.config.instructionsPerFrame - visibleShare m.config.instructionsPerFrame) .instruction ++ [.count]

theorem acts_parts (m : Machine) : m.config.acts = m.visibleActs ++ .draw :: .publish :: .blank :: m.blankActs := by
  simp [Config.acts,frameActs,visibleActs,blankActs]

theorem visibleActs_undrawn (m : Machine) : .draw ∉ m.visibleActs := by simp [visibleActs]

theorem blankActs_undrawn (m : Machine) : .draw ∉ .blank :: m.blankActs := by simp [blankActs]

theorem blankActs_passive {m : Machine} {a : Act} (among : a ∈ m.blankActs) : Hardware.Passive a := by
  rcases List.mem_append.mp among with earlier | last
  · exact .inl (List.eq_of_mem_replicate earlier)
  · exact .inr (.inr (List.mem_singleton.mp last))

variable {m : Machine} {done : List Act}

theorem visible_empty (first : done <+: m.config.acts) (begun : .begin ∈ done) (undrawn : .draw ∉ done) :
    (m.hardware.play done).bus.ppu.report = {} ∧
      ∀ s ∈ m.hardware.samples done, Bus.ShowsReport s.address → s.value = 0 := by
  rw [acts_parts] at first
  rcases prefix_cut first with visible | ⟨more,whole,_⟩
  · cases done with
    | nil => cases begun
    | cons a done =>
        obtain ⟨rfl,within⟩ := List.cons_prefix_cons.mp visible
        have passive : ∀ a ∈ done, Hardware.Passive a :=
          fun a among => .inl (List.eq_of_mem_replicate (within.subset among))
        exact Hardware.passive_sampling Report.empty_sampling done passive (m.hardware.act .begin) [] ⟨rfl,nofun⟩
  · rw [whole] at undrawn
    exact absurd (List.mem_append_right _ List.mem_cons_self) undrawn

theorem drawn_raster (m : Machine) :
    (m.hardware.play (m.visibleActs ++ [.draw])).raster =
      m.raster.draw (m.hardware.play m.visibleActs).bus.ppu (m.hardware.play m.visibleActs).bus.cartridge := by
  have before := Hardware.play_raster m.visibleActs m.visibleActs_undrawn m.hardware
  rw [Hardware.play_append]
  exact congrArg (Raster.draw _ _) before

theorem blank_sees (h : Hardware) {more : List Act} (later : more <+: .blank :: m.blankActs)
    (sees : h.bus.ppu.report.Sees h.raster) : (h.play more).bus.ppu.report.Sees (h.play more).raster := by
  have undrawn : .draw ∉ more := fun among => m.blankActs_undrawn (later.subset among)
  rw [Hardware.play_raster more undrawn h]
  rw [Report.sees_iff] at sees ⊢
  have sampling := Report.sprites_sampling h.raster.spriteZeroHit h.raster.spriteOverflow
  cases more with
  | nil => exact sees
  | cons a rest =>
      obtain ⟨rfl,within⟩ := List.cons_prefix_cons.mp later
      have blanked := Hardware.blank_sampling sampling h [] sees
      exact Hardware.passive_sampling sampling rest (fun a among => blankActs_passive (within.subset among)) _ []
        blanked

theorem published_sees (first : done <+: m.config.acts) (published : .publish ∈ done) :
    (m.hardware.play done).bus.ppu.report.Sees (m.hardware.play done).raster ∧
      ∃ before after, done = before ++ .draw :: after ∧
        (m.hardware.play done).raster =
          m.raster.draw (m.hardware.play before).bus.ppu (m.hardware.play before).bus.cartridge := by
  have parts : m.config.acts = m.visibleActs ++ [.draw] ++ .publish :: .blank :: m.blankActs := by
    rw [acts_parts,List.append_assoc,List.singleton_append]
  rw [parts] at first
  rcases prefix_cut first with unpublished | ⟨more,rfl,later⟩
  · have absent : .publish ∉ m.visibleActs ++ [.draw] := by simp [visibleActs]
    exact absurd (unpublished.subset published) absent
  · have undrawn : .draw ∉ .publish :: more := by
      intro among
      rcases List.mem_cons.mp among with same | rest
      · cases same
      · exact m.blankActs_undrawn (later.subset rest)
    let drawn := m.hardware.play (m.visibleActs ++ [.draw])
    have all : m.hardware.play (m.visibleActs ++ [.draw] ++ .publish :: more) = (drawn.act .publish).play more :=
      Hardware.play_append ..
    have shown : (drawn.act .publish).bus.ppu.report.Sees (drawn.act .publish).raster :=
      (Report.sees_iff _ _).mpr ⟨rfl,rfl⟩
    refine ⟨?_,m.visibleActs,.publish :: more,by simp,?_⟩
    · rw [all]
      exact blank_sees (drawn.act .publish) later shown
    · rw [Hardware.play_append,Hardware.play_raster _ undrawn,drawn_raster]

theorem blank_told (succeeds : m.runFrame.failure? = none) :
    m.runFrame.machine.bus.ppu.report.vblank = true ↔
      ∀ s ∈ (m.hardware.play (m.visibleActs ++ [.draw,.publish])).samples (.blank :: m.blankActs),
        ¬ Bus.ShowsReport s.address := by
  have parts : m.actsDone = m.visibleActs ++ [.draw,.publish] ++ .blank :: m.blankActs := by
    rw [m.actsDone_succeeding succeeds,acts_parts,List.append_assoc]
    rfl
  have played : m.runFrame.machine.bus =
      ((m.hardware.play (m.visibleActs ++ [.draw,.publish])).play (.blank :: m.blankActs)).bus := by
    rw [← Hardware.play_append,← parts]
    exact congrArg Hardware.bus m.runFrame_hardware
  have blanked := Hardware.blank_sampling Report.blank_sampling
    (m.hardware.play (m.visibleActs ++ [.draw,.publish])) [] ⟨nofun,fun _ => rfl⟩
  have told := Hardware.passive_sampling Report.blank_sampling m.blankActs (fun a among => blankActs_passive among)
    _ _ blanked
  rw [List.append_nil] at told
  rw [played]
  exact told

-- The report over the cycle of a frame, for every machine and every program. An act that a frame does not get to is not
-- in `actsDone`.
theorem report_told (m : Machine) :
    let h := m.hardware
    m.runFrame.machine.hardware = h.play m.actsDone ∧
      (m.runFrame.failure? = none → m.actsDone = m.visibleActs ++ .draw :: .publish :: .blank :: m.blankActs) ∧
      (∀ done rest, m.actsDone = done ++ rest → .begin ∈ done → .draw ∉ done →
        (h.play done).bus.ppu.report.toByte = 0 ∧
          ∀ s ∈ h.samples done, Bus.ShowsReport s.address → s.value = 0) ∧
      (∀ done rest, m.actsDone = done ++ rest → .publish ∈ done →
        (h.play done).bus.ppu.report.Sees (h.play done).raster ∧
          ∃ before after, done = before ++ .draw :: after ∧
            (h.play done).raster = m.raster.draw (h.play before).bus.ppu (h.play before).bus.cartridge) ∧
      (∀ touches : List Touch, (∀ t ∈ touches, t.sparesSprites = true) → .publish ∈ m.actsDone →
        (m.runFrame.machine.hardware.touchedAll touches).bus.ppu.report.Sees m.runFrame.machine.raster) ∧
      (m.runFrame.failure? = none →
        (m.runFrame.machine.bus.ppu.report.toByte.toNat.testBit 7 = true ↔
          ∀ s ∈ (h.play (m.visibleActs ++ [.draw,.publish])).samples (.blank :: m.blankActs),
            ¬ Bus.ShowsReport s.address)) := by
  intro h
  -- What a frame has done is the front of the list of all its acts, at whatever point it has stopped.
  have starts : ∀ done rest, m.actsDone = done ++ rest → done <+: m.config.acts :=
    fun done rest split => List.IsPrefix.trans ⟨rest,split.symm⟩ m.actsDone_prefix
  refine ⟨m.runFrame_hardware,?_,?_,?_,?_,?_⟩
  · intro succeeds
    rw [m.actsDone_succeeding succeeds,acts_parts]
  · intro done rest split begun undrawn
    obtain ⟨empty,zero⟩ := visible_empty (starts done rest split) begun undrawn
    refine ⟨?_,zero⟩
    rw [empty]
    rfl
  · intro done rest split published
    exact published_sees (starts done rest split) published
  · intro touches spare published
    have sees := (published_sees m.actsDone_prefix published).1
    rw [← m.runFrame_hardware] at sees
    exact Hardware.touchedAll_sees touches spare sees
  · intro succeeds
    rw [Report.toByte_vblank]
    exact blank_told succeeds

-- The report is read before the drawing, and in the blank by a transfer of the page that it lies in.
def polling : Machine where
  cpu := {registers := {pc := 0x8000}}
  bus := .around
    {header := ⟨1,1,0,0⟩,trainer := none,prg := #[0xAD,0x02,0x20,0xA9,0x20,0xEA,0x8D,0x14,0x40],chr := #[0]
     chrWritable := false,ram := none,mapper := .nrom}
  config := {cyclesPerFrame := 4,cyclesPerInstruction := 0}

theorem polling_told :
    polling.runFrame.failure? = none ∧
      (∃ s ∈ polling.hardware.samples polling.visibleActs, Bus.ShowsReport s.address ∧ s.value = 0) ∧
      (polling.runFrame.machine.hardware.touchedAll [.drive (.read 0x2002)]).bus.ppu.report.Sees
        polling.runFrame.machine.raster ∧
      polling.runFrame.machine.bus.ppu.report.toByte.toNat.testBit 7 = false := by
  have succeeds : polling.runFrame.failure? = none := by
    rw [Turn.failure?,(polling.runFrame_skips rfl rfl).1]
    rfl
  obtain ⟨_,all,empty,_,later,told⟩ := report_told polling
  have zero := (empty polling.visibleActs _ (all succeeds) (by decide) (by decide)).2
  have seen : ∃ s ∈ polling.hardware.samples polling.visibleActs, Bus.ShowsReport s.address := by decide +kernel
  have transferred : ∃ s ∈ (polling.hardware.play (polling.visibleActs ++ [.draw,.publish])).samples
      (.blank :: polling.blankActs), Bus.ShowsReport s.address := by decide +kernel
  have published : .publish ∈ polling.actsDone := by
    rw [all succeeds]
    decide
  have sees := later [.drive (.read 0x2002)] (by decide) published
  obtain ⟨early,among,shows⟩ := seen
  obtain ⟨late,amongToo,showsToo⟩ := transferred
  refine ⟨succeeds,⟨early,among,shows,zero early among shows⟩,sees,Bool.eq_false_iff.mpr ?_⟩
  intro still
  exact (told succeeds).mp still late amongToo showsToo

end Machine

end Famicom
