import Famicom.Console.Machine
import Famicom.Proofs.Cpu.Decoding
import Famicom.Proofs.Cpu.Faithful

namespace Famicom

-- What a program works on, apart from what the machine keeps about unknown opcodes.
structure Hardware where
  cpu : Cpu
  bus : Bus
  raster : Raster
  frames : UInt64

def Machine.hardware (m : Machine) : Hardware := ⟨m.cpu,m.bus,m.raster,m.frames⟩

inductive Act where
  | begin
  | instruction
  | draw
  | publish
  | blank
  | count
  deriving DecidableEq, Repr

def frameActs (visible blank : Nat) : List Act :=
  [.begin] ++ List.replicate visible .instruction ++ [.draw,.publish,.blank] ++
    List.replicate blank .instruction ++ [.count]

def Config.acts (c : Config) : List Act :=
  frameActs (Machine.visibleShare c.instructionsPerFrame)
    (c.instructionsPerFrame - Machine.visibleShare c.instructionsPerFrame)

namespace Hardware

def act (h : Hardware) (a : Act) : Hardware :=
  match a with
  | .begin => {h with bus := {h.bus with ppu := h.bus.ppu.beginFrame}}
  | .instruction => {h with cpu := (h.cpu.step h.bus).cpu,bus := (h.cpu.step h.bus).memory}
  | .draw => {h with raster := h.raster.draw h.bus.ppu h.bus.cartridge}
  | .publish =>
    {h with bus := {h.bus with ppu := h.bus.ppu.publishSprites h.raster.spriteZeroHit h.raster.spriteOverflow}}
  | .blank =>
    let bus := {h.bus with ppu := h.bus.ppu.enterVblank}
    if bus.ppu.control.nmiEnabled then {h with cpu := (h.cpu.nmi bus).1,bus := (h.cpu.nmi bus).2}
    else {h with bus := bus}
  | .count => {h with frames := h.frames + 1}

def put (h : Hardware) (cpu : Cpu) (bus : Bus) : Hardware := {h with cpu := cpu,bus := bus}

def play (h : Hardware) (acts : List Act) : Hardware := acts.foldl act h

def fault? (h : Hardware) (a : Act) : Option UnknownOpcode :=
  match a with
  | .instruction =>
    let opcode := (h.bus.read h.cpu.registers.pc).1
    if (decode opcode).isNone then some ⟨opcode,h.cpu.registers.pc⟩ else none
  | _ => none

-- Plays up to the first fault. The act that meets it is done.
def playToFault (h : Hardware) (acts : List Act) : Hardware × Option UnknownOpcode :=
  match acts with
  | [] => (h,none)
  | a :: rest =>
    match h.fault? a with
    | some e => (h.act a,some e)
    | none => (h.act a).playToFault rest

variable {h : Hardware} {acts more : List Act}

theorem play_append (h : Hardware) (acts more : List Act) : h.play (acts ++ more) = (h.play acts).play more :=
  List.foldl_append

theorem playToFault_append (h : Hardware) (acts more : List Act) :
    h.playToFault (acts ++ more) =
      match (h.playToFault acts).2 with
      | some e => ((h.playToFault acts).1,some e)
      | none => (h.playToFault acts).1.playToFault more := by
  induction acts generalizing h with
  | nil => rfl
  | cons a acts ih =>
      cases fault : h.fault? a with
      | some e => simp only [List.cons_append,playToFault,fault]
      | none =>
          simp only [List.cons_append,playToFault,fault]
          exact ih (h.act a)

theorem playToFault_done (h : Hardware) (acts : List Act) :
    ∃ done rest, acts = done ++ rest ∧ (h.playToFault acts).1 = h.play done ∧
      ((h.playToFault acts).2 = none → rest = []) := by
  induction acts generalizing h with
  | nil => exact ⟨[],[],rfl,rfl,fun _ => rfl⟩
  | cons a acts ih =>
      cases fault : h.fault? a with
      | some e =>
          refine ⟨[a],acts,rfl,?_,?_⟩ <;> simp only [playToFault,fault]
          · rfl
          · exact fun none => nomatch none
      | none =>
          obtain ⟨done,rest,rfl,played,all⟩ := ih (h.act a)
          refine ⟨a :: done,rest,rfl,?_,?_⟩ <;> simp only [playToFault,fault]
          · exact played
          · exact all

theorem playToFault_quiet (quiet : (h.playToFault acts).2 = none) : h.playToFault acts = (h.play acts,none) := by
  obtain ⟨done,rest,split,played,all⟩ := h.playToFault_done acts
  have whole : done = acts := by rw [split,all quiet,List.append_nil]
  rw [whole] at played
  exact Prod.ext played quiet

theorem act_instructions (h : Hardware) (a : Act) :
    (h.act a).cpu.instructions = h.cpu.instructions + UInt64.ofNat ([a].count .instruction) := by
  cases a with
  | instruction => exact h.cpu.step_instructions h.bus
  | blank =>
      simp only [act]
      split <;> exact (UInt64.add_zero _).symm
  | begin | draw | publish | count => exact (UInt64.add_zero _).symm

-- Nothing retires instructions but instructions: an interrupt retires none.
theorem play_instructions (h : Hardware) (acts : List Act) :
    (h.play acts).cpu.instructions = h.cpu.instructions + UInt64.ofNat (acts.count .instruction) := by
  induction acts generalizing h with
  | nil => exact (UInt64.add_zero _).symm
  | cons a acts ih =>
      have later := ih (h.act a)
      rw [act_instructions,UInt64.add_assoc,← UInt64.ofNat_add,← List.count_append] at later
      exact later

end Hardware

theorem journal_faithful : Faithful Journal.bus :=
  ⟨fun _ _ => ⟨rfl,rfl⟩,Journal.write_bus,fun _ => ⟨rfl,rfl⟩⟩

namespace Machine

variable {config : Config}

theorem step_fault (h : Hardware) (cpu : Cpu) (journal : Journal) :
    match (h.put cpu journal.bus).fault? .instruction with
    | some e => (cpu.step journal).outcome = .error e
    | none => ∃ spent, (cpu.step journal).outcome = .ok spent := by
  rw [(journal_faithful.step cpu journal).1]
  cases known : decode (journal.bus.read cpu.registers.pc).1 with
  | none =>
      rw [cpu.step_unknown journal.bus known]
      simp only [Hardware.fault?,Hardware.put,known]
      rfl
  | some i =>
      rw [cpu.step_known journal.bus i known]
      simp only [Hardware.fault?,Hardware.put,known]
      exact ⟨_,rfl⟩

theorem step_act (h : Hardware) (cpu : Cpu) (journal : Journal) :
    (h.put cpu journal.bus).act .instruction = h.put (cpu.step journal).cpu (cpu.step journal).memory.bus := by
  obtain ⟨_,registers,memory⟩ := journal_faithful.step cpu journal
  rw [registers,memory]
  rfl

theorem run_plays (h : Hardware) (cpu : Cpu) (journal : Journal) (n : Nat) :
    (h.put cpu journal.bus).playToFault (List.replicate n .instruction) =
      (h.put (cpu.run journal n).cpu (cpu.run journal n).memory.bus,(cpu.run journal n).fault) := by
  induction n generalizing cpu journal with
  | zero => rfl
  | succ n ih =>
      have fault := step_fault h cpu journal
      rw [List.replicate_succ,Hardware.playToFault,Cpu.run,step_act]
      cases stepped : cpu.step journal with
      | mk outcome cpu' journal' =>
          rw [stepped] at fault
          cases meets : (h.put cpu journal.bus).fault? .instruction with
          | some e =>
              rw [meets] at fault
              cases fault
              rfl
          | none =>
              rw [meets] at fault
              obtain ⟨spent,fault⟩ := fault
              cases fault
              exact ih cpu' journal'

theorem run_resumes (h : Hardware) (target : UInt64) (cpu : Cpu) (journal : Journal) :
    let ran := cpu.run journal (target - cpu.instructions).toNat
    (h.put cpu journal.bus).play (List.replicate (target - cpu.instructions).toNat .instruction) =
      (h.put ran.cpu ran.memory.bus).play (List.replicate (target - ran.cpu.instructions).toNat .instruction) := by
  intro ran
  obtain ⟨done,rest,split,played,_⟩ := (h.put cpu journal.bus).playToFault_done
    (List.replicate (target - cpu.instructions).toNat .instruction)
  rw [run_plays] at played
  obtain ⟨total,allDone,allLeft⟩ := List.append_eq_replicate_iff.mp split.symm
  have retired : ran.cpu.instructions = cpu.instructions + UInt64.ofNat done.length := by
    have counted := Hardware.play_instructions (h.put cpu journal.bus) done
    rw [← played,allDone,List.count_replicate_self] at counted
    exact counted
  have left : (target - ran.cpu.instructions).toNat = rest.length := by
    rw [retired,missing_retired] <;> omega
  rw [split,Hardware.play_append,← played,left,← allLeft]

-- Resuming after each fault does all the instructions that are missing to the target.
theorem spendTo_skips (frames : UInt64) (h : Hardware) (skips : config.policy = .skip) (target : UInt64) (cpu : Cpu)
    (journal : Journal) (warned : List UInt8) :
    let spent := spendTo config frames target cpu journal warned
    spent.halted = none ∧
      (h.put cpu journal.bus).play (List.replicate (target - cpu.instructions).toNat .instruction) =
        h.put spent.cpu spent.journal.bus := by
  fun_induction spendTo config frames target cpu journal warned with
  | case1 cpu journal warned ran quiet =>
      have played := run_plays h cpu journal (target - cpu.instructions).toNat
      have all := Hardware.playToFault_quiet ((congrArg Prod.snd played).trans quiet)
      refine ⟨rfl,?_⟩
      rw [all] at played
      exact congrArg Prod.fst played
  | case2 cpu journal warned ran e fault halts =>
      rw [skips] at halts
      cases halts
  | case3 cpu journal warned ran e fault skips first ih =>
      simp only [dite_eq_ite] at ih
      obtain ⟨running,later⟩ := ih
      refine ⟨running,?_⟩
      rw [run_resumes]
      exact later

theorem missing_budget (count : UInt64) (budget : Nat) (small : budget < UInt64.size) :
    (count + UInt64.ofNat budget - count).toNat = budget := by
  have all : count + UInt64.ofNat budget - count = UInt64.ofNat budget := by
    grind
  rw [all]
  exact UInt64.toNat_ofNat_of_lt' small

theorem instructionsPerFrame_lt (c : Config) : c.instructionsPerFrame < UInt64.size := by
  have budget := c.cyclesPerFrame.toNat_lt
  have share := Nat.div_le_self c.cyclesPerFrame.toNat (max 1 c.cyclesPerInstruction.toNat)
  rw [Config.instructionsPerFrame,Nat.max_lt,UInt64.size]
  omega

theorem visibleShare_le (budget : Nat) : visibleShare budget ≤ budget := by
  rw [visibleShare]
  omega

theorem spend_skips (frames : UInt64) (h : Hardware) (skips : config.policy = .skip) (budget : Nat)
    (small : budget < UInt64.size) (cpu : Cpu) (journal : Journal) (warned : List UInt8) :
    let spent := spend config frames budget cpu journal warned
    spent.halted = none ∧
      (h.put cpu journal.bus).play (List.replicate budget .instruction) = h.put spent.cpu spent.journal.bus := by
  have all := spendTo_skips frames h skips (cpu.instructions + UInt64.ofNat budget) cpu journal warned
  rw [missing_budget _ _ small] at all
  exact all

theorem startBlank_plays (h : Hardware) (cpu : Cpu) (journal : Journal) :
    let raster := h.raster.draw journal.bus.ppu journal.bus.cartridge
    let started := startBlank raster cpu journal
    (h.put cpu journal.bus).play [.draw,.publish,.blank] =
      ({h with raster := raster} : Hardware).put started.1 started.2.bus := by
  intro raster started
  let ppu := (journal.bus.ppu.publishSprites raster.spriteZeroHit raster.spriteOverflow).enterVblank
  let blanked : Journal := {journal with bus := {journal.bus with ppu := ppu}}
  obtain ⟨registers,memory⟩ := journal_faithful.interrupt nmiVector cpu blanked
  have begun : started = if ppu.control.nmiEnabled then cpu.nmi blanked else (cpu,blanked) := rfl
  show Hardware.act {h with cpu := cpu,bus := {journal.bus with
    ppu := journal.bus.ppu.publishSprites raster.spriteZeroHit raster.spriteOverflow},raster := raster} .blank = _
  cases enabled : ppu.control.nmiEnabled with
  | true =>
      rw [begun,enabled,if_pos rfl,Cpu.nmi,registers,memory]
      exact if_pos enabled
  | false =>
      rw [begun,enabled,if_neg Bool.false_ne_true]
      exact if_neg (Bool.eq_false_iff.mp enabled)

theorem runFrame_stops (m : Machine) (running : m.halted = none) (stops : m.runVisible.halted.isSome = true) :
    m.runFrame = m.runVisible.into m := by
  simp only [runFrame,running,stops,Option.isSome_none,Bool.false_eq_true,if_false,if_true]

def drawn (m : Machine) : Raster :=
  m.raster.draw m.runVisible.journal.bus.ppu m.runVisible.journal.bus.cartridge

theorem runFrame_goes (m : Machine) (running : m.halted = none) (visible : m.runVisible.halted = none) :
    m.runFrame = (m.runBlank m.drawn m.runVisible).into
      {m with
        raster := m.drawn
        frames := if (m.runBlank m.drawn m.runVisible).halted.isSome then m.frames else m.frames + 1} := by
  simp only [runFrame,running,visible,Option.isSome_none,Bool.false_eq_true,if_false]
  cases blank : (m.runBlank m.drawn m.runVisible).halted <;>
    simp only [drawn] at blank ⊢ <;> rw [blank] <;> rfl

theorem runFrame_config (m : Machine) : m.runFrame.machine.config = m.config := by
  cases running : m.halted with
  | some e => rw [m.halted_frame (by rw [running]; rfl)]
  | none =>
      cases visible : m.runVisible.halted with
      | some e =>
          rw [m.runFrame_stops running (by rw [visible]; rfl)]
          rfl
      | none =>
          rw [m.runFrame_goes running visible]
          rfl

theorem runFrame_skips (m : Machine) (running : m.halted = none) (skips : m.config.policy = .skip) :
    m.runFrame.machine.halted = none ∧ m.runFrame.machine.hardware = m.hardware.play m.config.acts := by
  have small := instructionsPerFrame_lt m.config
  have share := visibleShare_le m.config.instructionsPerFrame
  let started := startBlank m.drawn m.runVisible.cpu m.runVisible.journal
  let drawn : Hardware := {m.hardware with raster := m.drawn}
  have visible : m.runVisible.halted = none ∧
      (m.hardware.play [.begin]).play
          (List.replicate (visibleShare m.config.instructionsPerFrame) .instruction) =
        m.hardware.put m.runVisible.cpu m.runVisible.journal.bus :=
    spend_skips m.frames m.hardware skips _ (by omega) m.cpu _ m.warned
  have begun : (m.hardware.put m.runVisible.cpu m.runVisible.journal.bus).play [.draw,.publish,.blank] =
      drawn.put started.1 started.2.bus := startBlank_plays m.hardware _ _
  have blank : (m.runBlank m.drawn m.runVisible).halted = none ∧
      (drawn.put started.1 started.2.bus).play
          (List.replicate (m.config.instructionsPerFrame - visibleShare m.config.instructionsPerFrame) .instruction) =
        drawn.put (m.runBlank m.drawn m.runVisible).cpu (m.runBlank m.drawn m.runVisible).journal.bus :=
    spend_skips m.frames drawn skips _ (by omega) _ _ _
  rw [m.runFrame_goes running visible.1,blank.1]
  refine ⟨blank.1,?_⟩
  rw [Config.acts,frameActs,Hardware.play_append,Hardware.play_append,Hardware.play_append,Hardware.play_append,
    visible.2,begun,blank.2]
  rfl

def afterFrames (m : Machine) (frames : Nat) : Machine :=
  match frames with
  | 0 => m
  | frames + 1 => m.runFrame.machine.afterFrames frames

theorem afterFrames_skips (m : Machine) (running : m.halted = none) (skips : m.config.policy = .skip) (k : Nat) :
    (m.afterFrames k).halted = none ∧ (m.afterFrames k).config = m.config ∧
      (m.afterFrames k).hardware = m.hardware.play (List.replicate k m.config.acts).flatten := by
  induction k generalizing m with
  | zero => exact ⟨running,rfl,rfl⟩
  | succ k ih =>
      obtain ⟨still,played⟩ := m.runFrame_skips running skips
      have config := m.runFrame_config
      obtain ⟨last,kept,later⟩ := ih m.runFrame.machine still (config ▸ skips)
      refine ⟨last,kept.trans config,?_⟩
      rw [config,played,← Hardware.play_append] at later
      exact later

theorem acts_instructions (c : Config) : c.acts.count .instruction = c.instructionsPerFrame := by
  have share := visibleShare_le c.instructionsPerFrame
  simp only [Config.acts,frameActs,List.count_append,List.count_replicate_self]
  show 0 + visibleShare c.instructionsPerFrame + 0 + _ + 0 = _
  omega

-- A machine that skips unknown opcodes does in a frame what as many single instructions do whose faults are
-- ignored. However many of them fault, each counts as one, and the interrupt counts as none.
theorem skipping_frames (m : Machine) (running : m.halted = none) (skips : m.config.policy = .skip) :
    let b := max 1 (m.config.cyclesPerFrame.toNat / max 1 m.config.cyclesPerInstruction.toNat)
    let v := 241 * b / 262
    v ≤ b ∧ m.runFrame.failure? = none ∧ m.runFrame.machine.hardware = m.hardware.play (frameActs v (b - v)) ∧
      (∀ h : Hardware, (h.act .blank).cpu.instructions = h.cpu.instructions) ∧
      ∀ k, (m.afterFrames k).cpu.instructions.toNat = (m.cpu.instructions.toNat + k * b) % UInt64.size := by
  intro b v
  obtain ⟨still,played⟩ := m.runFrame_skips running skips
  have share : visibleShare b = v := congrArg (· / 262) (Nat.mul_comm b 241)
  have acts : m.config.acts = frameActs v (b - v) := by
    rw [← share]
    rfl
  refine ⟨?_,?_,?_,?_,?_⟩
  · rw [← share]
    exact visibleShare_le b
  · rw [Turn.failure?,still]
    rfl
  · rw [played,acts]
  · intro h
    rw [h.act_instructions]
    exact UInt64.add_zero _
  · intro k
    obtain ⟨_,_,all⟩ := m.afterFrames_skips running skips k
    have counted : (m.afterFrames k).cpu.instructions = m.cpu.instructions + UInt64.ofNat (k * b) := by
      have retired := m.hardware.play_instructions (List.replicate k m.config.acts).flatten
      rw [← all,List.count_flatten,List.map_replicate,List.sum_replicate_nat,acts_instructions] at retired
      exact retired
    rw [counted,UInt64.toNat_add,UInt64.toNat_ofNat',Nat.add_mod_mod]

-- Four instructions a frame, three of them before the drawing. The first one of all has no known opcode.
def stumbling : Machine where
  cpu := {registers := {pc := 0x8000}}
  bus := .around
    {header := ⟨1,1,0,0⟩,trainer := none,prg := #[0x02,0xA9,0x05,0x4C,0x03,0x80],chr := #[0]
     chrWritable := false,ram := none,mapper := .nrom}
  config := {cyclesPerFrame := 4,cyclesPerInstruction := 0}

theorem stumbling_frames :
    stumbling.halted = none ∧ stumbling.config.policy = .skip ∧
      (stumbling.hardware.play [.begin]).fault? .instruction = some ⟨0x02,0x8000⟩ ∧
      stumbling.runFrame.failure? = none ∧
      stumbling.runFrame.machine.hardware = stumbling.hardware.play (frameActs 3 1) ∧
      (stumbling.afterFrames 3).cpu.instructions.toNat = 12 := by
  have running : stumbling.halted = none := rfl
  have skips : stumbling.config.policy = .skip := rfl
  obtain ⟨_,succeeds,played,_,retired⟩ := skipping_frames stumbling running skips
  exact ⟨running,skips,by decide,succeeds,played,retired 3⟩

end Machine
end Famicom
