import Famicom.Proofs.Console.Frames

namespace Famicom

open Hardware

namespace Hardware

variable {h h' : Hardware} {acts : List Act} {e : UnknownOpcode}

def Quiet (h : Hardware) (acts : List Act) : Prop :=
  ∀ before a rest, acts = before ++ a :: rest → (h.play before).fault? a = none

theorem playToFault_continues (quiet : h.playToFault acts = (h',none)) (more : List Act) :
    h.playToFault (acts ++ more) = h'.playToFault more := by
  rw [playToFault_append,quiet]

theorem playToFault_stops (stops : h.playToFault acts = (h',some e)) (more : List Act) :
    h.playToFault (acts ++ more) = (h',some e) := by
  rw [playToFault_append,stops]

theorem Quiet.plays (quiet : h.Quiet acts) : h.playToFault acts = (h.play acts,none) := by
  apply playToFault_quiet
  induction acts generalizing h with
  | nil => rfl
  | cons a acts ih =>
      have first : h.fault? a = none := quiet [] a acts rfl
      simp only [playToFault,first]
      apply ih
      intro before b rest split
      exact quiet (a :: before) b rest (congrArg (a :: ·) split)

theorem Quiet.meets (quiet : h.Quiet acts) (fault : (h.play acts).fault? .instruction = some e) (rest : List Act) :
    h.playToFault (acts ++ .instruction :: rest) = ((h.play acts).act .instruction,some e) := by
  rw [playToFault_continues quiet.plays,playToFault,fault]

-- The instruction at a fault moves the program counter past the opcode and changes no other register.
theorem fault_found (met : h.fault? .instruction = some e) :
    e = ⟨(h.bus.read h.cpu.registers.pc).1,h.cpu.registers.pc⟩ ∧ decode e.opcode = none ∧
      (h.act .instruction).cpu.registers = {h.cpu.registers with pc := e.pc + 1} := by
  simp only [fault?] at met
  split at met
  · rename_i unknown
    cases met
    have unknown : decode (AddressSpace.read h.bus h.cpu.registers.pc).1 = none := Option.isNone_iff_eq_none.mp unknown
    refine ⟨rfl,unknown,?_⟩
    rw [act,h.cpu.step_unknown h.bus unknown]
  · cases met

end Hardware

namespace Machine

def under (m : Machine) (policy : OpcodePolicy) : Machine := {m with config := {m.config with policy := policy}}

inductive Visit where
  | frame
  | bus (change : Bus → Bus)

def visit (m : Machine) (v : Visit) : Machine :=
  match v with
  | .frame => m.runFrame.machine
  | .bus change => {m with bus := change m.bus}

def visits (m : Machine) (all : List Visit) : Machine := all.foldl visit m

variable {config : Config}

theorem spend_halts (frames : UInt64) (h : Hardware) (halts : config.policy = .halt) (budget : Nat)
    (small : budget < UInt64.size) (cpu : Cpu) (journal : Journal) (warned : List UInt8) :
    let spent := spend config frames budget cpu journal warned
    (h.put cpu journal.bus).playToFault (List.replicate budget .instruction) =
      (h.put spent.cpu spent.journal.bus,spent.halted) := by
  have missing := missing_budget cpu.instructions budget small
  rw [run_plays,spend]
  cases fault : (cpu.run journal budget).fault with
  | none =>
      rw [spendTo_quiet _ _ _ _ _ _ (by rw [missing]; exact fault),missing]
  | some e =>
      rw [spendTo_halts _ _ _ _ _ _ e halts (by rw [missing]; exact fault),missing]
      rfl

theorem spend_unhalted (frames : UInt64) (halts : config.policy = .halt) (budget : Nat) (cpu : Cpu) (journal : Journal)
    (warned : List UInt8) (unhalted : (spend config frames budget cpu journal warned).halted = none)
    (other : Config) :
    spend other frames budget cpu journal warned = spend config frames budget cpu journal warned := by
  rw [spend] at unhalted
  rw [spend,spend]
  cases fault : (cpu.run journal (cpu.instructions + UInt64.ofNat budget - cpu.instructions).toNat).fault with
  | none => rw [spendTo_quiet _ _ _ _ _ _ fault,spendTo_quiet _ _ _ _ _ _ fault]
  | some e =>
      rw [spendTo_halts _ _ _ _ _ _ e halts fault] at unhalted
      cases unhalted

theorem runFrame_halts (m : Machine) (running : m.halted = none) (halts : m.config.policy = .halt) :
    m.hardware.playToFault m.config.acts = (m.runFrame.machine.hardware,m.runFrame.machine.halted) := by
  have small := instructionsPerFrame_lt m.config
  have share := visibleShare_le m.config.instructionsPerFrame
  let started := startBlank m.drawn m.runVisible.cpu m.runVisible.journal
  let drawn : Hardware := {m.hardware with raster := m.drawn}
  have visible : m.hardware.playToFault
      ([.begin] ++ List.replicate (visibleShare m.config.instructionsPerFrame) .instruction) =
        (m.hardware.put m.runVisible.cpu m.runVisible.journal.bus,m.runVisible.halted) :=
    spend_halts m.frames m.hardware halts (visibleShare m.config.instructionsPerFrame) (by omega) m.cpu
      {bus := {m.bus with ppu := m.bus.ppu.beginFrame}} m.warned
  rw [Config.acts,frameActs]
  cases met : m.runVisible.halted with
  -- A fault before the drawing leaves out the drawing and all that follows.
  | some e =>
      rw [met] at visible
      rw [m.runFrame_stops running (by rw [met]; rfl)]
      rw [playToFault_stops (playToFault_stops (playToFault_stops visible _) _) _]
      exact Prod.ext rfl met.symm
  | none =>
      rw [met] at visible
      have begun : (m.hardware.put m.runVisible.cpu m.runVisible.journal.bus).playToFault [.draw,.publish,.blank] =
          (drawn.put started.1 started.2.bus,none) :=
        Prod.ext (startBlank_plays m.hardware m.runVisible.cpu m.runVisible.journal) rfl
      have blank : (drawn.put started.1 started.2.bus).playToFault (List.replicate
          (m.config.instructionsPerFrame - visibleShare m.config.instructionsPerFrame) .instruction) =
            (drawn.put (m.runBlank m.drawn m.runVisible).cpu (m.runBlank m.drawn m.runVisible).journal.bus,
              (m.runBlank m.drawn m.runVisible).halted) :=
        spend_halts m.frames drawn halts _ (by omega) _ _ _
      have upTo := (playToFault_continues visible [.draw,.publish,.blank]).trans begun
      have all := (playToFault_continues upTo _).trans blank
      rw [m.runFrame_goes running met]
      -- Only the count is left to be done, and a fault in the blank leaves it out.
      cases last : (m.runBlank m.drawn m.runVisible).halted with
      | some e =>
          rw [last] at all
          rw [playToFault_stops all]
          exact Prod.ext rfl last.symm
      | none =>
          rw [last] at all
          rw [playToFault_continues all]
          exact Prod.ext rfl last.symm

theorem runFrame_unhalted (m : Machine) (running : m.halted = none)
    (unhalted : (m.under .halt).runFrame.machine.halted = none) :
    (m.under .skip).runFrame.machine = (m.under .halt).runFrame.machine.under .skip := by
  have visible : (m.under .halt).runVisible.halted = none := by
    cases met : (m.under .halt).runVisible.halted with
    | none => rfl
    | some e =>
        rw [(m.under .halt).runFrame_stops running (by rw [met]; rfl)] at unhalted
        exact met.symm.trans unhalted
  rw [(m.under .halt).runFrame_goes running visible] at unhalted ⊢
  have sameVisible : (m.under .skip).runVisible = (m.under .halt).runVisible :=
    spend_unhalted _ rfl _ _ _ _ visible _
  have sameDrawn : (m.under .skip).drawn = (m.under .halt).drawn := by
    rw [drawn,drawn,sameVisible]
    rfl
  have sameBlank : (m.under .skip).runBlank (m.under .skip).drawn (m.under .skip).runVisible =
      (m.under .halt).runBlank (m.under .halt).drawn (m.under .halt).runVisible := by
    rw [sameVisible,sameDrawn]
    exact spend_unhalted _ rfl _ _ _ _ unhalted _
  rw [(m.under .skip).runFrame_goes running (by rw [sameVisible]; exact visible),sameBlank,sameDrawn]
  rfl

theorem afterFrames_halted (m : Machine) (stopped : m.halted.isSome = true) (k : Nat) : m.afterFrames k = m := by
  induction k with
  | zero => rfl
  | succ k ih => rw [afterFrames,m.halted_frame stopped,ih]

theorem afterFrames_succ (m : Machine) (k : Nat) : m.afterFrames (k + 1) = (m.afterFrames k).runFrame.machine := by
  induction k generalizing m with
  | zero => rfl
  | succ k ih => exact ih m.runFrame.machine

theorem afterFrames_config (m : Machine) (k : Nat) : (m.afterFrames k).config = m.config := by
  induction k generalizing m with
  | zero => rfl
  | succ k ih => exact (ih m.runFrame.machine).trans m.runFrame_config

theorem afterFrames_halts (m : Machine) (running : m.halted = none) (halts : m.config.policy = .halt) (k : Nat) :
    m.hardware.playToFault (List.replicate k m.config.acts).flatten =
      ((m.afterFrames k).hardware,(m.afterFrames k).halted) := by
  induction k generalizing m with
  | zero => exact Prod.ext rfl running.symm
  | succ k ih =>
      have first := m.runFrame_halts running halts
      rw [List.replicate_succ,List.flatten_cons,afterFrames]
      cases met : m.runFrame.machine.halted with
      | some e =>
          rw [met] at first
          rw [playToFault_stops first,afterFrames_halted _ (by rw [met]; rfl),met]
      | none =>
          rw [met] at first
          have later := ih m.runFrame.machine met (by rw [runFrame_config]; exact halts)
          rw [playToFault_continues first,← later,runFrame_config]

-- A frame fails when the machine is halted after it, and then all later ones do.
theorem afterFrames_failure (m : Machine) (k : Nat) :
    (m.afterFrames k).runFrame.failure? = (m.afterFrames (k + 1)).halted.map .halted := by
  rw [Turn.failure?,afterFrames_succ]

theorem afterFrames_running (m : Machine) (k j : Nat) (earlier : j ≤ k) (running : (m.afterFrames k).halted = none) :
    (m.afterFrames j).halted = none := by
  induction k with
  | zero =>
      rw [Nat.le_zero.mp earlier]
      exact running
  | succ k ih =>
      rcases Nat.le_succ_iff.mp earlier with before | last
      · apply ih before
        cases stopped : (m.afterFrames k).halted with
        | none => rfl
        | some e =>
            rw [afterFrames_succ,halted_frame _ (by rw [stopped]; rfl),stopped] at running
            cases running
      · rw [last]
        exact running

theorem under_self (m : Machine) (policy : OpcodePolicy) (same : m.config.policy = policy) : m.under policy = m := by
  obtain ⟨cpu,bus,raster,⟨cycles,average,kept⟩,frames,halted,warned⟩ := m
  cases same
  rfl

theorem afterFrames_unhalted (m : Machine) (running : m.halted = none) (k : Nat)
    (unhalted : ((m.under .halt).afterFrames k).halted = none) :
    (m.under .skip).afterFrames k = ((m.under .halt).afterFrames k).under .skip := by
  induction k generalizing m with
  | zero => rfl
  | succ k ih =>
      have next : (m.under .halt).runFrame.machine.halted = none :=
        (m.under .halt).afterFrames_running (k + 1) 1 (Nat.succ_le_succ (Nat.zero_le k)) unhalted
      have same := (m.under .halt).runFrame.machine.under_self .halt (congrArg Config.policy (runFrame_config _))
      rw [afterFrames,afterFrames,m.runFrame_unhalted running next]
      rw [afterFrames,← same] at unhalted
      have later := ih (m.under .halt).runFrame.machine next unhalted
      rw [same] at later
      exact later

theorem runFrame_frames (m : Machine) (running : m.halted = none) :
    m.runFrame.machine.frames = if m.runFrame.machine.halted.isSome then m.frames else m.frames + 1 := by
  cases visible : m.runVisible.halted with
  | some e =>
      rw [m.runFrame_stops running (by rw [visible]; rfl)]
      exact (if_pos (by rw [Spent.into,visible]; rfl)).symm
  | none =>
      rw [m.runFrame_goes running visible]
      rfl

theorem afterFrames_outcomes (m : Machine) (running : m.halted = none) (k : Nat) (e : UnknownOpcode)
    (stopped : (m.afterFrames k).halted = some e) :
    ∃ done < k, (∀ j < done, (m.afterFrames j).runFrame.failure? = none) ∧
      (∀ j, done ≤ j → (m.afterFrames j).runFrame.failure? = some (.halted e)) ∧
      (m.afterFrames k).frames = m.frames + UInt64.ofNat done := by
  induction k generalizing m with
  | zero =>
      rw [afterFrames,running] at stopped
      cases stopped
  | succ k ih =>
      -- By induction on the frames, from the front: the later ones start from what the first one has left.
      have counted := m.runFrame_frames running
      cases met : m.runFrame.machine.halted with
      | some e' =>
          have stays := afterFrames_halted m.runFrame.machine (by rw [met]; rfl)
          have same : e' = e := by
            rw [afterFrames,stays,met] at stopped
            exact Option.some.inj stopped
          rw [met] at counted
          refine ⟨0,Nat.succ_pos k,fun j none => absurd none (Nat.not_lt_zero j),?_,?_⟩
          · intro j _
            rw [afterFrames_failure,afterFrames,stays,met,same]
            rfl
          · rw [afterFrames,stays,counted]
            exact (UInt64.add_zero _).symm
      | none =>
          rw [met] at counted
          obtain ⟨done,within,succeed,fail,total⟩ := ih m.runFrame.machine met stopped
          refine ⟨done + 1,Nat.succ_lt_succ within,?_,?_,?_⟩
          · intro j before
            cases j with
            | zero =>
                rw [afterFrames,Turn.failure?,met]
                rfl
            | succ j => exact succeed j (Nat.lt_of_succ_lt_succ before)
          · intro j after
            cases j with
            | zero => exact absurd after (Nat.not_succ_le_zero done)
            | succ j => exact fail j (Nat.le_of_succ_le_succ after)
          · rw [afterFrames,total,counted,UInt64.ofNat_add]
            grind

theorem visits_halted (m : Machine) (stopped : m.halted.isSome = true) (all : List Visit) :
    m.visits all = {m with bus := (m.visits all).bus} := by
  induction all generalizing m with
  | nil => rfl
  | cons v all ih =>
      cases v with
      | frame =>
          have same : m.visit .frame = m := congrArg Turn.machine (m.halted_frame stopped)
          rw [visits,List.foldl_cons,same]
          exact ih m stopped
      | bus change => exact ih {m with bus := change m.bus} stopped

structure HaltsAt (m : Machine) (k : Nat) (before rest : List Act) (e : UnknownOpcode) : Prop where
  found : e = ⟨((m.hardware.play before).bus.read (m.hardware.play before).cpu.registers.pc).1,
    (m.hardware.play before).cpu.registers.pc⟩ ∧ decode e.opcode = none
  hardware : ((m.under .halt).afterFrames k).hardware = (m.hardware.play before).act .instruction
  next : ((m.under .halt).afterFrames k).cpu.registers.pc = e.pc + 1
  -- From there on the machine that skips has done the other acts.
  skipped : ((m.under .skip).afterFrames k).hardware = ((m.under .halt).afterFrames k).hardware.play rest
  outcomes : ∃ done < k, (∀ j < done, ((m.under .halt).afterFrames j).runFrame.failure? = none) ∧
    (∀ j, done ≤ j → ((m.under .halt).afterFrames j).runFrame.failure? = some (.halted e)) ∧
    ((m.under .halt).afterFrames k).frames = m.frames + UInt64.ofNat done
  -- Whatever the host does but a reset, frames fail in the same way and change nothing.
  stays : ∀ all, let last := ((m.under .halt).afterFrames k).visits all
    last = {(m.under .halt).afterFrames k with bus := last.bus} ∧ last.runFrame = ⟨last,[]⟩ ∧
      last.runFrame.failure? = some (.halted e)
  -- A reset makes of it what a reset makes of the machine that skips, so that it runs again.
  restarts : ∀ all, let last := ((m.under .halt).afterFrames k).visits all
    last.reset.machine.halted = none ∧ last.reset.machine = (last.under .skip).reset.machine.under .halt

theorem halted_stays (m : Machine) (e : UnknownOpcode) (stopped : m.halted = some e) (all : List Visit) :
    m.visits all = {m with bus := (m.visits all).bus} ∧ (m.visits all).runFrame = ⟨m.visits all,[]⟩ ∧
      (m.visits all).runFrame.failure? = some (.halted e) := by
  have same := m.visits_halted (by rw [stopped]; rfl) all
  have still : (m.visits all).halted = some e := by
    rw [same]
    exact stopped
  have nothing := (m.visits all).halted_frame (by rw [still]; rfl)
  refine ⟨same,nothing,?_⟩
  rw [nothing,Turn.failure?,still]
  rfl

-- Machines that differ in their policy do the same until an opcode without an instruction is met. There the one
-- that halts has done exactly the acts up to it, and it stays so until it is reset.
theorem halting_frames (m : Machine) (running : m.halted = none) (k : Nat) :
    (m.hardware.Quiet (List.replicate k m.config.acts).flatten →
      (m.under .skip).afterFrames k = ((m.under .halt).afterFrames k).under .skip ∧
        ∀ j < k, ((m.under .halt).afterFrames j).runFrame.failure? = none) ∧
    ∀ before rest e, (List.replicate k m.config.acts).flatten = before ++ .instruction :: rest →
      m.hardware.Quiet before → (m.hardware.play before).fault? .instruction = some e →
        m.HaltsAt k before rest e := by
  have played : m.hardware.playToFault (List.replicate k m.config.acts).flatten =
      (((m.under .halt).afterFrames k).hardware,((m.under .halt).afterFrames k).halted) :=
    (m.under .halt).afterFrames_halts running rfl k
  constructor
  · intro quiet
    rw [quiet.plays] at played
    have unhalted : ((m.under .halt).afterFrames k).halted = none := (congrArg Prod.snd played).symm
    refine ⟨m.afterFrames_unhalted running k unhalted,?_⟩
    intro j within
    rw [afterFrames_failure,(m.under .halt).afterFrames_running k (j + 1) within unhalted]
    rfl
  · intro before rest e split quiet met
    -- The acts up to the fault are quiet, so that the fault is where the frames have ended.
    rw [split,quiet.meets met] at played
    have hardware : ((m.under .halt).afterFrames k).hardware = (m.hardware.play before).act .instruction :=
      (congrArg Prod.fst played).symm
    have stopped : ((m.under .halt).afterFrames k).halted = some e := (congrArg Prod.snd played).symm
    obtain ⟨found,unknown,registers⟩ := fault_found met
    have skipping : ((m.under .skip).afterFrames k).hardware =
        m.hardware.play (List.replicate k m.config.acts).flatten :=
      ((m.under .skip).afterFrames_skips running rfl k).2.2
    refine ⟨⟨found,unknown⟩,hardware,?_,?_,?_,?_,?_⟩
    · have counter := congrArg (fun h => h.cpu.registers.pc) hardware
      rw [registers] at counter
      exact counter
    · rw [skipping,split,play_append,hardware]
      rfl
    · exact (m.under .halt).afterFrames_outcomes running k e stopped
    · exact halted_stays _ e stopped
    · intro all last
      refine ⟨rfl,?_⟩
      have same := (halted_stays _ e stopped all).1
      -- Neither a frame nor the host changes the policy.
      have halts : last.config.policy = .halt := by
        have config := congrArg (fun m => m.config.policy) same
        rw [afterFrames_config] at config
        exact config
      have whole := last.under_self .halt halts
      exact congrArg (fun m => m.reset.machine) whole.symm

-- The first act after the start of the frame meets the fault, and the frame would go on to its drawing.
theorem stumbling_halts :
    stumbling.halted = none ∧
      stumbling.HaltsAt 1 [.begin] (List.replicate 2 .instruction ++ [.draw,.publish,.blank,.instruction,.count])
        ⟨0x02,0x8000⟩ := by
  have running : stumbling.halted = none := rfl
  have quiet : stumbling.hardware.Quiet [.begin] := by
    intro before a rest split
    cases before with
    | nil =>
        cases split
        rfl
    | cons b before =>
        have short := congrArg List.length split
        simp only [List.length_append,List.length_cons,List.length_nil] at short
        omega
  exact ⟨running,(halting_frames stumbling running 1).2 [.begin] _ ⟨0x02,0x8000⟩ (by decide) quiet (by decide)⟩

end Machine
end Famicom
