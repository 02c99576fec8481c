import Famicom.Proofs.Console.PowerCycle
import Famicom.Proofs.Cpu.Operations

namespace Famicom

namespace Journal

def onto (old : List Record) (j : Journal) : Journal := {j with records := j.records ++ old}

theorem onto_faithful (old : List Record) : Faithful (onto old) where
  read _ _ := ⟨rfl,rfl⟩
  write j a v := by
    show (j.write a v).onto old = (j.onto old).write a v
    simp only [write,onto]
    split
    · split <;> rfl
    · rfl
  stall _ := ⟨rfl,rfl⟩

end Journal

namespace Hardware

def actRecords (h : Hardware) (a : Act) : List Record :=
  match a with
  | .instruction => (h.cpu.step (⟨h.bus,[]⟩ : Journal)).memory.records.reverse
  | .blank =>
    let bus := {h.bus with ppu := h.bus.ppu.enterVblank}
    if bus.ppu.control.nmiEnabled then (h.cpu.nmi (⟨bus,[]⟩ : Journal)).2.records.reverse else []
  | .begin | .draw | .publish | .count => []

def moveRecords (h : Hardware) (m : Move) : List Record :=
  match m with
  | .act a => h.actRecords a
  | .touch t => h.records t
  | .reset => [.reset h.reset.cpu.registers.pc]

def met? (h : Hardware) (m : Move) : Option UnknownOpcode :=
  match m with
  | .act a => h.fault? a
  | .touch _ | .reset => none

def faults (h : Hardware) (moves : List Move) : List UnknownOpcode :=
  match moves with
  | [] => []
  | m :: rest => (h.met? m).toList ++ (h.move m).faults rest

theorem faults_append (h : Hardware) (moves more : List Move) :
    h.faults (moves ++ more) = h.faults moves ++ (h.after moves).faults more := by
  induction moves generalizing h with
  | nil => rfl
  | cons m moves ih =>
      rw [List.cons_append,faults,faults,ih,List.append_assoc]
      rfl

end Hardware

-- The hardware, with the opcodes that were warned about and all records, oldest first.
structure Logbook where
  hardware : Hardware
  warned : List UInt8 := []
  records : List Record := []

namespace Logbook

def remembered (warned : List UInt8) (m : Move) : List UInt8 :=
  match m with
  | .act _ | .touch _ => warned
  | .reset => []

-- An opcode that is stepped over makes one record, and it is warned about once.
def move (l : Logbook) (m : Move) : Logbook :=
  match l.hardware.met? m with
  | some e =>
    ⟨l.hardware.move m,l.warned.insert e.opcode,l.records ++ [.skipped e (!l.warned.contains e.opcode)]⟩
  | none => ⟨l.hardware.move m,remembered l.warned m,l.records ++ l.hardware.moveRecords m⟩

def after (l : Logbook) (moves : List Move) : Logbook := moves.foldl move l

theorem after_append (l : Logbook) (moves more : List Move) : l.after (moves ++ more) = (l.after moves).after more :=
  List.foldl_append

end Logbook

namespace Machine

open Hardware

variable {config : Config}

def logged (past : List Record) (h : Hardware) (cpu : Cpu) (journal : Journal) (warned : List UInt8) : Logbook :=
  ⟨h.put cpu journal.bus,warned,past ++ journal.records.reverse⟩

def skipping (journal : Journal) (warned : List UInt8) (e : UnknownOpcode) : Journal :=
  journal.note (.skipped e (!warned.contains e.opcode))

-- An opcode without an instruction is all that its step reads, and nothing is written.
theorem fault_records {cpu : Cpu} {journal : Journal} {e : UnknownOpcode}
    (fault : (cpu.step journal).outcome = .error e) : (cpu.step journal).memory.records = journal.records := by
  cases decoded : decode (AddressSpace.read journal cpu.registers.pc).1 with
  | none =>
      rw [cpu.step_unknown journal decoded]
      rfl
  | some i =>
      rw [cpu.step_known journal i decoded] at fault
      cases fault

theorem step_records (cpu : Cpu) (journal : Journal) :
    (cpu.step journal).memory.records = (cpu.step (⟨journal.bus,[]⟩ : Journal)).memory.records ++ journal.records :=
  congrArg Journal.records ((Journal.onto_faithful journal.records).step cpu ⟨journal.bus,[]⟩).2.2.symm

theorem step_logged (past : List Record) (h : Hardware) (cpu : Cpu) (journal : Journal) (warned : List UInt8) :
    (logged past h cpu journal warned).move (.act .instruction) =
      match (cpu.step journal).outcome with
      | .error e => logged past h (cpu.step journal).cpu (skipping (cpu.step journal).memory warned e)
          (warned.insert e.opcode)
      | .ok _ => logged past h (cpu.step journal).cpu (cpu.step journal).memory warned := by
  have fault := step_fault h cpu journal
  have moved : (h.put cpu journal.bus).move (.act .instruction) =
      h.put (cpu.step journal).cpu (cpu.step journal).memory.bus := step_act h cpu journal
  have met : (logged past h cpu journal warned).hardware.met? (.act .instruction) =
      (h.put cpu journal.bus).fault? .instruction := rfl
  cases meets : (h.put cpu journal.bus).fault? .instruction with
  | some e =>
      rw [meets] at fault met
      rw [Logbook.move,met]
      simp only [fault,logged,skipping,Journal.note,moved,fault_records fault,List.reverse_cons,List.append_assoc]
  | none =>
      rw [meets] at fault met
      obtain ⟨spent,fault⟩ := fault
      have noted : (h.put cpu journal.bus).moveRecords (.act .instruction) =
          (cpu.step (⟨journal.bus,[]⟩ : Journal)).memory.records.reverse := rfl
      rw [Logbook.move,met]
      simp only [fault,logged,moved,noted,step_records cpu journal,List.reverse_append,List.append_assoc]
      rfl

variable (past : List Record) (h : Hardware)

-- A run logs its instructions up to the first fault, which it leaves to be reported.
theorem run_logged (n : Nat) : ∀ (cpu : Cpu) (journal : Journal) (warned : List UInt8),
    let ran := cpu.run journal n
    ∃ done ≤ n, ran.cpu.instructions = cpu.instructions + UInt64.ofNat done ∧ (ran.fault = none → done = n) ∧
      (logged past h cpu journal warned).after (List.replicate done (.act .instruction)) =
        match ran.fault with
        | some e => logged past h ran.cpu (skipping ran.memory warned e) (warned.insert e.opcode)
        | none => logged past h ran.cpu ran.memory warned := by
  induction n with
  | zero => exact fun cpu _ _ => ⟨0,Nat.le_refl 0,(UInt64.add_zero _).symm,fun _ => rfl,rfl⟩
  | succ n ih =>
      intro cpu journal warned ran
      have first := step_logged past h cpu journal warned
      have retired := cpu.step_instructions journal
      cases outcome : (cpu.step journal).outcome with
      | error e =>
          have stopped : ran = ⟨some e,(cpu.step journal).cpu,(cpu.step journal).memory⟩ := by
            simp only [ran,Cpu.run_succ,outcome]
          rw [outcome] at first
          -- The instruction at the fault counts among those done.
          refine ⟨1,Nat.succ_le_succ (Nat.zero_le n),?_,?_,?_⟩
          · rw [stopped]
            exact retired
          · rw [stopped]
            exact fun none => nomatch none
          · rw [stopped]
            exact first
      | ok spent =>
          have goes : ran = (cpu.step journal).cpu.run (cpu.step journal).memory n := by
            simp only [ran,Cpu.run_succ,outcome]
          rw [outcome] at first
          obtain ⟨done,within,total,all,later⟩ := ih (cpu.step journal).cpu (cpu.step journal).memory warned
          refine ⟨done + 1,Nat.succ_le_succ within,?_,?_,?_⟩
          · rw [goes,total,retired,UInt64.ofNat_add]
            grind
          · rw [goes]
            exact fun none => congrArg (· + 1) (all none)
          · rw [goes,List.replicate_succ,Logbook.after,List.foldl_cons,first]
            exact later

theorem warned_insert (warned : List UInt8) (opcode : UInt8) :
    (if !warned.contains opcode then opcode :: warned else warned) = warned.insert opcode := by
  rw [List.insert]
  cases known : warned.contains opcode <;> simp_all

theorem spendTo_logged (skips : config.policy = .skip) (frames target : UInt64) (cpu : Cpu) (journal : Journal)
    (warned : List UInt8) :
    let spent := spendTo config frames target cpu journal warned
    (logged past h cpu journal warned).after
        (List.replicate (target - cpu.instructions).toNat (.act .instruction)) =
      logged past h spent.cpu spent.journal spent.warned := by
  fun_induction spendTo config frames target cpu journal warned with
  | case1 cpu journal warned ran quiet =>
      obtain ⟨done,_,_,all,log⟩ := run_logged past h (target - cpu.instructions).toNat cpu journal warned
      rw [all quiet] at log
      rw [log,quiet]
  | case2 cpu journal warned ran e fault halts =>
      rw [skips] at halts
      cases halts
  | case3 cpu journal warned ran e fault skips first ih =>
      obtain ⟨done,within,retired,_,log⟩ := run_logged past h (target - cpu.instructions).toNat cpu journal warned
      have missing : (target - ran.cpu.instructions).toNat = (target - cpu.instructions).toNat - done := by
        rw [retired,missing_retired _ _ _ within]
      have split : (target - cpu.instructions).toNat = done + (target - ran.cpu.instructions).toNat := by omega
      simp only [dite_eq_ite] at ih
      rw [split,← List.replicate_append_replicate,Logbook.after_append,log,fault]
      simp only [first,warned_insert] at ih ⊢
      exact ih

theorem spend_logged (skips : config.policy = .skip) (frames : UInt64) (budget : Nat) (small : budget < UInt64.size)
    (cpu : Cpu) (journal : Journal) (warned : List UInt8) :
    let spent := spend config frames budget cpu journal warned
    (logged past h cpu journal warned).after (List.replicate budget (.act .instruction)) =
      logged past h spent.cpu spent.journal spent.warned := by
  have all := spendTo_logged past h skips frames (cpu.instructions + UInt64.ofNat budget) cpu journal warned
  rw [missing_budget _ _ small] at all
  exact all

theorem startBlank_onto (raster : Raster) (cpu : Cpu) (journal : Journal) :
    (startBlank raster cpu journal).2.records =
      (startBlank raster cpu (⟨journal.bus,[]⟩ : Journal)).2.records ++ journal.records := by
  simp only [startBlank]
  split
  · exact congrArg Journal.records ((Journal.onto_faithful journal.records).interrupt nmiVector cpu ⟨_,[]⟩).2.symm
  · rfl

theorem startBlank_logged (cpu : Cpu) (journal : Journal) (warned : List UInt8) :
    let raster := h.raster.draw journal.bus.ppu journal.bus.cartridge
    let started := startBlank raster cpu journal
    (logged past h cpu journal warned).after [.act .draw,.act .publish,.act .blank] =
      logged past {h with raster := raster} started.1 started.2 warned := by
  intro raster started
  let published := (h.put cpu journal.bus).play [.draw,.publish]
  have noted : published.actRecords .blank = (startBlank raster cpu (⟨journal.bus,[]⟩ : Journal)).2.records.reverse := by
    simp only [startBlank]
    rw [apply_ite (fun ran : Cpu × Journal => ran.2.records.reverse)]
    rfl
  have moved : (logged past h cpu journal warned).after [.act .draw,.act .publish,.act .blank] =
      ⟨(h.put cpu journal.bus).play [.draw,.publish,.blank],warned,
        past ++ journal.records.reverse ++ [] ++ [] ++ published.actRecords .blank⟩ := rfl
  rw [moved,startBlank_plays,List.append_nil,List.append_nil,List.append_assoc,noted,← List.reverse_append,
    ← startBlank_onto]
  rfl

theorem runFrame_logged (m : Machine) (running : m.halted = none) (skips : m.config.policy = .skip) :
    (⟨m.hardware,m.warned,past⟩ : Logbook).after (m.config.acts.map .act) =
      ⟨m.runFrame.machine.hardware,m.runFrame.machine.warned,past ++ m.runFrame.records⟩ := by
  have small := instructionsPerFrame_lt m.config
  have share := visibleShare_le m.config.instructionsPerFrame
  let started := startBlank m.drawn m.runVisible.cpu m.runVisible.journal
  let drawn : Hardware := {m.hardware with raster := m.drawn}
  let begun : Journal := {bus := {m.bus with ppu := m.bus.ppu.beginFrame}}
  -- The acts of the frame are cut where its parts end, and each part is logged from the state it starts in.
  have begins : (⟨m.hardware,m.warned,past⟩ : Logbook).after [.act .begin] =
      logged past m.hardware m.cpu begun m.warned := rfl
  have visible : (logged past m.hardware m.cpu begun m.warned).after
      (List.replicate (visibleShare m.config.instructionsPerFrame) (.act .instruction)) =
        logged past m.hardware m.runVisible.cpu m.runVisible.journal m.runVisible.warned :=
    spend_logged past m.hardware skips m.frames _ (by omega) m.cpu begun m.warned
  have blanks : (logged past m.hardware m.runVisible.cpu m.runVisible.journal m.runVisible.warned).after
      [.act .draw,.act .publish,.act .blank] = logged past drawn started.1 started.2 m.runVisible.warned :=
    startBlank_logged past m.hardware _ _ _
  let blank := m.runBlank m.drawn m.runVisible
  have rest : (logged past drawn started.1 started.2 m.runVisible.warned).after
      (List.replicate (m.config.instructionsPerFrame - visibleShare m.config.instructionsPerFrame)
        (.act .instruction)) = logged past drawn blank.cpu blank.journal blank.warned :=
    spend_logged past drawn skips m.frames _ (by omega) _ _ _
  have unstopped : m.runVisible.halted = none := (spend_skips m.frames m.hardware skips _ (by omega) m.cpu _ m.warned).1
  have unhalted : blank.halted = none := by
    have still := (m.runFrame_skips running skips).1
    rw [m.runFrame_goes running unstopped] at still
    exact still
  have counts : (logged past drawn blank.cpu blank.journal blank.warned).after [.act .count] =
      ⟨m.runFrame.machine.hardware,m.runFrame.machine.warned,past ++ m.runFrame.records⟩ := by
    have counted : (logged past drawn blank.cpu blank.journal blank.warned).after [.act .count] =
        ⟨(drawn.put blank.cpu blank.journal.bus).act .count,blank.warned,
          past ++ blank.journal.records.reverse ++ []⟩ := rfl
    rw [counted,List.append_nil,m.runFrame_goes running unstopped,unhalted]
    rfl
  have acts : m.config.acts.map Move.act = [.act .begin] ++
      List.replicate (visibleShare m.config.instructionsPerFrame) (.act .instruction) ++
      [.act .draw,.act .publish,.act .blank] ++
      List.replicate (m.config.instructionsPerFrame - visibleShare m.config.instructionsPerFrame)
        (.act .instruction) ++ [.act .count] := by
    simp only [Config.acts,frameActs,List.map_append,List.map_replicate]
    rfl
  rw [acts,Logbook.after_append,Logbook.after_append,Logbook.after_append,Logbook.after_append,begins,visible,blanks,
    rest,counts]

def moved (config : Config) (r : Request) : List Move :=
  match r with
  | .frame => config.acts.map .act
  | .touch t => [.touch t]
  | .reset => [.reset]

def log (m : Machine) (requests : List Request) : List Record := (m.transcript requests).flatMap (·.2)

theorem log_cons (m : Machine) (r : Request) (requests : List Request) :
    m.log (r :: requests) = (m.serve r).records ++ (m.serve r).machine.log requests := List.flatMap_cons

theorem serve_logged (m : Machine) (running : m.halted = none) (skips : m.config.policy = .skip) (r : Request) :
    (m.serve r).machine.halted = none ∧ m.moves r = moved m.config r ∧
      (⟨m.hardware,m.warned,past⟩ : Logbook).after (m.moves r) =
        ⟨(m.serve r).machine.hardware,(m.serve r).machine.warned,past ++ (m.serve r).records⟩ := by
  cases r with
  | frame =>
      have all : m.moves .frame = m.config.acts.map .act := by
        rw [moves,actsDone,running,skips]
      refine ⟨(m.runFrame_skips running skips).1,all,?_⟩
      rw [all]
      exact runFrame_logged past m running skips
  | touch t => exact ⟨running,rfl,rfl⟩
  | reset => exact ⟨rfl,rfl,rfl⟩

theorem serveAll_logged (requests : List Request) : ∀ (m : Machine) (past : List Record), m.halted = none →
    m.config.policy = .skip →
      m.history requests = requests.flatMap (moved m.config) ∧
        (⟨m.hardware,m.warned,past⟩ : Logbook).after (m.history requests) =
          ⟨(m.serveAll requests).hardware,(m.serveAll requests).warned,past ++ m.log requests⟩ := by
  induction requests with
  | nil => exact fun m past _ _ => ⟨rfl,congrArg _ (List.append_nil past).symm⟩
  | cons r requests ih =>
      intro m past running skips
      obtain ⟨still,moved,first⟩ := serve_logged past m running skips r
      obtain ⟨all,later⟩ :=
        ih (m.serve r).machine (past ++ (m.serve r).records) still (by rw [serve_config]; exact skips)
      refine ⟨?_,?_⟩
      · rw [history,all,moved,serve_config,List.flatMap_cons]
      · rw [history,Logbook.after_append,first,later,log_cons,List.append_assoc]
        rfl

end Machine
end Famicom
