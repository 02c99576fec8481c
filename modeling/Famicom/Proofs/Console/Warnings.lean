import Famicom.Proofs.Console.Logbook
import Mathlib.Data.Finset.Card

namespace Famicom

def Record.alarms (r : Record) : Bool := r.level == .error || r.level == .warn || r.level == .trace

theorem Record.alarms_count (records : List Record) (level : Level)
    (kept : level = .error ∨ level = .warn ∨ level = .trace) :
    records.countP (·.level == level) = (records.filter alarms).countP (·.level == level) := by
  rw [List.countP_filter]
  congr 1
  funext r
  rcases kept with rfl | rfl | rfl <;> cases same : r.level <;> simp [alarms,same]

namespace Journal

-- Working on the bus raises no alarm, because a board records nothing but what it latches.
theorem alarms_lasting (raised : List Record) : Lasting fun j : Journal => j.records.filter Record.alarms = raised where
  read _ _ same := same
  write j a v same := by
    show (j.write a v).records.filter Record.alarms = raised
    rw [write]
    split
    · split
      · rename_i r latched
        have silent : r.alarms = false := by
          cases board : j.bus.cartridge.mapper with
          | nrom =>
              rw [board] at latched
              cases latched
          | mmc1 registers =>
              rw [board] at latched
              obtain ⟨value,_,rfl⟩ := Option.map_eq_some_iff.mp latched
              rfl
        rw [List.filter_cons,silent]
        exact same
      · exact same
    · exact same
  stall _ same := same

end Journal

namespace Hardware

theorem records_silent (h : Hardware) (t : Touch) : (h.records t).filter Record.alarms = [] := by
  cases t with
  | drive d =>
      have quiet := d.done_lasting (Journal.alarms_lasting []) h.cpu ({bus := h.bus} : Journal) rfl
      rw [records,List.filter_reverse,quiet]
      rfl
  | peek | peekVideo | writeVideo | poke | takeStall | powerCycle => rfl

theorem actRecords_silent (h : Hardware) (a : Act) : (h.actRecords a).filter Record.alarms = [] := by
  cases a with
  | instruction =>
      have quiet := (Journal.alarms_lasting []).step h.cpu (⟨h.bus,[]⟩ : Journal) rfl
      rw [actRecords,List.filter_reverse,quiet]
      rfl
  | blank =>
      simp only [actRecords]
      split
      · have quiet := (Journal.alarms_lasting []).interrupt nmiVector h.cpu
          (⟨{h.bus with ppu := h.bus.ppu.enterVblank},[]⟩ : Journal) rfl
        rw [Cpu.nmi,List.filter_reverse,quiet]
        rfl
      · rfl
  | begin | draw | publish | count => rfl

theorem moveRecords_silent (h : Hardware) (m : Move) : (h.moveRecords m).filter Record.alarms = [] := by
  cases m with
  | act a => exact h.actRecords_silent a
  | touch t => exact h.records_silent t
  | reset => rfl

theorem touched_frames (h : Hardware) (t : Touch) : (h.touched t).frames = h.frames := by
  cases t <;> rfl

end Hardware

namespace Logbook

def reports (warned : List UInt8) (met : List UnknownOpcode) : List Record :=
  match met with
  | [] => []
  | e :: rest => .skipped e (!warned.contains e.opcode) :: reports (warned.insert e.opcode) rest

theorem after_alarms (moves : List Move) (unreset : .reset ∉ moves) : ∀ l : Logbook,
    (l.after moves).records.filter Record.alarms =
      l.records.filter Record.alarms ++ reports l.warned (l.hardware.faults moves) := by
  induction moves with
  | nil => exact fun l => (List.append_nil _).symm
  | cons m moves ih =>
      intro l
      have other : remembered l.warned m = l.warned := by
        cases m with
        | act | touch => rfl
        | reset => exact absurd List.mem_cons_self unreset
      have later := ih (fun among => unreset (List.mem_cons_of_mem m among)) (l.move m)
      rw [after,List.foldl_cons]
      refine later.trans ?_
      rw [Hardware.faults]
      cases met : l.hardware.met? m with
      | some e =>
          simp only [move,met,Option.toList_some,List.singleton_append,reports,List.filter_append,List.append_assoc]
          cases l.warned.contains e.opcode <;> rfl
      | none =>
          simp only [move,met,other,Option.toList_none,List.nil_append,List.filter_append,
            l.hardware.moveRecords_silent,List.append_nil]

theorem reports_eq (met : List UnknownOpcode) : ∀ warned : List UInt8,
    reports warned met = met.mapIdx fun k e =>
      .skipped e (decide (e.opcode ∉ warned ∧ e.opcode ∉ (met.take k).map (·.opcode))) := by
  induction met with
  | nil => exact fun _ => rfl
  | cons e met ih =>
      intro warned
      rw [reports,ih,List.mapIdx_cons]
      congr 1
      · simp
      · congr 1
        funext k f
        simp only [List.take_succ_cons,List.map_cons,List.mem_cons,List.mem_insert_iff]
        congr 2
        grind

theorem reports_warnings (met : List UnknownOpcode) : ∀ warned : List UInt8,
    (reports warned met).countP (·.level == .warn) = ((met.map (·.opcode)).toFinset \ warned.toFinset).card := by
  induction met with
  | nil => exact fun _ => by simp [reports]
  | cons e met ih =>
      intro warned
      rw [reports,List.countP_cons,ih,List.map_cons,List.toFinset_cons]
      by_cases before : e.opcode ∈ warned
      · have known : warned.contains e.opcode = true := List.contains_iff_mem.mpr before
        rw [List.insert_of_mem before,Finset.insert_sdiff_of_mem _ (List.mem_toFinset.mpr before),known]
        rfl
      · have new : warned.contains e.opcode = false :=
          Bool.eq_false_iff.mpr fun known => before (List.contains_iff_mem.mp known)
        have set : (warned.insert e.opcode).toFinset = insert e.opcode warned.toFinset := by
          ext v
          simp
        rw [new,set,Finset.insert_sdiff_of_notMem _ (fun among => before (List.mem_toFinset.mp among)),
          Finset.sdiff_insert,← Finset.erase_insert_eq_erase]
        exact Finset.card_erase_add_one (Finset.mem_insert_self _ _)

theorem reports_levels (met : List UnknownOpcode) : ∀ warned : List UInt8,
    (reports warned met).countP (·.level == .warn) + (reports warned met).countP (·.level == .trace) = met.length := by
  induction met with
  | nil => exact fun _ => rfl
  | cons e met ih =>
      intro warned
      have rest := ih (warned.insert e.opcode)
      rw [reports,List.countP_cons,List.countP_cons,List.length_cons,← rest]
      cases warned.contains e.opcode <;> simp [Record.level] <;> omega

end Logbook

namespace Machine

open Hardware

variable {config : Config}

theorem moved_resetless (config : Config) {requests : List Request} (unreset : .reset ∉ requests) :
    .reset ∉ requests.flatMap (moved config) := by
  rw [List.mem_flatMap]
  rintro ⟨r,among,resets⟩
  cases r with
  | frame =>
      obtain ⟨_,_,other⟩ := List.mem_map.mp resets
      cases other
  | touch t => cases List.mem_singleton.mp resets
  | reset => exact unreset among

theorem log_reports (m : Machine) (running : m.halted = none) (fresh : m.warned = []) (skips : m.config.policy = .skip)
    {requests : List Request} (unreset : .reset ∉ requests) :
    m.history requests = requests.flatMap (moved m.config) ∧
      m.log requests = ((⟨m.hardware,[],[]⟩ : Logbook).after (m.history requests)).records ∧
      (m.log requests).filter Record.alarms = Logbook.reports [] (m.hardware.faults (m.history requests)) := by
  obtain ⟨acts,logged⟩ := serveAll_logged requests m [] running skips
  rw [fresh] at logged
  have records : m.log requests = ((⟨m.hardware,[],[]⟩ : Logbook).after (m.history requests)).records :=
    (congrArg Logbook.records logged).symm
  have resetless : .reset ∉ m.history requests := by
    rw [acts]
    exact moved_resetless m.config unreset
  refine ⟨acts,records,?_⟩
  rw [records,Logbook.after_alarms _ resetless]
  rfl

theorem spend_alarms (halts : config.policy = .halt) (frames : UInt64) (budget : Nat) (cpu : Cpu) (journal : Journal)
    (warned : List UInt8) :
    let spent := spend config frames budget cpu journal warned
    spent.journal.records.filter Record.alarms =
      (spent.halted.map (.halted · frames)).toList ++ journal.records.filter Record.alarms := by
  have quiet := (Journal.alarms_lasting _).run
    (cpu.instructions + UInt64.ofNat budget - cpu.instructions).toNat cpu journal rfl
  rw [spend]
  cases fault : (cpu.run journal (cpu.instructions + UInt64.ofNat budget - cpu.instructions).toNat).fault with
  | none =>
      rw [spendTo_quiet _ _ _ _ _ _ fault]
      exact quiet
  | some e =>
      rw [spendTo_halts _ _ _ _ _ _ e halts fault]
      exact congrArg (Record.halted e frames :: ·) quiet

theorem startBlank_alarms (raster : Raster) (cpu : Cpu) (journal : Journal) :
    (startBlank raster cpu journal).2.records.filter Record.alarms = journal.records.filter Record.alarms := by
  simp only [startBlank]
  split
  · exact (Journal.alarms_lasting _).interrupt nmiVector cpu _ rfl
  · rfl

theorem runFrame_alarms (m : Machine) (running : m.halted = none) (halts : m.config.policy = .halt) :
    m.runFrame.records.filter Record.alarms = (m.runFrame.machine.halted.map (.halted · m.frames)).toList := by
  have visible : m.runVisible.journal.records.filter Record.alarms =
      (m.runVisible.halted.map (.halted · m.frames)).toList ++ [] := spend_alarms halts m.frames _ _ _ _
  cases met : m.runVisible.halted with
  | some e =>
      rw [m.runFrame_stops running (by rw [met]; rfl),Spent.into,List.filter_reverse,visible,met]
      rfl
  | none =>
      rw [met] at visible
      have blank : (m.runBlank m.drawn m.runVisible).journal.records.filter Record.alarms =
          ((m.runBlank m.drawn m.runVisible).halted.map (.halted · m.frames)).toList ++
            (startBlank m.drawn m.runVisible.cpu m.runVisible.journal).2.records.filter Record.alarms :=
        spend_alarms halts m.frames _ _ _ _
      rw [startBlank_alarms,visible] at blank
      rw [m.runFrame_goes running met,Spent.into,List.filter_reverse,blank]
      cases (m.runBlank m.drawn m.runVisible).halted <;> rfl

theorem faults_toFault (acts : List Act) : ∀ h : Hardware,
    h.faults ((h.actsToFault acts).map .act) = (h.playToFault acts).2.toList := by
  induction acts with
  | nil => exact fun _ => rfl
  | cons a acts ih =>
      intro h
      rw [actsToFault,playToFault]
      cases fault : h.fault? a with
      | some e =>
          have met : h.met? (.act a) = some e := fault
          simp only [Option.isSome_some,if_true,List.map_cons,List.map_nil,faults,met]
          rfl
      | none =>
          have met : h.met? (.act a) = none := fault
          simp only [Option.isSome_none,Bool.false_eq_true,if_false,List.map_cons,faults,met]
          exact ih (h.act a)

theorem serveAll_halted (requests : List Request) (unreset : .reset ∉ requests) : ∀ (m : Machine) (e : UnknownOpcode),
    m.halted = some e → (m.serveAll requests).halted = some e ∧ m.hardware.faults (m.history requests) = [] ∧
      (m.log requests).filter Record.alarms = [] := by
  induction requests with
  | nil => exact fun m e stopped => ⟨stopped,rfl,rfl⟩
  | cons r requests ih =>
      intro m e stopped
      have others := ih fun among => unreset (List.mem_cons_of_mem r among)
      rw [history,faults_append,log_cons,List.filter_append,← serve_moves]
      cases r with
      -- A frame of a machine that has halted is no frame: it leaves the same machine and makes no record.
      | frame =>
          have same : m.runFrame = ⟨m,[]⟩ := m.halted_frame (by rw [stopped]; rfl)
          have nothing : m.moves .frame = [] := by
            rw [moves,actsDone,stopped]
            rfl
          obtain ⟨stays,met,quiet⟩ := others m e stopped
          have still : (m.serve .frame).machine = m := congrArg Turn.machine same
          have silent : (m.serve .frame).records = [] := congrArg Turn.records same
          refine ⟨?_,?_,?_⟩
          · rw [serveAll,List.foldl_cons,still]
            exact stays
          · rw [nothing,still,met]
            rfl
          · rw [silent,still,quiet]
            rfl
      | touch t =>
          obtain ⟨stays,met,quiet⟩ := others (m.serve (.touch t)).machine e stopped
          refine ⟨stays,?_,?_⟩
          · rw [met]
            rfl
          · rw [quiet,List.append_nil]
            exact m.hardware.records_silent t
      | reset => exact absurd List.mem_cons_self unreset

-- A frame after these requests has halted the machine. Its one alarm tells how many frames were done, and no later frame
-- records anything.
structure HaltsOnce (m : Machine) (before rest : List Request) (e : UnknownOpcode) : Prop where
  running : (m.serveAll before).halted = none
  stops : (m.serveAll before).runFrame.machine.halted = some e
  alarm : (m.serveAll before).runFrame.records.filter Record.alarms =
    [.halted e (m.frames + UInt64.ofNat (before.count .frame))]
  only : (m.log (before ++ .frame :: rest)).filter Record.alarms =
    [.halted e (m.frames + UInt64.ofNat (before.count .frame))]
  silent : ∀ earlier later, rest = earlier ++ .frame :: later →
    (m.serveAll (before ++ .frame :: earlier)).runFrame.records = []

theorem HaltsOnce.behind {m : Machine} {r : Request} {before rest : List Request} {e : UnknownOpcode}
    (once : (m.serve r).machine.HaltsOnce before rest e)
    (frames : (m.serve r).machine.frames = m.frames + UInt64.ofNat ([r].count .frame))
    (quiet : (m.serve r).records.filter Record.alarms = []) : m.HaltsOnce (r :: before) rest e := by
  have total : (m.serve r).machine.frames + UInt64.ofNat (before.count .frame) =
      m.frames + UInt64.ofNat ((r :: before).count .frame) := by
    rw [frames,UInt64.add_assoc,← UInt64.ofNat_add,← List.count_append]
    rfl
  refine ⟨once.running,once.stops,?_,?_,once.silent⟩
  · rw [← total]
    exact once.alarm
  · rw [List.cons_append,log_cons,List.filter_append,quiet,← total]
    exact once.only

theorem serve_running (m : Machine) (running : m.halted = none) (halts : m.config.policy = .halt) (r : Request)
    (other : r ≠ .reset) (still : (m.serve r).machine.halted = none) :
    (m.serve r).machine.frames = m.frames + UInt64.ofNat ([r].count .frame) ∧
      m.hardware.faults (m.moves r) = [] ∧ (m.serve r).records.filter Record.alarms = [] := by
  cases r with
  | frame =>
      have unhalted : m.runFrame.machine.halted = none := still
      have counted := m.runFrame_frames running
      have alarms := m.runFrame_alarms running halts
      have toFault : m.moves .frame = (m.hardware.actsToFault m.config.acts).map .act := by
        rw [moves,actsDone,running,halts]
      rw [unhalted] at counted alarms
      refine ⟨counted,?_,alarms⟩
      rw [toFault,faults_toFault,m.runFrame_halts running halts,unhalted]
      rfl
  | touch t =>
      refine ⟨?_,rfl,m.hardware.records_silent t⟩
      rw [List.count_cons_of_ne Request.noConfusion,List.count_nil]
      exact (m.hardware.touched_frames t).trans (UInt64.add_zero m.frames).symm
  | reset => exact absurd rfl other

theorem frame_halts (m : Machine) (running : m.halted = none) (halts : m.config.policy = .halt) (e : UnknownOpcode)
    (stops : m.runFrame.machine.halted = some e) (requests : List Request) (unreset : .reset ∉ requests) :
    (m.serveAll (.frame :: requests)).halted = some e ∧ m.hardware.faults (m.history (.frame :: requests)) = [e] ∧
      m.HaltsOnce [] requests e := by
  have toFault : m.moves .frame = (m.hardware.actsToFault m.config.acts).map .act := by
    rw [moves,actsDone,running,halts]
  have met : m.hardware.faults (m.moves .frame) = [e] := by
    rw [toFault,faults_toFault,m.runFrame_halts running halts,stops]
    rfl
  have alarm : m.runFrame.records.filter Record.alarms = [.halted e m.frames] := by
    rw [m.runFrame_alarms running halts,stops]
    rfl
  -- The requests after it find the machine halted, and each beginning of them does.
  have later : ∀ some : List Request, .reset ∉ some → (m.serveAll (.frame :: some)).halted = .some e ∧
      m.runFrame.machine.hardware.faults (m.runFrame.machine.history some) = [] ∧
        (m.runFrame.machine.log some).filter Record.alarms = [] :=
    fun some unreset => serveAll_halted some unreset m.runFrame.machine e stops
  have logged : (m.log (.frame :: requests)).filter Record.alarms = [.halted e m.frames] := by
    rw [log_cons,List.filter_append]
    exact (congrArg (_ ++ ·) (later requests unreset).2.2).trans ((List.append_nil _).trans alarm)
  have none : m.frames + UInt64.ofNat (([] : List Request).count .frame) = m.frames := UInt64.add_zero _
  refine ⟨(later requests unreset).1,?_,running,stops,?_,?_,?_⟩
  · rw [history,faults_append,← serve_moves,met]
    exact congrArg (e :: ·) (later requests unreset).2.1
  · rw [none]
    exact alarm
  · rw [none]
    exact logged
  · rintro earlier more rfl
    have stopped := (later earlier fun among => unreset (List.mem_append_left _ among)).1
    exact congrArg Turn.records (halted_frame _ (by rw [List.nil_append,stopped]; rfl))

theorem serveAll_halts (requests : List Request) (unreset : .reset ∉ requests) : ∀ m : Machine, m.halted = none →
    m.config.policy = .halt →
      m.hardware.faults (m.history requests) = (m.serveAll requests).halted.toList ∧
        ((m.serveAll requests).halted = none → (m.log requests).filter Record.alarms = []) ∧
        ∀ e, (m.serveAll requests).halted = some e →
          ∃ before rest, requests = before ++ .frame :: rest ∧ m.HaltsOnce before rest e := by
  induction requests with
  | nil =>
      intro m running _
      refine ⟨?_,fun _ => rfl,?_⟩
      · rw [serveAll,List.foldl_nil,running]
        rfl
      · intro e stopped
        rw [serveAll,List.foldl_nil,running] at stopped
        cases stopped
  | cons r requests ih =>
      intro m running halts
      have others : .reset ∉ requests := fun among => unreset (List.mem_cons_of_mem r among)
      have other : r ≠ .reset := fun same => unreset (same ▸ List.mem_cons_self)
      cases next : (m.serve r).machine.halted with
      | none =>
          obtain ⟨frames,met,quiet⟩ := m.serve_running running halts r other next
          obtain ⟨all,unhalted,halted⟩ := ih others (m.serve r).machine next (by rw [serve_config]; exact halts)
          rw [history,faults_append,log_cons,List.filter_append,← serve_moves,met,quiet]
          refine ⟨all,unhalted,?_⟩
          intro e stopped
          obtain ⟨before,rest,split,once⟩ := halted e stopped
          exact ⟨r :: before,rest,congrArg (r :: ·) split,once.behind frames quiet⟩
      -- Only a frame can have halted the machine, and the induction ends with it: later requests are all silent.
      | some e =>
          cases r with
          | touch t =>
              have still : m.halted = some e := next
              rw [running] at still
              cases still
          | reset => exact absurd rfl other
          | frame =>
              obtain ⟨final,met,once⟩ := m.frame_halts running halts e next requests others
              rw [met,final]
              refine ⟨rfl,fun still => absurd still (Option.some_ne_none e),?_⟩
              rintro e' ⟨⟩
              exact ⟨[],requests,rfl,once⟩

def Started (m : Machine) : Prop :=
  (∃ image config started, load image config = .ok started ∧ m = started.machine) ∨
    ∃ earlier : Machine, m = earlier.reset.machine

theorem Started.blank {m : Machine} (started : m.Started) : m.halted = none ∧ m.warned = [] ∧ m.frames = 0 := by
  rcases started with ⟨image,config,turn,loaded,rfl⟩ | ⟨earlier,rfl⟩
  · obtain ⟨c,_,rfl⟩ := load_around loaded
    exact ⟨rfl,rfl,rfl⟩
  · exact ⟨rfl,rfl,rfl⟩

-- Whatever a host asks for between two starts: a machine that skips makes one record of each opcode without an instruction,
-- in their order, and it warns where the opcode is a new one. One that halts makes a single record, of the first of them.
theorem unknown_opcodes_logged (m : Machine) (started : m.Started) (requests : List Request)
    (unreset : .reset ∉ requests) :
    let met := m.hardware.faults (m.history requests)
    let log := m.log requests
    (m.serveAll requests).hardware = m.hardware.after (m.history requests) ∧
      (m.config.policy = .skip →
        m.history requests = requests.flatMap (moved m.config) ∧
          log = ((⟨m.hardware,[],[]⟩ : Logbook).after (m.history requests)).records ∧
          log.filter Record.alarms =
            (met.mapIdx fun k e => .skipped e (decide (e.opcode ∉ (met.take k).map (·.opcode)))) ∧
          log.countP (·.level == .warn) = (met.map (·.opcode)).toFinset.card ∧
          log.countP (·.level == .warn) + log.countP (·.level == .trace) = met.length) ∧
      (m.config.policy = .halt →
        ((m.serveAll requests).halted = none →
          met = [] ∧ log.filter Record.alarms = [] ∧ log.countP (·.level == .error) = 0) ∧
          ∀ e, (m.serveAll requests).halted = some e →
            met = [e] ∧ ∃ before rest, requests = before ++ .frame :: rest ∧ m.HaltsOnce before rest e ∧
              log.filter Record.alarms = [.halted e (UInt64.ofNat (before.count .frame))] ∧
              log.countP (·.level == .error) = 1) := by
  intro met log
  obtain ⟨running,warned,frames⟩ := started.blank
  refine ⟨m.serveAll_moves requests,?_,?_⟩
  · intro skips
    obtain ⟨acts,records,reported⟩ := m.log_reports running warned skips unreset
    have alarms : log.filter Record.alarms = Logbook.reports [] met := reported
    -- The levels are counted among the alarms, because no other record has one of these levels.
    have warnings := Record.alarms_count log .warn (.inr (.inl rfl))
    have repeated := Record.alarms_count log .trace (.inr (.inr rfl))
    rw [alarms] at warnings repeated
    refine ⟨acts,records,?_,?_,?_⟩
    · rw [alarms,Logbook.reports_eq]
      simp
    · rw [warnings,Logbook.reports_warnings,List.toFinset_nil,Finset.sdiff_empty]
    · rw [warnings,repeated,Logbook.reports_levels]
  · intro halts
    obtain ⟨all,unhalted,halted⟩ := serveAll_halts requests unreset m running halts
    have errors := Record.alarms_count log .error (.inl rfl)
    refine ⟨?_,?_⟩
    · intro still
      rw [still] at all
      have silent : log.filter Record.alarms = [] := unhalted still
      rw [silent] at errors
      exact ⟨all,silent,errors⟩
    · intro e stopped
      rw [stopped] at all
      obtain ⟨before,rest,rfl,once⟩ := halted e stopped
      have only := once.only
      rw [frames,UInt64.zero_add] at only
      rw [only] at errors
      exact ⟨all,before,rest,rfl,once,only,errors⟩

-- Five instructions a frame, four of them before the drawing. Three of the program's four have no known opcode.
def tripping (policy : OpcodePolicy) : Machine :=
  (reset
    {bus := .around
      {header := ⟨1,1,0,0⟩,trainer := none,prg := #[0x02,0x03,0x02,0x4C,0x00,0x80],chr := #[0]
       chrWritable := false,ram := none,mapper := .nrom}
     config := ⟨5,0,policy⟩}).machine

theorem tripping_faults :
    (tripping .skip).hardware.faults ([.frame,.touch .takeStall,.frame].flatMap (moved (tripping .skip).config)) =
      [⟨0x02,0x8000⟩,⟨0x03,0x8001⟩,⟨0x02,0x8002⟩,⟨0x02,0x8000⟩,⟨0x03,0x8001⟩,⟨0x02,0x8002⟩,⟨0x02,0x8000⟩,
        ⟨0x03,0x8001⟩] := by
  decide +kernel

theorem tripping_halted : ((tripping .halt).serveAll [.frame,.touch .takeStall,.frame]).halted = some ⟨0x02,0x8000⟩ := by
  have toFault := (tripping .halt).runFrame_halts rfl rfl
  have met : ((tripping .halt).hardware.playToFault (tripping .halt).config.acts).2 = some ⟨0x02,0x8000⟩ := by
    decide +kernel
  rw [toFault] at met
  exact (serveAll_halted [.touch .takeStall,.frame] (by decide) (tripping .halt).runFrame.machine ⟨0x02,0x8000⟩ met).1

theorem tripping_logged :
    (tripping .skip).Started ∧ (tripping .halt).Started ∧ .reset ∉ [Request.frame,.touch .takeStall,.frame] ∧
      ((tripping .skip).log [.frame,.touch .takeStall,.frame]).filter Record.alarms =
        [.skipped ⟨0x02,0x8000⟩ true,.skipped ⟨0x03,0x8001⟩ true,.skipped ⟨0x02,0x8002⟩ false,
          .skipped ⟨0x02,0x8000⟩ false,.skipped ⟨0x03,0x8001⟩ false,.skipped ⟨0x02,0x8002⟩ false,
          .skipped ⟨0x02,0x8000⟩ false,.skipped ⟨0x03,0x8001⟩ false] ∧
      ((tripping .skip).log [.frame,.touch .takeStall,.frame]).countP (·.level == .warn) = 2 ∧
      ((tripping .halt).log [.frame,.touch .takeStall,.frame]).countP (·.level == .error) = 1 := by
  have unreset : .reset ∉ [Request.frame,.touch .takeStall,.frame] := by
    decide
  have skipping : (tripping .skip).Started := .inr ⟨_,rfl⟩
  have halting : (tripping .halt).Started := .inr ⟨_,rfl⟩
  obtain ⟨acts,_,alarms,warnings,_⟩ :=
    (unknown_opcodes_logged (tripping .skip) skipping [.frame,.touch .takeStall,.frame] unreset).2.1 rfl
  obtain ⟨_,_,_,_,_,_,errors⟩ :=
    ((unknown_opcodes_logged (tripping .halt) halting [.frame,.touch .takeStall,.frame] unreset).2.2 rfl).2 _
      tripping_halted
  rw [acts,tripping_faults] at alarms warnings
  refine ⟨skipping,halting,unreset,alarms.trans ?_,warnings.trans ?_,errors⟩
  · rfl
  · decide

end Machine
end Famicom
