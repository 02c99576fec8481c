import Famicom.CommandLine.Program
import Famicom.Proofs.CommandLine.Pages
import Famicom.Proofs.Console.Halting
import Famicom.Proofs.Console.PowerCycle
import Famicom.Proofs.Picture.Views
import Mathlib.Order.Bounds.Defs

namespace Famicom

namespace Machine

def Completes (m : Machine) (k : Nat) : Prop := ∀ i < k, (m.afterFrames i).runFrame.failure? = none

theorem completes_succ (m : Machine) (k : Nat) :
    m.Completes (k + 1) ↔ m.runFrame.failure? = none ∧ m.runFrame.machine.Completes k := by
  constructor
  · intro all
    exact ⟨all 0 (Nat.succ_pos k),fun i before => all (i + 1) (Nat.succ_lt_succ before)⟩
  · intro ⟨first,rest⟩ i before
    cases i with
    | zero => exact first
    | succ i => exact rest i (Nat.lt_of_succ_lt_succ before)

def lastOf (m : Machine) (frames completed : Nat) : Machine :=
  if completed = frames then m.afterFrames completed else (m.afterFrames completed).runFrame.machine

-- The frames run are those up to the first failure, and the machine has counted those before it.
theorem runFrames_completes (wants : Record → Bool) (m : Machine) (running : m.halted = none) (log : List Record)
    (n : Nat) :
    ∃ j, IsGreatest {k | k ≤ n ∧ m.Completes k} j ∧
      (m.runFrames wants log n).machine = m.lastOf n j ∧
      ((m.runFrames wants log n).failure = none ↔ j = n) ∧
      (m.runFrames wants log n).machine.frames = m.frames + UInt64.ofNat j := by
  -- The first frame is split off. If it succeeds the rest is a run of the machine it leaves, with everything one further.
  induction n generalizing m log with
  | zero =>
      refine ⟨0,⟨⟨Nat.le_refl 0,fun i before => absurd before (Nat.not_lt_zero i)⟩,fun k within => within.1⟩,rfl,?_,?_⟩
      · exact ⟨fun _ => rfl,fun _ => rfl⟩
      · exact (UInt64.add_zero _).symm
  | succ n ih =>
      have counted := m.runFrame_frames running
      rw [runFrames]
      cases met : m.runFrame.machine.halted with
      | some e =>
          have failed : m.runFrame.failure? = some (.halted e) := congrArg (Option.map Failure.halted) met
          rw [met] at counted
          simp only [failed]
          refine ⟨0,⟨⟨Nat.zero_le _,fun i before => absurd before (Nat.not_lt_zero i)⟩,?_⟩,rfl,?_,?_⟩
          · intro k ⟨_,succeed⟩
            cases k with
            | zero => exact Nat.le_refl 0
            | succ k => cases failed.symm.trans (succeed 0 (Nat.succ_pos k))
          · constructor
            · intro unfailed
              cases unfailed
            · intro same
              cases same
          · rw [counted]
            exact (UInt64.add_zero _).symm
      | none =>
          have succeeded : m.runFrame.failure? = none := congrArg (Option.map Failure.halted) met
          rw [met] at counted
          simp only [succeeded]
          obtain ⟨j,⟨⟨within,completed⟩,greatest⟩,last,ended,total⟩ :=
            ih m.runFrame.machine met ((m.runFrame.records.filter wants).reverse ++ log)
          refine ⟨j + 1,⟨⟨Nat.succ_le_succ within,(m.completes_succ j).mpr ⟨succeeded,completed⟩⟩,?_⟩,?_,?_,?_⟩
          · intro k ⟨below,succeed⟩
            cases k with
            | zero => exact Nat.zero_le _
            | succ k =>
                have rest := ((m.completes_succ k).mp succeed).2
                exact Nat.succ_le_succ (greatest ⟨Nat.le_of_succ_le_succ below,rest⟩)
          · rw [last,lastOf,lastOf]
            simp only [Nat.succ_inj]
            rfl
          · rw [ended,Nat.succ_inj]
          · rw [total,counted,UInt64.ofNat_add]
            grind

end Machine

structure Trail where
  written : List (String × Array UInt8) := []
  output : String := ""
  errors : String := ""

-- Files that nobody else changes: what each one gives, and those that cannot be written to.
structure Files where
  image : String → Except String (Array UInt8)
  refuses : String → Option String

namespace Files

def host (files : Files) : Host (StateM Trail) where
  readImage path := pure (files.image path)
  writeImage path bytes :=
    match files.refuses path with
    | some reason => pure (.error reason)
    | none => modifyGet fun trail => (.ok (),{trail with written := trail.written ++ [(path,bytes)]})
  print text := modify fun trail => {trail with output := trail.output ++ text}
  complain text := modify fun trail => {trail with errors := trail.errors ++ text}

def ran (files : Files) (parse : List String → Except Ending Options) (arguments : List String) : UInt32 × Trail :=
  ((CommandLine.run parse files.host arguments).run {}).run

variable (files : Files) {o : Options} (trail : Trail)

theorem complaints (records : List Record) :
    ∃ errors, ((records.forM fun r => files.host.complain (r.line ++ "\n")).run trail).run =
      ((),{trail with errors := errors}) := by
  induction records generalizing trail with
  | nil => exact ⟨trail.errors,rfl⟩
  | cons r records ih => exact ih {trail with errors := trail.errors ++ (r.line ++ "\n")}

theorem session_unplayed {ending : Ending} (ended : o.play (files.image o.rom) = .error ending) :
    ((o.session files.host).run trail).run = (ending,trail) := by
  have read : (files.host.readImage o.rom) = pure (files.image o.rom) := rfl
  simp only [Options.session,read,pure_bind,ended]
  rfl

theorem session_played {p : Played} (played : o.play (files.image o.rom) = .ok p)
    (writable : ∀ path ∈ o.screenshot, files.refuses path = none) :
    ∃ errors, ((o.session files.host).run trail).run =
      (o.conclude p (.ok ()),
        {trail with written := trail.written ++ (o.screenshotOf p).toList,errors := errors}) := by
  obtain ⟨errors,said⟩ := files.complaints trail p.log
  have read : (files.host.readImage o.rom) = pure (files.image o.rom) := rfl
  refine ⟨errors,?_⟩
  simp only [Options.session,read,pure_bind,played,StateT.run_bind,Id.run_bind,said]
  cases wanted : o.screenshot with
  | none =>
      simp only [Options.screenshotOf,wanted,Option.map_none,Option.toList_none,List.append_nil]
      rfl
  | some path =>
      have taken : files.refuses path = none := writable path wanted
      simp only [Options.screenshotOf,wanted,Option.map_some,host,taken]
      rfl

theorem ran_session {parse : List String → Except Ending Options} {arguments : List String}
    (parsed : parse arguments = .ok o) {ending : Ending} {left : Trail}
    (session : ((o.session files.host).run {}).run = (ending,left)) :
    files.ran parse arguments =
      (ending.code,{left with output := left.output ++ ending.output,errors := left.errors ++ ending.errors}) := by
  simp only [ran,CommandLine.run,parsed,StateT.run_bind,Id.run_bind,session]
  rfl

end Files

namespace Options

variable (o : Options)

def countRows (completed : Nat) : List Row :=
  [[],["Running ",.decimal o.frames.toNat," frames..."],["Completed ",.decimal completed," frames."]]

def wroteRows : List Row :=
  match o.screenshot with
  | some path => [["Wrote ",.word path]]
  | none => []

def wroteLine : String :=
  match o.screenshot with
  | some path => s!"Wrote {path}\n"
  | none => ""

def account (started last : Machine) (completed : Nat) : List Row :=
  started.bus.cartridge.page ++ o.countRows completed ++ (if o.dumpCpu then last.cpuPage else []) ++
    (if o.dumpPpu then last.ppuPage else []) ++ o.wroteRows

def countLines (completed : Nat) : String :=
  lines ["",s!"Running {o.frames} frames...",s!"Completed {completed} frames."]

theorem countLines_printed (completed : Nat) : Prints (o.countRows completed) (o.countLines completed) :=
  .line .nil <| .line (((Spells.start "Running ").decimal o.frames.toNat).word " frames...") <|
    .line (((Spells.start "Completed ").decimal completed).word " frames.") .nil

theorem wroteLine_printed : Prints o.wroteRows o.wroteLine := by
  unfold wroteRows wroteLine
  cases o.screenshot with
  | none => exact .nil
  | some path =>
      have printed : Prints [["Wrote ",.word path]] (lines ["Wrote " ++ path]) :=
        .line ((Spells.start "Wrote ").word path) .nil
      rwa [lines,List.map_singleton,String.join_cons,String.join_nil,String.append_empty] at printed

theorem account_printed (started last : Machine) (completed : Nat) :
    Prints (o.account started last completed)
      (started.bus.cartridge.dump ++ o.countLines completed ++ (if o.dumpCpu then last.dumpCpu else "") ++
        (if o.dumpPpu then last.dumpPpu else "") ++ o.wroteLine) := by
  have wanted : ∀ (asked : Bool) {rows s}, Prints rows s →
      Prints (if asked then rows else []) (if asked then s else "") := by
    intro asked rows s printed
    cases asked with
    | true => exact printed
    | false => exact .nil
  exact (((started.bus.cartridge.dump_printed.append (o.countLines_printed completed)).append
    (wanted o.dumpCpu last.dumpCpu_printed)).append (wanted o.dumpPpu last.dumpPpu_printed)).append o.wroteLine_printed

theorem account_counts {started last : Machine} {completed : Nat} {output : String}
    (printed : Prints (o.account started last completed) output) :
    ∃ above below, output = above ++ s!"Completed {completed} frames.\n" ++ below := by
  let row : Row := ["Completed ",.decimal completed," frames."]
  have member : row ∈ o.account started last completed := by
    simp [row,account,countRows]
  obtain ⟨above,l,below,spelled,rfl⟩ := printed.shows member
  have text := spelled.unique (((Spells.start "Completed ").decimal completed).word " frames.")
  have ends : "Completed " ++ toString completed ++ " frames." ++ "\n" = s!"Completed {completed} frames.\n" :=
    String.append_assoc
  exact ⟨above,below,by rw [text,ends]⟩

theorem play_unloaded (image : Except String (Array UInt8))
    (unloaded : ∀ bytes, image = .ok bytes → ∃ e, Machine.load bytes o.config = .error e) :
    ∃ errors, o.play image = .error ⟨1,"",errors⟩ := by
  cases image with
  | error reason => exact ⟨_,rfl⟩
  | ok bytes =>
      obtain ⟨e,failed⟩ := unloaded bytes rfl
      simp only [play,failed]
      exact ⟨_,rfl⟩

theorem play_loaded {bytes : Array UInt8} {started : Turn} (loaded : Machine.load bytes o.config = .ok started) :
    ∃ p j, o.play (.ok bytes) = .ok p ∧
      IsGreatest {k | k ≤ o.frames.toNat ∧ started.machine.Completes k} j ∧
      p.machine = started.machine.lastOf o.frames.toNat j ∧
      (p.failure = none ↔ j = o.frames.toNat) ∧
      p.output = started.machine.bus.cartridge.dump ++ o.countLines j ++
        (if o.dumpCpu then p.machine.dumpCpu else "") ++ (if o.dumpPpu then p.machine.dumpPpu else "") := by
  obtain ⟨c,_,around⟩ := Machine.load_around loaded
  have running : started.machine.halted = none := by
    rw [around]
    rfl
  have uncounted : started.machine.frames = 0 := by
    rw [around]
    rfl
  obtain ⟨j,completed,last,ended,total⟩ := started.machine.runFrames_completes o.wants running
    (started.records.filter o.wants).reverse o.frames.toNat
  have counted : (started.machine.runFrames o.wants (started.records.filter o.wants).reverse
      o.frames.toNat).machine.frames.toNat = j := by
    rw [total,uncounted,UInt64.zero_add]
    exact UInt64.toNat_ofNat_of_lt' (Nat.lt_of_le_of_lt completed.1.1 o.frames.toNat_lt)
  simp only [play,loaded]
  refine ⟨_,j,rfl,completed,last,ended,?_⟩
  rw [← counted]
  rfl

theorem conclude_writable (p : Played) :
    (o.conclude p (.ok ())).output = p.output ++ o.wroteLine ∧
      (o.conclude p (.ok ())).code = if p.failure = none then 0 else 1 := by
  cases wanted : o.screenshot <;> cases failure : p.failure <;> simp [conclude,wroteLine,failed,wanted,failure]

end Options

namespace Files

-- The program from its arguments to its end, for any contents of the image and any of the options, whatever rules the
-- arguments are read by.
theorem ran_folds (parse : List String → Except Ending Options) (files : Files) {arguments : List String} {o : Options}
    (parsed : parse arguments = .ok o) (writable : ∀ path ∈ o.screenshot, files.refuses path = none) :
    let ran := files.ran parse arguments
    let config : Config :=
      {cyclesPerFrame := o.cyclesPerFrame.getD 29780,cyclesPerInstruction := 3
       policy := if o.haltOnUnknown then .halt else .skip}
    ((∀ image, files.image o.rom = .ok image → ∃ e, Machine.load image config = .error e) →
      ran.1 = 1 ∧ ran.2.output = "" ∧ ran.2.written = []) ∧
      ∀ image started, files.image o.rom = .ok image → Machine.load image config = .ok started →
        ∃ j, IsGreatest {k | k ≤ o.frames.toNat ∧ started.machine.Completes k} j ∧
          let last := started.machine.lastOf o.frames.toNat j
          Prints (o.account started.machine last j) ran.2.output ∧
            (∃ above below, ran.2.output = above ++ s!"Completed {j} frames.\n" ++ below) ∧
            ran.2.written = (o.screenshot.map (·,last.raster.frame.pixmap)).toList ∧ last.raster.frame.Views ∧
            ran.1 = if j = o.frames.toNat then 0 else 1 := by
  intro ran config
  refine ⟨?unloaded,?loaded⟩
  case unloaded =>
    intro unloaded
    obtain ⟨errors,ended⟩ := o.play_unloaded _ unloaded
    have left : ran = _ := files.ran_session parsed (files.session_unplayed {} ended)
    rw [left]
    exact ⟨rfl,rfl,rfl⟩
  case loaded =>
    intro image started read loaded
    obtain ⟨p,j,played,completed,last,ended,output⟩ := o.play_loaded loaded
    rw [← read] at played
    obtain ⟨errors,session⟩ := files.session_played {} played writable
    -- A screenshot that can be written changes neither the output nor the status.
    obtain ⟨printed,code⟩ := o.conclude_writable p
    have left : ran = _ := files.ran_session parsed session
    have account := o.account_printed started.machine p.machine j
    rw [← output,← printed] at account
    rw [left]
    refine ⟨j,completed,?_⟩
    rw [← last]
    simp only [String.empty_append]
    refine ⟨account,o.account_counts account,rfl,Frame.views _,?_⟩
    rw [code]
    simp only [ended]

theorem twoFrames_ran :
    let files : Files := ⟨fun _ => .ok (Cartridge.singleBanked 0),fun _ => none⟩
    let o : Options := {rom := "game.nes",frames := 2,dumpCpu := true,dumpPpu := true,screenshot := some "out.ppm"}
    let arguments := ["--rom=game.nes","-f2","-cp","--screenshot","out.ppm"]
    let parse := fun given => if given = arguments then .ok o else .error ⟨2,"","unexpected arguments\n"⟩
    parse arguments = .ok o ∧ (∀ path ∈ o.screenshot, files.refuses path = none) ∧
      ∃ started, Machine.load (Cartridge.singleBanked 0) {cyclesPerFrame := 29780,policy := .skip} = .ok started ∧
        let last := started.machine.afterFrames 2
        Prints (o.account started.machine last 2) (files.ran parse arguments).2.output ∧
          (∃ above below, (files.ran parse arguments).2.output =
            above ++ "Completed 2 frames.\n" ++ below) ∧
          (files.ran parse arguments).2.written = [("out.ppm",last.raster.frame.pixmap)] ∧
          (files.ran parse arguments).1 = 0 := by
  intro files o arguments parse
  have parsed : parse arguments = .ok o := if_pos rfl
  have writable : ∀ path ∈ o.screenshot, files.refuses path = none := fun _ _ => rfl
  have loaded := Machine.load_made (Cartridge.load_singleBanked 0 .nrom rfl rfl) o.config
  obtain ⟨j,⟨⟨within,_⟩,greatest⟩,output,counted,written,_,code⟩ :=
    (ran_folds parse files parsed writable).2 _ _ rfl loaded
  have both : j = 2 := by
    refine Nat.le_antisymm within (greatest ⟨Nat.le_refl 2,?_⟩)
    intro i _
    rw [Machine.afterFrames_failure,(Machine.afterFrames_skips _ rfl rfl (i + 1)).1]
    rfl
  have asked : 2 = o.frames.toNat := rfl
  rw [both,Machine.lastOf,if_pos asked] at output written
  have text : s!"Completed {2} frames.\n" = "Completed 2 frames.\n" := by decide
  rw [both,text] at counted
  rw [both,if_pos asked] at code
  exact ⟨parsed,writable,_,loaded,output,counted,written,code⟩

end Files
end Famicom
