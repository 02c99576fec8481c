import Famicom.Proofs.Console.Traffic

namespace Famicom

namespace Board

theorem charged_lt (s : Board) (d : Drive) : s.charged d < UInt32.size := by
  cases d with
  | step =>
      simp only [charged]
      cases (s.cpu.step s.bus).outcome with
      | ok spent => exact spent.toNat_lt
      | error e =>
          show 2 < UInt32.size
          decide
  | irq =>
      simp only [charged]
      split <;> decide
  | nmi =>
      show 7 < UInt32.size
      decide
  | read | write =>
      show 0 < UInt32.size
      decide

theorem after_instructions (s : Board) (d : Drive) :
    (s.after d).cpu.instructions = s.cpu.instructions + if d = .step then 1 else 0 := by
  cases d with
  | step => exact s.cpu.step_instructions s.bus
  | irq =>
      simp only [after,Cpu.irq]
      split <;> exact (UInt64.add_zero _).symm
  | nmi | read | write => exact (UInt64.add_zero _).symm

end Board

namespace Hardware

variable {h : Hardware} {m : Move} {moves : List Move} {d : Drive} {earlier : Nat}

-- The board that the processor works on in a move. The blank has begun before its interrupt.
def working (h : Hardware) (m : Move) : Board :=
  match m with
  | .act .blank => ⟨h.cpu,h.bus.poked .enterVblank⟩
  | _ => h.board

def driving? (h : Hardware) (m : Move) : Option Drive :=
  match m with
  | .act .instruction => some .step
  | .act .blank => if h.bus.ppu.control.nmiEnabled then some .nmi else none
  | .touch (.drive d) => some d
  | _ => none

def charged (h : Hardware) (m : Move) : Nat := ((h.driving? m).map (h.working m).charged).getD 0

def transfers (h : Hardware) (m : Move) : Nat := ((h.driving? m).map (h.working m).transfers).getD 0

def retired (h : Hardware) (m : Move) : Nat := if h.driving? m = some .step then 1 else 0

def uncollected (h : Hardware) (m : Move) (earlier : Nat) : Nat :=
  match m with
  | .touch .takeStall | .touch .powerCycle | .reset => 0
  | _ => ((h.driving? m).map ((h.working m).outstanding earlier)).getD earlier

structure Low (h : Hardware) : Prop where
  cycles : h.cpu.cycles.toNat < 0x8000000000000000
  instructions : h.cpu.instructions.toNat < 0x8000000000000000
  frames : h.frames.toNat < 0x8000000000000000

instance Low.decidable (h : Hardware) : Decidable h.Low :=
  decidable_of_iff (_ ∧ _ ∧ _) ⟨fun ⟨cycles,instructions,frames⟩ => ⟨cycles,instructions,frames⟩,
    fun low => ⟨low.cycles,low.instructions,low.frames⟩⟩

-- At each move the counters are low, and the transfers not yet collected can be counted.
def Paced (h : Hardware) (earlier : Nat) (moves : List Move) : Prop :=
  match moves with
  | [] => True
  | m :: rest => h.Low ∧ 513 * (earlier + h.transfers m) < UInt32.size ∧
      (h.move m).Paced (h.uncollected m earlier) rest

instance Paced.decidable (h : Hardware) (earlier : Nat) (moves : List Move) : Decidable (h.Paced earlier moves) :=
  match moves with
  | [] => .isTrue trivial
  | m :: rest =>
    let _ := Paced.decidable (h.move m) (h.uncollected m earlier) rest
    inferInstanceAs (Decidable (_ ∧ _ ∧ _))

structure Counts (h : Hardware) (m : Move) : Prop where
  cycles : m ≠ .reset → (h.move m).cpu.cycles.toNat = h.cpu.cycles.toNat + h.charged m
  instructions : m ≠ .reset → (h.move m).cpu.instructions.toNat = h.cpu.instructions.toNat + h.retired m
  frames : m ≠ .reset → (h.move m).frames.toNat = h.frames.toNat + if m = .act .count then 1 else 0
  -- The stall grows by 513 cycles with each transfer until an instruction takes all of it.
  stall : ∀ d, h.driving? m = some d → (h.working m).Accounted d

theorem working_start (h : Hardware) (m : Move) :
    (h.working m).cpu = h.cpu ∧ (h.working m).bus.stall = h.bus.stall := by
  unfold working
  split <;> exact ⟨rfl,rfl⟩

theorem move_drives (drives : h.driving? m = some d) :
    (h.move m).board = (h.working m).after d ∧ (h.move m).frames = h.frames := by
  cases m with
  | act a =>
      cases a with
      | instruction =>
          cases drives
          exact ⟨rfl,rfl⟩
      | blank =>
          simp only [driving?] at drives
          split at drives
          · rename_i enabled
            cases drives
            have blanked : h.act .blank = (h.touched (.poke .enterVblank)).touched (.drive .nmi) := if_pos enabled
            rw [move,blanked]
            exact ⟨rfl,rfl⟩
          · cases drives
      | begin | draw | publish | count => cases drives
  | touch t =>
      cases t with
      | drive e =>
          cases drives
          exact ⟨(Drive.done_after h.board d).symm,rfl⟩
      | peek | peekVideo | writeVideo | poke | takeStall | powerCycle => cases drives
  | reset => cases drives

theorem move_rests (rests : h.driving? m = none) (running : m ≠ .reset) :
    (h.move m).cpu = h.cpu ∧ (h.move m).frames = h.frames + if m = .act .count then 1 else 0 := by
  cases m with
  | act a =>
      cases a with
      | instruction => cases rests
      | blank =>
          simp only [driving?] at rests
          split at rests
          · cases rests
          · rename_i disabled
            have blanked : h.act .blank = h.touched (.poke .enterVblank) := if_neg disabled
            rw [move,blanked]
            exact ⟨rfl,(UInt64.add_zero _).symm⟩
      | count => exact ⟨rfl,rfl⟩
      | begin | draw | publish => exact ⟨rfl,(UInt64.add_zero _).symm⟩
  | touch t =>
      cases t with
      | drive => cases rests
      | peek | peekVideo | writeVideo | poke | takeStall | powerCycle => exact ⟨rfl,(UInt64.add_zero _).symm⟩
  | reset => exact absurd rfl running

theorem uncollected_drives (drives : h.driving? m = some d) (earlier : Nat) :
    h.uncollected m earlier = (h.working m).outstanding earlier d := by
  unfold uncollected
  split
  · cases drives
  · cases drives
  · cases drives
  · rw [drives]
    rfl

theorem rests_stall (rests : h.driving? m = none) (pending : h.bus.stall.toNat = 513 * earlier) :
    (h.move m).bus.stall.toNat = 513 * h.uncollected m earlier := by
  cases m with
  | act a =>
      have same : (h.act a).bus.stall = h.bus.stall := by
        cases a with
        | instruction => cases rests
        | blank =>
            simp only [driving?] at rests
            split at rests
            · cases rests
            · rename_i disabled
              have blanked : h.act .blank = h.touched (.poke .enterVblank) := if_neg disabled
              rw [blanked]
              rfl
        | begin | draw | publish | count => rfl
      rw [uncollected,rests,move,same]
      · exact pending
      all_goals nofun
  | touch t =>
      cases t with
      | drive => cases rests
      | peek | peekVideo | writeVideo | poke => exact pending
      | takeStall | powerCycle => rfl
  | reset => rfl

theorem drives_counts (drives : h.driving? m = some d) (low : h.Low) (accounted : (h.working m).Accounted d) :
    h.Counts m := by
  obtain ⟨cycles,instructions,_⟩ := low
  obtain ⟨after,frames⟩ := move_drives drives
  have cpu : (h.move m).cpu = ((h.working m).after d).cpu := congrArg Board.cpu after
  have start := (h.working_start m).1
  have charge : h.charged m = (h.working m).charged d := by
    rw [charged,drives]
    rfl
  have few := (h.working m).charged_lt d
  have kind : m ≠ .act .count := fun same => by
    rw [same] at drives
    cases drives
  -- The charge of one drive is far below what the counters in their lower half have room for.
  rw [UInt32.size] at few
  refine ⟨?_,?_,?_,?_⟩
  · intro _
    rw [cpu,accounted.cycles,start,UInt64.toNat_add,UInt64.toNat_ofNat',charge]
    omega
  · intro _
    rw [cpu,Board.after_instructions,start,UInt64.toNat_add,retired,drives]
    simp only [Option.some.injEq]
    split <;> simp only [UInt64.reduceToNat] <;> omega
  · intro _
    rw [frames,if_neg kind]
    rfl
  · intro e driving
    rw [drives] at driving
    cases driving
    exact accounted

theorem rests_counts (rests : h.driving? m = none) (low : h.Low) : h.Counts m := by
  have frames := low.frames
  refine ⟨?_,?_,?_,?_⟩
  · intro running
    rw [(move_rests rests running).1,charged,rests]
    rfl
  · intro running
    rw [(move_rests rests running).1,retired,rests]
    rfl
  · intro running
    rw [(move_rests rests running).2,UInt64.toNat_add]
    split <;> simp only [UInt64.reduceToNat] <;> omega
  · intro d drives
    rw [rests] at drives
    cases drives

theorem move_counts (m : Move) (low : h.Low) (fits : 513 * (earlier + h.transfers m) < UInt32.size)
    (pending : h.bus.stall.toNat = 513 * earlier) :
    h.Counts m ∧ (h.move m).bus.stall.toNat = 513 * h.uncollected m earlier := by
  cases driving : h.driving? m with
  | none => exact ⟨rests_counts driving low,rests_stall driving pending⟩
  | some d =>
      have start : (h.working m).bus.stall.toNat = 513 * earlier := by
        rw [(h.working_start m).2]
        exact pending
      rw [transfers,driving] at fits
      have accounted := (h.working m).accounted d earlier start fits
      refine ⟨drives_counts driving low accounted,?_⟩
      rw [uncollected_drives driving,← accounted.outstanding start]
      exact congrArg (fun s => s.bus.stall.toNat) (move_drives driving).1

theorem Paced.counts (paced : h.Paced earlier moves) (pending : h.bus.stall.toNat = 513 * earlier) (before : List Move)
    (m : Move) (rest : List Move) (split : moves = before ++ m :: rest) : (h.after before).Counts m := by
  induction moves generalizing h earlier before with
  | nil => cases before <;> cases split
  | cons first moves ih =>
      obtain ⟨low,fits,later⟩ := paced
      obtain ⟨counts,settled⟩ := move_counts first low fits pending
      cases before with
      | nil =>
          cases split
          exact counts
      | cons b before =>
          cases split
          exact ih later settled before rfl

end Hardware
end Famicom
