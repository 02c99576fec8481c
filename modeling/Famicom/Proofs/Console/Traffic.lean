import Famicom.Proofs.Cartridge.Descent
import Famicom.Proofs.Console.Accounting
import Famicom.Proofs.Console.Halting

namespace Famicom

namespace Drive

variable {μ ν : Type} [AddressSpace μ] [AddressSpace ν]

def done (d : Drive) (cpu : Cpu) (m : μ) : Cpu × μ :=
  match d with
  | .step => ((cpu.step m).cpu,(cpu.step m).memory)
  | .nmi => cpu.nmi m
  | .irq => (cpu.irq m).2
  | .read a => (cpu,(AddressSpace.read m a).2)
  | .write a v => (cpu,AddressSpace.write m a v)

theorem done_after (s : Board) (d : Drive) : s.after d = ⟨(d.done s.cpu s.bus).1,(d.done s.cpu s.bus).2⟩ := by
  cases d <;> rfl

theorem done_faithful {f : ν → μ} (faithful : Faithful f) (d : Drive) (cpu : Cpu) (n : ν) :
    (d.done cpu n).1 = (d.done cpu (f n)).1 ∧ f (d.done cpu n).2 = (d.done cpu (f n)).2 := by
  cases d with
  | step => exact (faithful.step cpu n).2
  | nmi => exact faithful.interrupt nmiVector cpu n
  | irq =>
      simp only [done,Cpu.irq]
      split
      · exact ⟨rfl,rfl⟩
      · exact faithful.interrupt irqVector cpu n
  | read a => exact ⟨rfl,(faithful.read n a).2⟩
  | write a v => exact ⟨rfl,faithful.write n a v⟩

theorem done_lasting {holds : μ → Prop} (lasting : Lasting holds) (d : Drive) (cpu : Cpu) (m : μ) (start : holds m) :
    holds (d.done cpu m).2 := by
  let _ := lasting.space
  have same := (done_faithful lasting.faithful d cpu ⟨m,start⟩).2
  rw [← same]
  exact (d.done cpu (⟨m,start⟩ : {m : μ // holds m})).2.property

end Drive

inductive Ppu.Poke where
  | control (v : UInt8)
  | mask (v : UInt8)
  | report (v : UInt8)
  | storeOam (v : UInt8)
  | beginFrame
  | enterVblank
  | publishSprites (hit overflow : Bool)
  | powerOn
  deriving DecidableEq, Repr

def Ppu.poked (p : Ppu) (poke : Poke) : Ppu :=
  match poke with
  | .control v => {p with control := ⟨v⟩}
  | .mask v => {p with mask := ⟨v⟩}
  | .report v => {p with report := .ofByte v}
  | .storeOam v => p.storeOam v
  | .beginFrame => p.beginFrame
  | .enterVblank => p.enterVblank
  | .publishSprites hit overflow => p.publishSprites hit overflow
  | .powerOn => .powerOn

def Bus.poked (b : Bus) (poke : Ppu.Poke) : Bus := {b with ppu := b.ppu.poked poke}

def Bus.writeVideo (b : Bus) (a : UInt16) (v : UInt8) : Bus :=
  {b with ppu := (b.ppu.write b.cartridge a v).1,cartridge := (b.ppu.write b.cartridge a v).2}

inductive Touch where
  | drive (d : Drive)
  | peek (a : UInt16)
  | peekVideo (a : UInt16)
  | writeVideo (a : UInt16) (v : UInt8)
  | poke (poke : Ppu.Poke)
  | takeStall
  | powerCycle
  deriving DecidableEq, Repr

inductive Move where
  | act (a : Act)
  | touch (t : Touch)
  | reset
  deriving DecidableEq, Repr

namespace Hardware

def board (h : Hardware) : Board := ⟨h.cpu,h.bus⟩

def touched (h : Hardware) (t : Touch) : Hardware :=
  match t with
  | .drive d => h.put (d.done h.cpu h.bus).1 (d.done h.cpu h.bus).2
  | .peek _ | .peekVideo _ => h
  | .writeVideo a v => {h with bus := h.bus.writeVideo a v}
  | .poke poke => {h with bus := h.bus.poked poke}
  | .takeStall => {h with bus := (AddressSpace.takeStall h.bus).2}
  | .powerCycle => {h with bus := h.bus.powerCycle}

def reset (h : Hardware) : Hardware :=
  ⟨(Cpu.reset h.bus.powerCycle).1,(Cpu.reset h.bus.powerCycle).2,{},0⟩

def move (h : Hardware) (m : Move) : Hardware :=
  match m with
  | .act a => h.act a
  | .touch t => h.touched t
  | .reset => h.reset

def after (h : Hardware) (moves : List Move) : Hardware := moves.foldl move h

theorem after_append (h : Hardware) (moves more : List Move) : h.after (moves ++ more) = (h.after moves).after more :=
  List.foldl_append

theorem after_acts (h : Hardware) (acts : List Act) : h.after (acts.map .act) = h.play acts :=
  List.foldl_map

def actsToFault (h : Hardware) (acts : List Act) : List Act :=
  match acts with
  | [] => []
  | a :: rest => if (h.fault? a).isSome then [a] else a :: (h.act a).actsToFault rest

theorem playToFault_acts (h : Hardware) (acts : List Act) : (h.playToFault acts).1 = h.play (h.actsToFault acts) := by
  induction acts generalizing h with
  | nil => rfl
  | cons a acts ih =>
      rw [actsToFault,playToFault]
      cases fault : h.fault? a with
      | some e => rfl
      | none => exact ih (h.act a)

end Hardware

-- A property of buses that nothing which happens to the console can end.
structure Abiding (holds : Bus → Prop) : Prop where
  lasting : Lasting holds
  poked : ∀ b poke, holds b → holds (b.poked poke)
  writeVideo : ∀ b a v, holds b → holds (b.writeVideo a v)
  powerCycle : ∀ b, holds b → holds b.powerCycle

namespace Abiding

variable {holds : Bus → Prop}

theorem act (abiding : Abiding holds) (h : Hardware) (a : Act) (start : holds h.bus) : holds (h.act a).bus := by
  cases a with
  | begin => exact abiding.poked _ .beginFrame start
  | instruction => exact abiding.lasting.step _ _ start
  | publish => exact abiding.poked _ (.publishSprites _ _) start
  | blank =>
      have blanked := abiding.poked _ .enterVblank start
      simp only [Hardware.act]
      split
      · exact abiding.lasting.interrupt nmiVector _ _ blanked
      · exact blanked
  | draw | count => exact start

theorem touched (abiding : Abiding holds) (h : Hardware) (t : Touch) (start : holds h.bus) :
    holds (h.touched t).bus := by
  cases t with
  | drive d => exact d.done_lasting abiding.lasting _ _ start
  | peek | peekVideo => exact start
  | writeVideo a v => exact abiding.writeVideo _ a v start
  | poke poke => exact abiding.poked _ poke start
  | takeStall => exact abiding.lasting.stall _ start
  | powerCycle => exact abiding.powerCycle _ start

theorem move (abiding : Abiding holds) (h : Hardware) (m : Move) (start : holds h.bus) : holds (h.move m).bus := by
  cases m with
  | act a => exact abiding.act h a start
  | touch t => exact abiding.touched h t start
  | reset =>
      have low := abiding.lasting.read _ resetVector (abiding.powerCycle _ start)
      exact abiding.lasting.read _ (resetVector + 1) low

theorem after (abiding : Abiding holds) (h : Hardware) (moves : List Move) (start : holds h.bus) :
    holds (h.after moves).bus := by
  induction moves generalizing h with
  | nil => exact start
  | cons m moves ih => exact ih (h.move m) (abiding.move h m start)

end Abiding

theorem Bus.descends_abiding (c : Cartridge) : Abiding fun b : Bus => c.Descends b.cartridge where
  lasting := descends_lasting c
  poked _ _ descends := descends
  writeVideo b a v descends := b.ppu.write_descends descends a v
  powerCycle _ descends := descends.powerOn

inductive Request where
  | frame
  | touch (t : Touch)
  | reset
  deriving DecidableEq, Repr

inductive Answer where
  | nothing
  | byte (v : UInt8)
  | cycles (n : UInt32)
  | stepped (outcome : Except UnknownOpcode UInt32)
  | taken (yes : Bool)
  | frame (failure : Option Failure)

namespace Hardware

def answer (h : Hardware) (t : Touch) : Answer :=
  match t with
  | .drive .step => .stepped (h.cpu.step h.bus).outcome
  | .drive .irq => .taken (h.cpu.irq h.bus).1
  | .drive (.read a) => .byte (h.bus.read a).1
  | .peek a => .byte (h.bus.peek a)
  | .peekVideo a => .byte (h.bus.peekVideo a)
  | .poke .enterVblank => .taken h.bus.ppu.control.nmiEnabled
  | .takeStall => .cycles h.bus.stall
  | _ => .nothing

def records (h : Hardware) (t : Touch) : List Record :=
  match t with
  | .drive d => (d.done h.cpu {bus := h.bus : Journal}).2.records.reverse
  | _ => []

end Hardware

structure Reply where
  machine : Machine
  answer : Answer
  records : List Record

namespace Machine

def holding (m : Machine) (h : Hardware) : Machine :=
  {m with cpu := h.cpu,bus := h.bus,raster := h.raster,frames := h.frames}

def serve (m : Machine) (r : Request) : Reply :=
  match r with
  | .frame => ⟨m.runFrame.machine,.frame m.runFrame.failure?,m.runFrame.records⟩
  | .touch t => ⟨m.holding (m.hardware.touched t),m.hardware.answer t,m.hardware.records t⟩
  | .reset => ⟨m.reset.machine,.nothing,m.reset.records⟩

def serveAll (m : Machine) (requests : List Request) : Machine :=
  requests.foldl (fun m r => (m.serve r).machine) m

def transcript (m : Machine) (requests : List Request) : List (Answer × List Record) :=
  match requests with
  | [] => []
  | r :: rest => ((m.serve r).answer,(m.serve r).records) :: (m.serve r).machine.transcript rest

def actsDone (m : Machine) : List Act :=
  match m.halted, m.config.policy with
  | some _, _ => []
  | none, .skip => m.config.acts
  | none, .halt => m.hardware.actsToFault m.config.acts

def moves (m : Machine) (r : Request) : List Move :=
  match r with
  | .frame => m.actsDone.map .act
  | .touch t => [.touch t]
  | .reset => [.reset]

def history (m : Machine) (requests : List Request) : List Move :=
  match requests with
  | [] => []
  | r :: rest => m.moves r ++ (m.serve r).machine.history rest

theorem runFrame_hardware (m : Machine) : m.runFrame.machine.hardware = m.hardware.play m.actsDone := by
  unfold actsDone
  split
  · rename_i stopped
    rw [m.halted_frame (by rw [stopped]; rfl)]
    rfl
  · rename_i running skips
    exact (m.runFrame_skips running skips).2
  · rename_i running halts
    rw [← Hardware.playToFault_acts,m.runFrame_halts running halts]

theorem serve_moves (m : Machine) (r : Request) : (m.serve r).machine.hardware = m.hardware.after (m.moves r) := by
  cases r with
  | frame =>
      rw [moves,Hardware.after_acts]
      exact m.runFrame_hardware
  | touch | reset => rfl

theorem serve_config (m : Machine) (r : Request) : (m.serve r).machine.config = m.config := by
  cases r with
  | frame => exact m.runFrame_config
  | touch | reset => rfl

theorem serveAll_moves (m : Machine) (requests : List Request) :
    (m.serveAll requests).hardware = m.hardware.after (m.history requests) := by
  induction requests generalizing m with
  | nil => rfl
  | cons r requests ih =>
      rw [history,Hardware.after_append,← serve_moves]
      exact ih (m.serve r).machine

theorem serveAll_config (m : Machine) (requests : List Request) : (m.serveAll requests).config = m.config := by
  induction requests generalizing m with
  | nil => rfl
  | cons r requests ih => exact (ih (m.serve r).machine).trans (m.serve_config r)

theorem serveAll_keeps {holds : Bus → Prop} (abiding : Abiding holds) (m : Machine) (requests : List Request)
    (start : holds m.bus) : holds (m.serveAll requests).bus := by
  have all := abiding.after m.hardware (m.history requests) start
  rw [← serveAll_moves] at all
  exact all

end Machine
end Famicom
