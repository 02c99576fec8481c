import Famicom.Proofs.Console.Storage
import Mathlib.Logic.Function.Basic

namespace Famicom

variable {μ κ : Type} [AddressSpace μ] [DecidableEq κ]

-- A memory in a state in which some of its addresses name cells. A cell keeps what is written to it, and neither a read
-- nor the end of a stall changes any.
structure Cells (stands : μ → Prop) (cell? : UInt16 → Option κ) (shown : μ → κ → UInt8) : Prop where
  read : ∀ m a, stands m → stands (AddressSpace.read m a).2 ∧ shown (AddressSpace.read m a).2 = shown m ∧
    ∀ k, cell? a = some k → (AddressSpace.read m a).1 = shown m k
  write : ∀ m a v k, stands m → cell? a = some k →
    stands (AddressSpace.write m a v) ∧ shown (AddressSpace.write m a v) = Function.update (shown m) k v
  stall : ∀ m, stands m → stands (AddressSpace.takeStall m).2 ∧ shown (AddressSpace.takeStall m).2 = shown m

theorem FlatMemory.allCells : Cells (fun _ : FlatMemory => True) some FlatMemory.get where
  read m a _ := ⟨trivial,rfl,fun k same => congrArg m.get (Option.some.inj same)⟩
  write m a v k _ same := by
    obtain rfl : a = k := Option.some.inj same
    refine ⟨trivial,?_⟩
    funext b
    by_cases here : b = a
    · rw [here,Function.update_self]
      exact m.get_set_same a v
    · rw [Function.update_of_ne here]
      exact m.get_set_other a b v (Ne.symm here)
  stall _ _ := ⟨trivial,rfl⟩

namespace Bus

def Saving (saves : Bool) (b : Bus) : Prop :=
  saves = true → b.cartridge.ram.isSome = true ∧ b.cartridge.mapper.ramEnabled = true

-- On the bus the cells are those of work memory, each under four addresses, and of save memory.
def cell? (saves : Bool) (a : UInt16) : Option (Fin 0x800 ⊕ Fin 0x2000) :=
  if a < 0x2000 then some (.inl (workCell a))
  else if saves ∧ 0x6000 ≤ a ∧ a < 0x8000 then some (.inr (Cartridge.ramCell a))
  else none

def cellShown (b : Bus) (k : Fin 0x800 ⊕ Fin 0x2000) : UInt8 :=
  match k with
  | .inl cell => b.ram.get cell
  | .inr cell => (b.cartridge.ram.map (·.get cell)).getD 0

theorem cellShown_work (b : Bus) (cell : Fin 0x800) (v : UInt8) :
    cellShown {b with ram := b.ram.set cell v cell.isLt} = Function.update (cellShown b) (.inl cell) v := by
  funext k
  cases k with
  | inl other => simp only [cellShown,get_set,Function.update_apply,Sum.inl.injEq,Fin.ext_iff,eq_comm]
  | inr other =>
      rw [Function.update_of_ne (by simp)]
      rfl

theorem cellShown_save (b : Bus) {ram : Vector UInt8 0x2000} (present : b.cartridge.ram = some ram) (cell : Fin 0x2000)
    (v : UInt8) : cellShown {b with cartridge := {b.cartridge with ram := some (ram.set cell v)}} =
      Function.update (cellShown b) (.inr cell) v := by
  funext k
  cases k with
  | inl other =>
      rw [Function.update_of_ne (by simp)]
      rfl
  | inr other =>
      simp only [cellShown,present,Option.map_some,Option.getD_some,get_set,Function.update_apply,Sum.inr.injEq,
        Fin.ext_iff,eq_comm]

theorem memoryCells (saves : Bool) : Cells (Saving saves) (cell? saves) cellShown where
  read b a standing := by
    have cartridge := b.read_cartridge a
    have same : cellShown (b.read a).2 = cellShown b := by
      funext k
      cases k with
      | inl cell => exact congrArg (·.get cell) (b.read_ram a)
      | inr cell => exact congrArg (fun c => (c.ram.map (·.get cell)).getD 0) cartridge
    refine ⟨?_,same,?_⟩
    · change Saving saves (b.read a).2
      rwa [Saving,cartridge]
    · intro k named
      change (b.read a).1 = cellShown b k
      rw [cell?] at named
      split at named
      · rename_i low
        cases named
        rw [read,containing_work low]
        rfl
      · split at named
        · rename_i high
          -- An address in this range names a cell only where save memory is there and answers.
          obtain ⟨present,enabled⟩ := standing high.1
          obtain ⟨ram,present⟩ := Option.isSome_iff_exists.mp present
          cases named
          rw [read,containing_save high.2.1 high.2.2]
          simp only [Cartridge.ramRead,present,enabled,cellShown]
          rfl
        · cases named
  write b a v k standing named := by
    change Saving saves (b.write a v) ∧ cellShown (b.write a v) = _
    rw [cell?] at named
    split at named
    · rename_i low
      cases named
      rw [write,containing_work low]
      exact ⟨standing,b.cellShown_work _ v⟩
    · split at named
      · rename_i high
        obtain ⟨present,enabled⟩ := standing high.1
        obtain ⟨ram,present⟩ := Option.isSome_iff_exists.mp present
        cases named
        rw [write,containing_save high.2.1 high.2.2]
        simp only [Cartridge.ramWrite,present,enabled,if_true]
        exact ⟨fun _ => ⟨rfl,enabled⟩,b.cellShown_save present _ v⟩
      · cases named
  stall _ standing := ⟨standing,rfl⟩

end Bus

end Famicom
