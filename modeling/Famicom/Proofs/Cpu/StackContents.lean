import Famicom.Proofs.Cpu.Accesses

namespace Famicom

open AddressSpace
open Accesses (stackCell stackTop_eq)

variable {m m' : FlatMemory} {r : Registers} {sp v : UInt8} {bytes : List UInt8}

-- The byte pushed last comes first.
def Lies (m : FlatMemory) (sp : UInt8) (bytes : List UInt8) : Prop :=
  match bytes with
  | [] => True
  | v :: rest => m.get (stackCell (sp + 1)) = v ∧ Lies m (sp + 1) rest

theorem stackCell_injective (sp sp' : UInt8) (same : stackCell sp = stackCell sp') : sp = sp' := by
  have cells := congrArg UInt16.toNat same
  have := sp.toNat_lt
  have := sp'.toNat_lt
  simp only [stackCell,UInt16.toNat_add,UInt8.toNat_toUInt16,UInt16.reduceToNat] at cells
  apply UInt8.toNat_inj.mp
  omega

theorem stackCell_page (sp : UInt8) : 0x0100 ≤ stackCell sp ∧ stackCell sp ≤ 0x01FF := by
  have := sp.toNat_lt
  constructor <;>
    · rw [UInt16.le_iff_toNat_le]
      simp only [stackCell,UInt16.toNat_add,UInt8.toNat_toUInt16,UInt16.reduceToNat]
      omega

theorem Lies.agree (lies : Lies m sp bytes) (same : ∀ sp, m'.get (stackCell sp) = m.get (stackCell sp)) :
    Lies m' sp bytes := by
  induction bytes generalizing sp with
  | nil => trivial
  | cons v rest ih =>
      obtain ⟨top,below⟩ := lies
      exact ⟨(same _).trans top,ih below⟩

theorem Lies.set (lies : Lies m sp bytes) (c : UInt8) (past : bytes.length ≤ (c - (sp + 1)).toNat) :
    Lies (m.set (stackCell c) v) sp bytes := by
  induction bytes generalizing sp with
  | nil => trivial
  | cons w rest ih =>
      obtain ⟨top,below⟩ := lies
      rw [List.length_cons] at past
      have elsewhere : c ≠ sp + 1 := by
        rintro rfl
        simp at past
      have nearer : rest.length ≤ (c - (sp + 1 + 1)).toNat := by
        simp only [UInt8.toNat_sub,UInt8.toNat_add,UInt8.reduceToNat] at past ⊢
        omega
      refine ⟨?_,ih below nearer⟩
      rw [FlatMemory.get_set_other _ _ _ _ (fun same => elsewhere (stackCell_injective _ _ same)),top]

theorem push_eq (v : UInt8) (r : Registers) (m : FlatMemory) :
    Stack.push v r m = ({r with sp := r.sp - 1},m.set (stackCell r.sp) v) := by
  simp only [Stack.push,stackTop_eq]
  rfl

theorem Lies.push (lies : Lies m r.sp bytes) (room : bytes.length < 256) (v : UInt8) :
    Lies (Stack.push v r m).2 (Stack.push v r m).1.sp (v :: bytes) := by
  have top : r.sp - 1 + 1 = r.sp := by grind
  have past : bytes.length ≤ (r.sp - (r.sp + 1)).toNat := by
    have furthest : r.sp - (r.sp + 1) = 255 := by grind
    rw [furthest]
    exact Nat.le_of_lt_succ room
  rw [push_eq]
  refine ⟨?_,?_⟩
  · rw [top,FlatMemory.get_set_same]
  · rw [top]
    exact lies.set r.sp past

theorem Lies.pushWord (lies : Lies m r.sp bytes) (room : bytes.length + 1 < 256) (w : UInt16) :
    Lies (Stack.pushWord w r m).2 (Stack.pushWord w r m).1.sp (lowByte w :: highByte w :: bytes) := by
  have high := lies.push (by omega) (highByte w)
  exact high.push room (lowByte w)

theorem Lies.pull (lies : Lies m r.sp (v :: bytes)) :
    Stack.pull r m = (v,{r with sp := r.sp + 1},m) ∧ Lies m ({r with sp := r.sp + 1} : Registers).sp bytes := by
  obtain ⟨top,below⟩ := lies
  refine ⟨?_,below⟩
  simp only [Stack.pull,stackTop_eq,AddressSpace.read,top]

theorem Lies.pullWord {w : UInt16} (lies : Lies m r.sp (lowByte w :: highByte w :: bytes)) :
    Stack.pullWord r m = (w,{r with sp := r.sp + 1 + 1},m) ∧
      Lies m ({r with sp := r.sp + 1 + 1} : Registers).sp bytes := by
  obtain ⟨low,between⟩ := lies.pull
  obtain ⟨high,below⟩ := between.pull
  refine ⟨?_,below⟩
  simp only [Stack.pullWord,low,high,word_low_high]

-- A cell without a recorded write still holds what it held in the memory that the recording began with.
def Spared (m : FlatMemory) (n : Recorded FlatMemory) : Prop :=
  ∀ a, (∀ v, .write a v ∉ n.accesses) → n.memory.get a = m.get a

theorem spared_lasting (m : FlatMemory) : Lasting (Spared m) where
  read n a spared b unwritten := spared b fun v written => unwritten v (List.mem_cons_of_mem _ written)
  write n a v spared b unwritten := by
    have elsewhere : a ≠ b := by
      rintro rfl
      exact unwritten v List.mem_cons_self
    have earlier := spared b fun w written => unwritten w (List.mem_cons_of_mem _ written)
    exact (FlatMemory.get_set_other _ _ _ _ elsewhere).trans earlier
  stall n spared := spared

theorem step_spares (cpu : Cpu) (m : FlatMemory) (a : UInt16)
    (unwritten : ∀ v, .write a v ∉ (cpu.step (⟨m,[]⟩ : Recorded FlatMemory)).memory.accesses) :
    (cpu.step m).memory.get a = m.get a := by
  have same := (recorded_faithful.step cpu (⟨m,[]⟩ : Recorded FlatMemory)).2.2
  rw [← same]
  exact (spared_lasting m).step cpu ⟨m,[]⟩ (fun _ _ => rfl) a unwritten

end Famicom
