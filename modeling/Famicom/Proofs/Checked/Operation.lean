import Famicom.Picture.Raster

namespace Famicom.Checked

variable {α β : Type} {n : Nat}

-- No operation has a result where a machine that checks would stop: at a remainder by zero, a difference
-- below zero, a sum or a product that does not fit, a shift by the whole width, a place outside a table.
def remainder? (a b : Nat) : Option Nat := if b = 0 then none else some (a % b)

def difference? (a b : Nat) : Option Nat := if b ≤ a then some (a - b) else none

def sum? (a b : UInt64) : Option UInt64 := if a.toNat + b.toNat < UInt64.size then some (a + b) else none

def product? (a b : UInt64) : Option UInt64 := if a.toNat * b.toNat < UInt64.size then some (a * b) else none

def size? (a : Nat) : Option Nat := if a < UInt64.size then some a else none

def address? (a : Nat) : Option UInt16 := if a < UInt16.size then some (UInt16.ofNat a) else none

def shiftRight? (v : UInt8) (places : Nat) : Option UInt8 :=
  if places < 8 then some (v >>> UInt8.ofNat places) else none

def shiftLeft? {width : Nat} (v : BitVec width) (places : Nat) : Option (BitVec width) :=
  if places < width then some (v <<< places) else none

def next? (i : Fin n) : Option (Fin n) := if below : i.val + 1 < n then some ⟨i.val + 1,below⟩ else none

def put? (bytes : Array α) (i : Nat) (v : α) : Option (Array α) :=
  if i < bytes.size then some (bytes.setIfInBounds i v) else none

def set? (cells : Vector α n) (i : Nat) (v : α) : Option (Vector α n) :=
  if inside : i < n then some (cells.set i v) else none

def slice? (bytes : Array α) (start length : Nat) : Option (Array α) :=
  if start + length ≤ bytes.size then some (bytes.extract start (start + length)) else none

def rounds? (n : Nat) (round : Nat → α → Option α) (start : α) : Option α :=
  Nat.fold n (fun i _ a => a.bind (round i)) (some start)

theorem remainder?_eq {a b : Nat} (some : 0 < b) : remainder? a b = .some (a % b) :=
  if_neg (Nat.ne_of_gt some)

theorem difference?_eq {a b : Nat} (within : b ≤ a) : difference? a b = some (a - b) := if_pos within

theorem sum?_eq {a b : UInt64} (fits : a.toNat + b.toNat < 0x10000000000000000) :
    sum? a b = some (a + b) ∧ (a + b).toNat = a.toNat + b.toNat :=
  ⟨if_pos fits,by rw [UInt64.toNat_add,Nat.mod_eq_of_lt fits]⟩

theorem product?_eq {a b : UInt64} (fits : a.toNat * b.toNat < 0x10000000000000000) :
    product? a b = some (a * b) ∧ (a * b).toNat = a.toNat * b.toNat :=
  ⟨if_pos fits,by rw [UInt64.toNat_mul,Nat.mod_eq_of_lt fits]⟩

theorem size?_eq {a : Nat} (fits : a < 0x10000000000000000) : size? a = some a := if_pos fits

theorem address?_eq {a : Nat} (fits : a < 0x10000) : address? a = some (UInt16.ofNat a) := if_pos fits

theorem address?_toNat (a : UInt16) : address? a.toNat = some a := by
  rw [address?_eq a.toNat_lt,UInt16.ofNat_toNat]

theorem address?_some {n : Nat} {a : UInt16} (found : address? n = some a) : a.toNat = n := by
  rw [address?] at found
  split at found
  · cases found
    exact UInt16.toNat_ofNat_of_lt' ‹_›
  · cases found

theorem shiftRight?_eq (v : UInt8) {places : Nat} (within : places < 8) :
    shiftRight? v places = some (v >>> UInt8.ofNat places) := if_pos within

theorem shiftLeft?_eq {width : Nat} (v : BitVec width) {places : Nat} (within : places < width) :
    shiftLeft? v places = some (v <<< places) := if_pos within

theorem next?_eq (i : Fin n) (below : i.val + 1 < n) : next? i = some ⟨i.val + 1,below⟩ := dif_pos below

theorem put?_eq (bytes : Array α) {i : Nat} (v : α) (inside : i < bytes.size) :
    put? bytes i v = some (bytes.setIfInBounds i v) := if_pos inside

theorem set?_eq (cells : Vector α n) {i : Nat} (v : α) (inside : i < n) : set? cells i v = some (cells.set i v) :=
  dif_pos inside

theorem slice?_eq (bytes : Array α) {start length : Nat} (within : start + length ≤ bytes.size) :
    slice? bytes start length = some (bytes.extract start (start + length)) := if_pos within

-- Rounds of which none stops do what they do without checks, as long as they keep what none of them stops for.
theorem rounds?_eq {round : Nat → α → Option α} {plain : (i : Nat) → i < n → α → α} (holds : α → Prop) {start : α}
    (first : holds start)
    (each : ∀ i (h : i < n) a, holds a → round i a = some (plain i h a) ∧ holds (plain i h a)) :
    rounds? n round start = some (Nat.fold n plain start) := by
  have all : rounds? n round start = some (Nat.fold n plain start) ∧ holds (Nat.fold n plain start) := by
    unfold rounds?
    induction n with
    | zero => exact ⟨rfl,first⟩
    | succ n ih =>
        obtain ⟨done,kept⟩ := @ih (fun i h => plain i (Nat.lt_succ_of_lt h))
          (fun i h a before => each i (Nat.lt_succ_of_lt h) a before)
        rw [Nat.fold_succ,Nat.fold_succ,done]
        exact each n (Nat.lt_succ_self n) _ kept
  exact all.1

theorem mapM_eq {f : α → β} {g : α → Option β} {xs : List α} (each : ∀ x ∈ xs, g x = some (f x)) :
    xs.mapM g = some (xs.map f) := by
  induction xs with
  | nil => rfl
  | cons x xs ih =>
      have first := each x List.mem_cons_self
      have rest := ih fun y inside => each y (List.mem_cons_of_mem x inside)
      rw [List.mapM_cons,first,rest]
      rfl

end Famicom.Checked
