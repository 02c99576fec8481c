namespace Famicom

def digit (d : Nat) : Char := Char.ofNat (if d < 10 then 48 + d else 55 + d)

-- Most significant digit first. What does not fit the width is dropped, so the width is exact.
def digits (base : Nat) : Nat → Nat → List Char
  | 0, _ => []
  | width + 1, n => digits base width (n / base) ++ [digit (n % base)]

theorem digits_length (base width n : Nat) : (digits base width n).length = width := by
  induction width generalizing n with
  | zero => rfl
  | succ width ih => simp [digits,ih]

def numeral (base width n : Nat) : String := String.ofList (digits base width n)

def hexByte (v : UInt8) : String := numeral 16 2 v.toNat

def hexWord (w : UInt16) : String := numeral 16 4 w.toNat

end Famicom
