import Famicom.Proofs.Checked.Drawing
import Famicom.Proofs.Picture.Redrawing

namespace Famicom

open Checked

namespace Color

def channels (c : Color) : List UInt8 := [c.red,c.green,c.blue]

theorem packed_toNat (c : Color) : c.packed.toNat = c.red.toNat * 65536 + c.green.toNat * 256 + c.blue.toNat := by
  have := c.red.toNat_lt
  have := c.green.toNat_lt
  have := c.blue.toNat_lt
  simp only [packed,UInt32.toNat_add,UInt32.toNat_mul,UInt8.toNat_toUInt32,UInt32.reduceToNat]
  omega

end Color

def spread (colors : List Color) : List UInt8 := colors.flatMap Color.channels

theorem spread_length (colors : List Color) : (spread colors).length = 3 * colors.length := by
  induction colors with
  | nil => rfl
  | cons c colors ih =>
      have split : spread (c :: colors) = c.channels ++ spread colors := List.flatMap_cons
      rw [split,List.length_append,ih,List.length_cons]
      simp only [Color.channels,List.length_cons,List.length_nil]
      omega

theorem spread_get (colors : List Color) : ∀ (i : Nat) (c : Color), colors[i]? = some c →
    (spread colors)[3 * i]? = some c.red ∧ (spread colors)[3 * i + 1]? = some c.green ∧
      (spread colors)[3 * i + 2]? = some c.blue := by
  induction colors with
  | nil => exact fun i c found => nomatch found
  | cons d colors ih =>
      intro i c found
      cases i with
      | zero =>
          cases found
          exact ⟨rfl,rfl,rfl⟩
      | succ i => exact ih i c found

theorem spread_set (c : Color) (colors : List Color) : ∀ i,
    spread (colors.set i c) =
      (((spread colors).set (3 * i) c.red).set (3 * i + 1) c.green).set (3 * i + 2) c.blue := by
  induction colors with
  | nil => exact fun i => rfl
  | cons d colors ih =>
      intro i
      cases i with
      | zero => rfl
      | succ i =>
          show d.channels ++ spread (colors.set i c) = _
          rw [ih i]
          rfl

namespace Frame

inductive Edit where
  | point (x y : UInt64) (c : Color)
  | fill (c : Color)
  deriving DecidableEq

def edited (f : Frame) (e : Edit) : Frame :=
  match e with
  | .point x y c => f.setPixel x.toNat y.toNat c
  | .fill c => filled c

def editAll (f : Frame) (edits : List Edit) : Frame := edits.foldl edited f

def Edit.colors? (e : Edit) (x y : UInt64) : Option Color :=
  match e with
  | .point x' y' c => if x' = x ∧ y' = y then some c else none
  | .fill c => some c

def latest? (edits : List Edit) (x y : UInt64) : Option Color := edits.reverse.findSome? (·.colors? x y)

theorem pixel_edited (f : Frame) (e : Edit) (x y : UInt64) (inside : x.toNat < 256 ∧ y.toNat < 240) :
    (f.edited e).pixel x.toNat y.toNat = (e.colors? x y).getD (f.pixel x.toNat y.toNat) := by
  cases e with
  | fill c => exact pixel_filled c _ _ inside
  | point x' y' c =>
      rw [edited,Edit.colors?]
      split
      · rename_i same
        obtain ⟨rfl,rfl⟩ := same
        exact f.pixel_setPixel_same _ _ c inside
      · rename_i different
        apply f.pixel_setPixel_other
        rintro ⟨column,line⟩
        exact different ⟨UInt64.toNat_inj.mp column,UInt64.toNat_inj.mp line⟩

theorem pixel_editAll (x y : UInt64) (inside : x.toNat < 256 ∧ y.toNat < 240) (edits : List Edit) : ∀ f : Frame,
    (f.editAll edits).pixel x.toNat y.toNat = (latest? edits x y).getD (f.pixel x.toNat y.toNat) := by
  induction edits with
  | nil => exact fun _ => rfl
  | cons e edits ih =>
      intro f
      have later := ih (f.edited e)
      rw [pixel_edited f e x y inside] at later
      rw [latest?,List.reverse_cons,List.findSome?_append]
      refine later.trans ?_
      rw [latest?]
      cases edits.reverse.findSome? (·.colors? x y) with
      | some c => rfl
      | none => cases last : e.colors? x y <;> simp [last]

theorem bytes_toList (f : Frame) : f.bytes.toList = spread f.pixels.toList := by
  have grown : ∀ (colors : List Color) (out : Array UInt8),
      (colors.foldl (fun out c => ((out.push c.red).push c.green).push c.blue) out).toList =
        out.toList ++ spread colors := by
    intro colors
    induction colors with
    | nil => exact fun out => (List.append_nil _).symm
    | cons c colors ih =>
        intro out
        rw [List.foldl_cons,ih]
        simp [spread,Color.channels]
  rw [bytes,← Vector.foldl_toList]
  exact grown f.pixels.toList (Array.mkEmpty 0x2D000)

def byteAt? (x y : UInt64) : Option UInt64 := do
  let row ← product? y 256
  let cell ← sum? row x
  product? cell 3

def colorAt? (bytes : Array UInt8) (x y : UInt64) : Option Color :=
  if x.toNat < 256 ∧ y.toNat < 240 then do
    let first ← byteAt? x y
    let second ← sum? first 1
    let third ← sum? first 2
    let red ← bytes[first.toNat]?
    let green ← bytes[second.toNat]?
    let blue ← bytes[third.toNat]?
    some ⟨red,green,blue⟩
  else some .black

def putColor? (bytes : Array UInt8) (first : UInt64) (c : Color) : Option (Array UInt8) := do
  let second ← sum? first 1
  let third ← sum? first 2
  let bytes ← put? bytes first.toNat c.red
  let bytes ← put? bytes second.toNat c.green
  put? bytes third.toNat c.blue

def editBytes? (bytes : Array UInt8) (e : Edit) : Option (Array UInt8) :=
  match e with
  | .point x y c =>
    if x.toNat < 256 ∧ y.toNat < 240 then do
      let first ← byteAt? x y
      putColor? bytes first c
    else some bytes
  | .fill c => rounds? (bytes.size / 3) (fun i bytes => putColor? bytes (UInt64.ofNat (3 * i)) c) bytes

theorem byteAt?_eq (x y : UInt64) (inside : x.toNat < 256 ∧ y.toNat < 240) :
    ∃ first, byteAt? x y = some first ∧ first.toNat = 3 * (256 * y.toNat + x.toNat) := by
  obtain ⟨row,rowNat⟩ := @product?_eq y 256 (by simp only [UInt64.reduceToNat]; omega)
  simp only [UInt64.reduceToNat] at rowNat
  obtain ⟨cell,cellNat⟩ := @sum?_eq (y * 256) x (by omega)
  obtain ⟨place,placeNat⟩ := @product?_eq (y * 256 + x) 3 (by simp only [UInt64.reduceToNat]; omega)
  simp only [UInt64.reduceToNat] at placeNat
  refine ⟨(y * 256 + x) * 3,?_,by omega⟩
  simp only [byteAt?,row,cell,place,Option.bind_eq_bind,Option.bind_some]

theorem next_places {first : UInt64} (low : first.toNat < 184320) :
    ∃ second third, sum? first 1 = some second ∧ sum? first 2 = some third ∧
      second.toNat = first.toNat + 1 ∧ third.toNat = first.toNat + 2 := by
  obtain ⟨second,secondNat⟩ := @sum?_eq first 1 (by simp only [UInt64.reduceToNat]; omega)
  obtain ⟨third,thirdNat⟩ := @sum?_eq first 2 (by simp only [UInt64.reduceToNat]; omega)
  exact ⟨first + 1,first + 2,second,third,secondNat,thirdNat⟩

theorem putColor?_eq (colors : List Color) (c : Color) {first : UInt64} {i : Nat} (place : first.toNat = 3 * i)
    (within : i < colors.length) (fits : colors.length ≤ 61440) :
    putColor? (spread colors).toArray first c = some (spread (colors.set i c)).toArray := by
  have size : (spread colors).length = 3 * colors.length := spread_length colors
  obtain ⟨second,third,two,three,secondNat,thirdNat⟩ := @next_places first (by omega)
  rw [place] at secondNat thirdNat
  have red := put?_eq (spread colors).toArray c.red (i := 3 * i) (by simp only [List.size_toArray]; omega)
  have green := put?_eq ((spread colors).set (3 * i) c.red).toArray c.green (i := 3 * i + 1)
    (by simp only [List.size_toArray,List.length_set]; omega)
  have blue := put?_eq (((spread colors).set (3 * i) c.red).set (3 * i + 1) c.green).toArray c.blue (i := 3 * i + 2)
    (by simp only [List.size_toArray,List.length_set]; omega)
  rw [List.setIfInBounds_toArray] at red green blue
  simp only [putColor?,two,three,place,secondNat,thirdNat,Option.bind_eq_bind,Option.bind_some,red,green,blue,spread_set]

theorem putColors?_eq (colors : List Color) (c : Color) (fits : colors.length ≤ 61440) : ∀ n ≤ colors.length,
    rounds? n (fun i bytes => putColor? bytes (UInt64.ofNat (3 * i)) c) (spread colors).toArray =
      some (spread (List.replicate n c ++ colors.drop n)).toArray := by
  intro n within
  unfold rounds?
  induction n with
  | zero => rfl
  | succ n ih =>
      have place : (UInt64.ofNat (3 * n)).toNat = 3 * n := UInt64.toNat_ofNat_of_lt' (by rw [UInt64.size]; omega)
      have length : (List.replicate n c ++ colors.drop n).length = colors.length := by
        simp only [List.length_append,List.length_replicate,List.length_drop]
        omega
      have put := putColor?_eq (List.replicate n c ++ colors.drop n) c place (by omega) (by omega)
      have after : (List.replicate n c ++ colors.drop n).set n c = List.replicate (n + 1) c ++ colors.drop (n + 1) := by
        rw [List.set_append_right _ _ (by simp),List.length_replicate,Nat.sub_self,List.drop_eq_getElem_cons within,
          List.set_cons_zero,List.replicate_succ',List.append_assoc]
        rfl
      rw [Nat.fold_succ,ih (by omega),Option.bind_some]
      exact put.trans (congrArg (fun list => some (spread list).toArray) after)

theorem pixels_length (f : Frame) : f.pixels.toList.length = 61440 := Vector.length_toList

theorem pixels_filled (c : Color) : (filled c).pixels.toList = List.replicate 61440 c := Vector.toList_replicate

theorem row_first (x y : Nat) : y * screenWidth + x = 256 * y + x := by
  rw [Nat.mul_comm]
  rfl

theorem pixels_setPixel (f : Frame) (x y : Nat) (c : Color) (inside : x < screenWidth ∧ y < screenHeight) :
    (f.setPixel x y c).pixels.toList = f.pixels.toList.set (256 * y + x) c := by
  rw [setPixel,dif_pos inside,Vector.toList_set,row_first]

theorem pixels_get (f : Frame) (x y : Nat) (inside : x < screenWidth ∧ y < screenHeight) :
    f.pixels.toList[256 * y + x]? = some (f.pixel x y) := by
  have place : 256 * y + x < f.pixels.toList.length := by
    rw [← row_first,Vector.length_toList]
    exact index_lt inside
  rw [List.getElem?_eq_getElem place,pixel,dif_pos inside,Vector.getElem_toList]
  simp only [row_first]

theorem bytes_eq (f : Frame) : f.bytes = (spread f.pixels.toList).toArray := by
  rw [← f.bytes_toList]

-- A change of the flat form never stops, and it is the same change.
theorem editBytes?_eq (f : Frame) (e : Edit) : editBytes? f.bytes e = some (f.edited e).bytes := by
  cases e with
  | point x y c =>
      rw [editBytes?,edited]
      split
      · rename_i inside
        obtain ⟨first,found,place⟩ := byteAt?_eq x y inside
        have put := putColor?_eq f.pixels.toList c place (by rw [f.pixels_length]; omega) (Nat.le_of_eq f.pixels_length)
        rw [found,Option.bind_eq_bind,Option.bind_some,bytes_eq,put,bytes_eq,f.pixels_setPixel _ _ c inside]
      · rename_i outside
        rw [f.setPixel_outside _ _ c outside]
  | fill c =>
      have all := putColors?_eq f.pixels.toList c (Nat.le_of_eq f.pixels_length) 61440 (Nat.le_of_eq f.pixels_length.symm)
      have rounds : f.bytes.size / 3 = 61440 := by
        rw [f.bytes_size]
      have whole : f.pixels.toList.drop 61440 = [] := List.drop_eq_nil_of_le (Nat.le_of_eq f.pixels_length)
      rw [editBytes?,rounds,bytes_eq,all,whole,List.append_nil,edited,bytes_eq,pixels_filled]

theorem bytes_get (f : Frame) (x y : Nat) (inside : x < screenWidth ∧ y < screenHeight) :
    let first := 3 * (256 * y + x)
    f.bytes[first]? = some (f.pixel x y).red ∧ f.bytes[first + 1]? = some (f.pixel x y).green ∧
      f.bytes[first + 2]? = some (f.pixel x y).blue := by
  intro first
  simp only [bytes_eq,List.getElem?_toArray]
  exact spread_get f.pixels.toList _ _ (f.pixels_get x y inside)

theorem colorAt?_eq (f : Frame) (x y : UInt64) : colorAt? f.bytes x y = some (f.pixel x.toNat y.toNat) := by
  rw [colorAt?]
  split
  · rename_i inside
    obtain ⟨first,found,place⟩ := byteAt?_eq x y inside
    obtain ⟨second,third,two,three,secondNat,thirdNat⟩ := @next_places first (by omega)
    obtain ⟨red,green,blue⟩ := f.bytes_get x.toNat y.toNat inside
    rw [← place] at red green blue
    simp only [found,two,three,secondNat,thirdNat,red,green,blue,Option.bind_eq_bind,Option.bind_some]
  · rename_i outside
    exact congrArg some (f.pixel_outside _ _ outside).symm

theorem packed_get (f : Frame) (x y : Nat) (inside : x < screenWidth ∧ y < screenHeight) :
    f.packed[256 * y + x]? = some (f.pixel x y).packed := by
  have color : f.pixels.toArray.toList[256 * y + x]? = some (f.pixel x y) := f.pixels_get x y inside
  rw [packed,Array.getElem?_map,← Array.getElem?_toList,color]
  rfl

theorem packed_size (f : Frame) : f.packed.size = 61440 := by
  rw [packed,Array.size_map]
  exact f.pixels.size_toArray

theorem header_bytes :
    pixmapHeader.toUTF8.data =
      #[0x50,0x36,0x0A,0x32,0x35,0x36,0x20,0x32,0x34,0x30,0x0A,0x32,0x35,0x35,0x0A] := by
  decide +kernel

def ofBytes (bytes : Array UInt8) : Frame :=
  ⟨.ofFn fun i => ⟨bytes.getD (3 * i.val) 0,bytes.getD (3 * i.val + 1) 0,bytes.getD (3 * i.val + 2) 0⟩⟩

def ofPackedNumbers (numbers : Array UInt32) : Frame := ⟨.ofFn fun i => .ofPacked (numbers.getD i.val 0)⟩

def ofPixmap (file : Array UInt8) : Frame := ofBytes (file.extract 15 file.size)

theorem ofBytes_bytes (f : Frame) : ofBytes f.bytes = f := by
  obtain ⟨pixels⟩ := f
  refine congrArg mk (Vector.ext fun i inside => ?_)
  have color : pixels.toList[i]? = some pixels[i] := by
    rw [Vector.getElem?_toList,Vector.getElem?_eq_getElem inside]
  obtain ⟨red,green,blue⟩ := spread_get pixels.toList i pixels[i] color
  rw [Vector.getElem_ofFn]
  simp only [bytes_eq,Array.getD_eq_getD_getElem?,List.getElem?_toArray,red,green,blue,Option.getD_some]

theorem ofPackedNumbers_packed (f : Frame) : ofPackedNumbers f.packed = f := by
  obtain ⟨pixels⟩ := f
  refine congrArg mk (Vector.ext fun i inside => ?_)
  have number : (packed ⟨pixels⟩)[i]? = some pixels[i].packed := by
    rw [packed,Array.getElem?_map,Vector.getElem?_toArray,Vector.getElem?_eq_getElem inside]
    rfl
  rw [Vector.getElem_ofFn,Array.getD_eq_getD_getElem?,number,Option.getD_some,Color.ofPacked_packed]

theorem ofPixmap_pixmap (f : Frame) : ofPixmap f.pixmap = f := by
  have rest : f.pixmap.extract 15 f.pixmap.size = f.bytes := by
    rw [pixmap,header_bytes]
    simp
  rw [ofPixmap,rest,ofBytes_bytes]

structure Views (f : Frame) : Prop where
  bytes_size : f.bytes.size = 184320
  bytes : ∀ x < 256, ∀ y < 240, let first := 3 * (256 * y + x)
    f.bytes[first]? = some (f.pixel x y).red ∧ f.bytes[first + 1]? = some (f.pixel x y).green ∧
      f.bytes[first + 2]? = some (f.pixel x y).blue
  packed_size : f.packed.size = 61440
  packed : ∀ x < 256, ∀ y < 240, ∃ number, f.packed[256 * y + x]? = some number ∧
    number.toNat = (f.pixel x y).red.toNat * 65536 + (f.pixel x y).green.toNat * 256 + (f.pixel x y).blue.toNat
  pixmap : f.pixmap = #[0x50,0x36,0x0A,0x32,0x35,0x36,0x20,0x32,0x34,0x30,0x0A,0x32,0x35,0x35,0x0A] ++ f.bytes
  recovered : ofBytes f.bytes = f ∧ ofPackedNumbers f.packed = f ∧ ofPixmap f.pixmap = f

theorem views (f : Frame) : f.Views where
  bytes_size := f.bytes_size
  bytes x column y line := f.bytes_get x y ⟨column,line⟩
  packed_size := f.packed_size
  packed x column y line := ⟨_,f.packed_get x y ⟨column,line⟩,Color.packed_toNat _⟩
  pixmap := congrArg (· ++ f.bytes) header_bytes
  recovered := ⟨f.ofBytes_bytes,f.ofPackedNumbers_packed,f.ofPixmap_pixmap⟩

theorem editBytes?_all (edits : List Edit) : ∀ f : Frame,
    edits.foldlM editBytes? f.bytes = some (f.editAll edits).bytes := by
  induction edits with
  | nil => exact fun _ => rfl
  | cons e edits ih =>
      intro f
      rw [List.foldlM_cons,f.editBytes?_eq e]
      exact ih (f.edited e)

theorem blank_bytes : blank.bytes = Array.replicate 184320 0 := by
  rw [bytes_eq,blank,pixels_filled]
  have black : ∀ n, spread (List.replicate n .black) = List.replicate (3 * n) 0 := by
    intro n
    induction n with
    | zero => rfl
    | succ n ih =>
        show 0 :: 0 :: 0 :: spread (List.replicate n .black) = _
        rw [ih]
        rfl
  rw [black,List.toArray_replicate]

-- Whatever was drawn on a new picture, each point shows the colour it was given last, and every form shows the same
-- points. The flat form can be drawn on and read in place, at any coordinates, and no place in it overflows.
theorem edits_shown (edits : List Edit) :
    let f := blank.editAll edits
    (∀ x y : UInt64, f.pixel x.toNat y.toNat =
      if x.toNat < 256 ∧ y.toNat < 240 then (latest? edits x y).getD .black else .black) ∧
    (∀ (x y : UInt64) (c : Color), ¬ (x.toNat < 256 ∧ y.toNat < 240) → f.edited (.point x y c) = f) ∧
    edits.foldlM editBytes? (Array.replicate 184320 0) = some f.bytes ∧
    (∀ x y : UInt64, colorAt? f.bytes x y = some (f.pixel x.toNat y.toNat)) ∧ f.Views := by
  intro f
  refine ⟨?_,fun x y c outside => f.setPixel_outside _ _ c outside,?_,f.colorAt?_eq,f.views⟩
  · intro x y
    split
    · rename_i inside
      rw [pixel_editAll x y inside edits,blank,pixel_filled _ _ _ inside]
    · rename_i outside
      exact f.pixel_outside _ _ outside
  · rw [← blank_bytes]
    exact editBytes?_all edits blank

end Frame
end Famicom
