import Famicom.Picture.Color

namespace Famicom

def screenWidth : Nat := 256

def screenHeight : Nat := 240

structure Frame where
  pixels : Vector Color (screenWidth * screenHeight)
  deriving DecidableEq

namespace Frame

def filled (c : Color) : Frame := ⟨Vector.replicate _ c⟩

def blank : Frame := filled .black

theorem index_lt {x y : Nat} (inside : x < screenWidth ∧ y < screenHeight) :
    y * screenWidth + x < screenWidth * screenHeight := by
  simp only [screenWidth,screenHeight] at *
  omega

def pixel (f : Frame) (x y : Nat) : Color :=
  if inside : x < screenWidth ∧ y < screenHeight then
    have := index_lt inside
    f.pixels[y * screenWidth + x]
  else .black

def setPixel (f : Frame) (x y : Nat) (c : Color) : Frame :=
  if inside : x < screenWidth ∧ y < screenHeight then
    ⟨f.pixels.set (y * screenWidth + x) c (index_lt inside)⟩
  else f

theorem pixel_filled (c : Color) (x y : Nat) (inside : x < screenWidth ∧ y < screenHeight) :
    (filled c).pixel x y = c := by
  simp [pixel,filled,inside]

theorem pixel_outside (f : Frame) (x y : Nat) (outside : ¬ (x < screenWidth ∧ y < screenHeight)) :
    f.pixel x y = .black := by
  simp only [pixel,outside,dite_false]

theorem setPixel_outside (f : Frame) (x y : Nat) (c : Color)
    (outside : ¬ (x < screenWidth ∧ y < screenHeight)) : f.setPixel x y c = f := by
  simp only [setPixel,outside,dite_false]

theorem pixel_setPixel_same (f : Frame) (x y : Nat) (c : Color)
    (inside : x < screenWidth ∧ y < screenHeight) : (f.setPixel x y c).pixel x y = c := by
  simp [pixel,setPixel,inside]

theorem index_injective {x y x' y' : Nat} (inside : x < screenWidth) (inside' : x' < screenWidth)
    (same : y * screenWidth + x = y' * screenWidth + x') : x = x' ∧ y = y' := by
  simp only [screenWidth] at *
  omega

theorem pixel_setPixel_other (f : Frame) (x y x' y' : Nat) (c : Color)
    (different : ¬ (x = x' ∧ y = y')) : (f.setPixel x y c).pixel x' y' = f.pixel x' y' := by
  by_cases inside : x < screenWidth ∧ y < screenHeight
  · by_cases inside' : x' < screenWidth ∧ y' < screenHeight
    · have apart : y * screenWidth + x ≠ y' * screenWidth + x' :=
        fun same => different (index_injective inside.1 inside'.1 same)
      simp [pixel,setPixel,inside,inside',apart]
    · rw [pixel_outside _ _ _ inside',pixel_outside _ _ _ inside']
  · rw [setPixel_outside f x y c inside]

def bytes (f : Frame) : Array UInt8 :=
  f.pixels.foldl (fun out c => ((out.push c.red).push c.green).push c.blue) (Array.mkEmpty 0x2D000)

def packed (f : Frame) : Array UInt32 := f.pixels.toArray.map Color.packed

def pixmapHeader : String := s!"P6\n{screenWidth} {screenHeight}\n255\n"

def pixmap (f : Frame) : Array UInt8 := pixmapHeader.toUTF8.data ++ f.bytes

def summary : String := s!"Framebuffer \x7b width: {screenWidth}, height: {screenHeight} \x7d"

end Frame
end Famicom
