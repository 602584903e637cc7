/-!
# Pixel rectangles

Absolute pixel rectangles and the offset of a text inside one. A rectangle covers the half-open
columns `x ≤ px < right` and the half-open rows `y ≤ py < bottom`, so a rectangle of width or
height zero covers nothing, and neither does one of negative size.

All numbers are unbounded integers: a layout is exact for a display of any size, and a rectangle
may leave the display on any side.
-/

namespace PixelLayout

/-- An absolute rectangle of device pixels. -/
structure Rect where
  x : Int
  y : Int
  width : Int
  height : Int
deriving DecidableEq, Inhabited

/-- The place of a text relative to the top left corner of the tile that owns it. -/
structure Offset where
  x : Int
  y : Int
deriving DecidableEq, Inhabited

namespace Rect

/-- The first column to the right of the rectangle. -/
def right (r : Rect) : Int := r.x + r.width

/-- The first row below the rectangle. -/
def bottom (r : Rect) : Int := r.y + r.height

/-- The rectangle shrunk by `amount` pixels on every side; a negative amount grows it. -/
def inset (r : Rect) (amount : Int) : Rect :=
  ⟨r.x + amount, r.y + amount, r.width - 2 * amount, r.height - 2 * amount⟩

/-- The rectangle `r` contains `s`: no edge of `s` lies outside the edges of `r`. -/
def Contains (r s : Rect) : Prop :=
  r.x ≤ s.x ∧ r.y ≤ s.y ∧ s.right ≤ r.right ∧ s.bottom ≤ r.bottom

instance (r s : Rect) : Decidable (r.Contains s) := inferInstanceAs (Decidable (_ ∧ _))

/-- The rectangles `r` and `s` overlap: each starts before the other ends, on both axes. -/
def Overlaps (r s : Rect) : Prop :=
  r.x < s.right ∧ s.x < r.right ∧ r.y < s.bottom ∧ s.y < r.bottom

instance (r s : Rect) : Decidable (r.Overlaps s) := inferInstanceAs (Decidable (_ ∧ _))

/-- The words in which a rectangle appears in a log record. -/
def describe (r : Rect) : String :=
  "Rect(x=" ++ r.x.repr ++ ", y=" ++ r.y.repr ++ ", width=" ++ r.width.repr ++
    ", height=" ++ r.height.repr ++ ")"

end Rect

end PixelLayout
