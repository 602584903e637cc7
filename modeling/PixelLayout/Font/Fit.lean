import PixelLayout.Fault
import PixelLayout.Font.Table

/-!
# Fitting a text into an area

Fonts come in few sizes and one glyph width each, so fitting a text is a look-up: the largest size
at which the text is narrower than the area and lower than it. A text that fits at no size gets the
smallest one and overflows.

The text is then centred: across, by the width it takes, which is never more than the area's; and
down, by its glyph height, where a text higher than the area starts at the top edge.

A text is measured in characters. A line feed is one of them, and the text is placed as one line.
-/

namespace PixelLayout.FontTable

/-- The font leaves room around a text of `length` characters in an area. -/
def fits (f : BitmapFont) (length : Nat) (width height : Int) : Bool :=
  decide (f.glyphWidth * length < width ∧ f.size < height)

/-- The largest size at which a text of `length` characters fits an area, or else the smallest. -/
def fit (t : FontTable) (length : Nat) (width height : Int) : Int :=
  match t.entries.find? (fun f => fits f length width height) with
  | some f => f.size
  | none => t.smallest

/-- The offset that centres a text of `length` characters, `glyphWidth` pixels each, in an area. -/
def centre (length : Nat) (glyphWidth size width height : Int) : Offset :=
  ⟨(width - min (glyphWidth * length) width) / 2, max (height - size) 0 / 2⟩

/-- The offset that centres a text of `length` characters at a size of the table. -/
def textOffset (t : FontTable) (length : Nat) (size width height : Int) :
    Except LayoutFault Offset :=
  match t.glyphWidth? size with
  | some glyphWidth => .ok (centre length glyphWidth size width height)
  | none => .error (.unknownSize size t.sizes)

end PixelLayout.FontTable
