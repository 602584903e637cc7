import PixelLayout.Artifact.Contents
import PixelLayout.Profile.Basic
import PixelLayout.Text.Lines
import PixelLayout.Text.Literal

/-!
# The preview document

The preview shows a screen on a desktop: a window of the display's size with one silver rectangle
for each tile and each item of a list, its text in the middle, and one black rectangle for each
rule. All tiles come first and all rules after them, each in document order.

Desktop fonts differ much from the fonts of a display, so a text is centred across by the document
itself; only its offset from the top is carried over.
-/

namespace PixelLayout.Preview

open Text

/-- The line of a property. -/
def property (margin name value : String) : String := margin ++ name ++ ": " ++ value ++ ";\n"

/-- A length in physical pixels. -/
def pixels (length : String) : String := length ++ "phx"

/-- The lines that place a rectangle. -/
def placement (r : Rect) : String :=
  property "    " "x" (pixels r.x.repr) ++ property "    " "y" (pixels r.y.repr) ++
    property "    " "width" (pixels r.width.repr) ++ property "    " "height" (pixels r.height.repr)

/-- The lines that colour a rectangle. -/
def colours (background : String) : String :=
  property "    " "background" background ++ property "    " "border-color" "black" ++
    property "    " "border-width" "0px"

/-- A text between quotes. -/
def quoted (text : String) : String := "\"" ++ Literal.escape text ++ "\""

/-- The element that shows the text of a tile. -/
def textElement (text : TileText) (offset : Offset) (family : String) : String :=
  "    Text \x7b\n" ++ property "        " "y" (pixels offset.y.repr) ++
    property "        " "width" "100%" ++ property "        " "height" "100%" ++
    property "        " "text" (quoted text.content) ++
    property "        " "font-size" (pixels (Artifact.sizeText text.resolvedFontSize)) ++
    property "        " "font-family" (quoted family) ++
    property "        " "horizontal-alignment" "center" ++ "    \x7d\n"

/-- The block of one tile or item of a list. -/
def tileBlock (p : Profile) (t : Tile) : Except Fault String := do
  let (r, offset) ← Artifact.requirePlaced t
  return "Rectangle \x7b\n" ++ placement r ++ colours "silver" ++
    textElement t.text offset p.previewFontFamily ++ "\x7d\n"

/-- The block of one rule. -/
def ruleBlock (rule : Axis × Option Rect) : Except Fault String := do
  let r ← Artifact.requireRect rule.2
  return "Rectangle \x7b\n" ++ placement r ++ colours "black" ++ "\x7d\n"

/-- The window around the blocks of all tiles and of all rules. -/
def window (bounds : Rect) (tiles rules : List String) : String :=
  "MainWindow := Window \x7b\n" ++ property "    " "width" (pixels bounds.width.repr) ++
    property "    " "height" (pixels bounds.height.repr) ++ property "    " "background" "white" ++
    "\n" ++ indentBlock 4 (String.join tiles) ++ "\n\n" ++ indentBlock 4 (String.join rules) ++
    "\n\x7d\n"

/-- The preview document of a resolved tree. -/
def render (root : Node) (bounds : Rect) (p : Profile) : Except Fault String := do
  root.ensureResolved.mapError .render
  let tiles ← root.tiles.mapM (tileBlock p)
  let rules ← root.rules.mapM ruleBlock
  return window bounds tiles rules

end PixelLayout.Preview
