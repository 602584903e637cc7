import PixelLayout.Artifact.Contents
import PixelLayout.Profile.Basic
import PixelLayout.Text.Lines
import PixelLayout.Text.Literal
import PixelLayout.Text.Markup

/-!
# The draw code

The display redraws in parts, so its code comes in two streams:

* the **dynamic** stream has one block for each tile and each item of a list. It runs on every
  refresh, because the text may change. The area that it redraws is the tile shrunk by one pixel on
  each side, so that no refresh wipes a rule beside the tile.
* the **static** stream has one call for each rule. All of them stand in one routine that draws once
  and is cached.

A text without a format still goes through a formatted print, so its percent signs are doubled. The
comment above a block shows the text as the inside of a literal, so it has one line feed, its last
character, whatever the text.
-/

namespace PixelLayout.DrawCode

open Text

/-- Settings of the generated code. They are printed as given, whatever kind of value they are. -/
structure Options where
  /-- The class that the routine for the rules belongs to. -/
  viewClass : Value
  /-- How many characters a formatted text may have. -/
  messageBufferSize : Value
  /-- Whether the code starts with a note that it is generated. -/
  includeBanner : Value

/-- The settings that hold where an author says nothing. -/
def defaultOptions : Options := ⟨.text "StatusView", .whole 128, .flag true⟩

/-- The two streams of one screen. -/
structure Streams where
  dynamic : String
  static : String

/-- The area that a refresh redraws, by its first and its last corner. -/
structure Refresh where
  left : Int
  top : Int
  right : Int
  bottom : Int
deriving DecidableEq

/-- The area that a refresh of a tile redraws: the tile without its outermost pixels. -/
def refresh (r : Rect) : Refresh := ⟨r.x + 1, r.y + 1, r.right - 1, r.bottom - 1⟩

/-- The statement that prints the text of a tile into the message. -/
def printStatement (text : TileText) : String :=
  match text.format with
  | some format =>
    "snprintf(message, msg_size, \"" ++ Literal.escape format ++ "\" /* , runtime args */);"
  | none =>
    "snprintf(message, msg_size, \"" ++
      Literal.doublePercent (Literal.escape text.content) ++ "\");"

/-- The block that draws a text, given its rectangle, its offset and the settings. -/
def block (text : TileText) (r : Rect) (offset : Offset) (options : Options) : String :=
  let area := refresh r
  "// " ++ Literal.escape text.content ++ "\n" ++
    "display_->enqueueDraw(\n" ++
    "    [&](Paint &paint) \x7b\n" ++
    "        const int msg_size = " ++
      Markup.escape options.messageBufferSize.settingText ++ ";\n" ++
    "        char message[msg_size];\n" ++
    "\n" ++
    "        " ++ printStatement text ++ "\n" ++
    "        paint.DrawStringAt(" ++ (r.x + offset.x).repr ++ ", " ++ (r.y + offset.y).repr ++
      ", message, &Font" ++ Artifact.sizeText text.resolvedFontSize ++ ", COLORED);\n" ++
    "    \x7d,\n" ++
    "    \x7b" ++ area.left.repr ++ ", " ++ area.top.repr ++ ", " ++ area.right.repr ++ ", " ++
      area.bottom.repr ++ "\x7d);\n\n"

/-- The block of one tile or item of a list. -/
def drawCall (options : Options) (t : Tile) : Except Fault String := do
  let (r, offset) ← Artifact.requirePlaced t
  return block t.text r offset options

/-- The call that draws a rule along an axis. -/
def lineCall (axis : Axis) (r : Rect) : String :=
  match axis with
  | .horizontal =>
    "paint.DrawHorizontalLine(" ++ r.x.repr ++ ", " ++ r.y.repr ++ ", " ++ r.width.repr ++
      ", COLORED);\n"
  | .vertical =>
    "paint.DrawVerticalLine(" ++ r.x.repr ++ ", " ++ r.y.repr ++ ", " ++ r.height.repr ++
      ", COLORED);\n"

/-- The call of one rule. -/
def ruleCall (rule : Axis × Option Rect) : Except Fault String := do
  return lineCall rule.1 (← Artifact.requireRect rule.2)

/-- The two streams of a resolved tree. -/
def streams (root : Node) (options : Options) : Except Fault Streams := do
  root.ensureResolved.mapError .render
  let dynamic ← root.tiles.mapM (drawCall options)
  let static ← root.rules.mapM ruleCall
  return ⟨String.join dynamic, String.join static⟩

/-- The note at the head of generated code. -/
def banner : String :=
  "// Generated by screengen from the layout declaration.\n" ++
    "// Edit the layout and regenerate instead of changing this file.\n"

/-- The whole code around the two streams: the banner, the dynamic stream, and the routine that
holds the static one and covers the top band of the bounds. -/
def source (s : Streams) (bounds : Rect) (p : Profile) (options : Options) : String :=
  (if options.includeBanner.isTruthy then banner else "") ++ "\n" ++
    chomp s.dynamic ++ "\n\n" ++
    "void " ++ options.viewClass.settingText ++ "::drawStatic() \x7b\n" ++
    "    display_->enqueueStaticDraw(\n" ++
    "        [&](Paint &paint) \x7b\n" ++
    indentBlock 12 s.static ++ "\n" ++
    "        \x7d,\n" ++
    "        // Rectangle needs to cover whole widget area\n" ++
    "        \x7b" ++ bounds.x.repr ++ ", " ++ bounds.y.repr ++ ", " ++ bounds.width.repr ++ ", " ++
      p.staticBandHeight.repr ++ "\x7d);\n\x7d\n"

/-- The draw code of a resolved tree. -/
def render (root : Node) (bounds : Rect) (p : Profile) (options : Options) :
    Except Fault String := do
  let s ← streams root options
  return source s bounds p options

end PixelLayout.DrawCode
