import PixelLayout.Node.Basic

/-!
# Building trees

The constructors that authors use. They compute no geometry; each refuses what no tree can carry: a
stack child that is not a node, a share outside zero to one, a format or a font size on a node
without text, a font size that is not a positive integer.

A list of tiles is set as a whole: its format or font size goes to each of its items.
-/

namespace PixelLayout

/-- A font size that an author gives: a positive integer. A truth value is not an integer. -/
def fontSizeOf : Value → Except ConfigurationFault Int
  | .whole n => if 0 < n then .ok n else .error (.fontSize (.whole n))
  | given => .error (.fontSize given)

namespace Tile

/-- The tile with a format, or without one. -/
def setFormat (t : Tile) (format : Option String) : Tile :=
  { t with text := { t.text with format := format } }

/-- The tile with a font size of the author's choice. -/
def setFontSize (t : Tile) (size : Int) : Tile :=
  { t with text := { t.text with fontSize := some size } }

end Tile

namespace Node

/-- A single text label. -/
def label (content : String) : Node := .tile (.ofContent content)

/-- A list of labels, all of which show. -/
def listOf (contents : List String) : Node :=
  .list (contents.map Tile.ofContent) contents.length none

/-- What stands in the place of a stack's child: a node, or a value that is none. -/
inductive Child where
  | node (n : Node)
  | foreign (v : Value)

/-- The nodes among the children of a stack, which all have to be nodes. -/
def nodesOf : List Child → Except ConfigurationFault (List Node)
  | [] => .ok []
  | .foreign v :: _ => .error (.notANode v)
  | .node n :: rest => do return n :: (← nodesOf rest)

/-- A stack of the given children along an axis. -/
def stackOf (axis : Axis) (children : List Child) : Except ConfigurationFault Node := do
  return .stack axis (← nodesOf children) none

/-- Two nodes one above the other: `first` takes its share of the height, `second` the rest. -/
def splitBy (first : Node) (share : Share) (second : Node) : Except Fault Node :=
  if share.isProper then
    (share.complement.map fun rest => .split first share second rest none).mapError .number
  else .error (ConfigurationFault.share share).raised

/-- The node with a format for its text. -/
def withFormat (n : Node) (format : Option String) : Except ConfigurationFault Node :=
  match n with
  | tile t => .ok (tile (t.setFormat format))
  | list items k r => .ok (list (items.map (·.setFormat format)) k r)
  | n => .error (.notSettable .format n.kind)

/-- The node with a font size for its text. No pass second-guesses it. -/
def withFontSize (n : Node) (given : Value) : Except ConfigurationFault Node :=
  match n with
  | tile t => do return tile (t.setFontSize (← fontSizeOf given))
  | list items k r => do
    let size ← fontSizeOf given
    return list (items.map (·.setFontSize size)) k r
  | n => .error (.notSettable .fontSize n.kind)

end Node

end PixelLayout
