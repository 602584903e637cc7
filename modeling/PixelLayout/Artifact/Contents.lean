import PixelLayout.Node.Basic

/-!
# What a document shows of a tree

Both documents are made from the same two lists, read off a tree in document order: its tiles, the
items of lists among them, and its rules. A tile or a rule that lacks geometry cannot be shown.

Documents print their integers in decimal and at any length. The limit on digits
(`Number/Written`) is one of messages.
-/

namespace PixelLayout

/-- The tile that a node is. -/
def Node.tile? : Node → Option Tile
  | .tile t => some t
  | _ => none

/-- The axis and the rectangle of the rule that a node is. -/
def Node.rule? : Node → Option (Axis × Option Rect)
  | .separator axis r => some (axis, r)
  | _ => none

/-- The tiles of a tree and the items of its lists, in document order. -/
def Node.tiles (root : Node) : List Tile := root.walk.filterMap Node.tile?

/-- The rules of a tree, in document order. -/
def Node.rules (root : Node) : List (Axis × Option Rect) := root.walk.filterMap Node.rule?

namespace Artifact

/-- A rectangle that has to be there. -/
def requireRect : Option Rect → Except Fault Rect
  | some r => .ok r
  | none => .error .missingGeometry

/-- The rectangle of a tile and the offset of its text, which both have to be there. -/
def requirePlaced (t : Tile) : Except Fault (Rect × Offset) :=
  match t.rect, t.text.offset with
  | some r, some offset => .ok (r, offset)
  | _, _ => .error .missingGeometry

/-- A font size as documents show it; nothing for a size that is not settled. -/
def sizeText : Option Int → String
  | some size => size.repr
  | none => ""

end Artifact

end PixelLayout
