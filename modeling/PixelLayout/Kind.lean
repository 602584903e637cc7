/-!
# Kinds of nodes

A screen is a tree of nodes of a few kinds: stacks and separators along either axis, uneven splits,
tiles, lists of tiles, and nodes of no kind that a layout knows. A kind has one name, which stands
in labels and in messages.
-/

namespace PixelLayout

/-- The two axes of a display. -/
inductive Axis where
  | vertical
  | horizontal
deriving DecidableEq, Inhabited

/-- The other axis. -/
def Axis.swap : Axis → Axis
  | vertical => horizontal
  | horizontal => vertical

/-- The kinds of nodes. -/
inductive NodeKind where
  /-- A vertical stack goes from top to bottom, a horizontal one from left to right. -/
  | stack (axis : Axis)
  | split
  | tile
  /-- A horizontal separator is a rule from left to right, a vertical one from top to bottom. -/
  | separator (axis : Axis)
  | list
  /-- A node that no layout rule covers. -/
  | bare
deriving DecidableEq

/-- The name of a kind. -/
def NodeKind.name : NodeKind → String
  | stack .vertical => "Vertical"
  | stack .horizontal => "Horizontal"
  | split => "Split"
  | tile => "Tile"
  | separator .vertical => "VerticalSeparator"
  | separator .horizontal => "HorizontalSeparator"
  | list => "ListWidget"
  | bare => "Node"

end PixelLayout
