import PixelLayout.Fault
import PixelLayout.Geometry

/-!
# The tree of a screen

A screen is a tree: stacks and splits inside; tiles, separators, lists of tiles and bare nodes at
its leaves. The same tree carries what its author declared (texts, formats, font sizes, shares, how
many items of a list show) and what a layout pass adds (rectangles, text offsets, the font sizes
that were chosen). A tree is resolved when everything that a pass adds is there.

`walk` lists a tree in document order: a node, then all that is below it, first child first. Labels,
the list of nodes without geometry and the dump of all geometry are read off that list.
-/

namespace PixelLayout

/-- The text of a tile. With a format, the content is sample text for sizing, and the device
supplies the arguments of the format. A font size given by the author is never changed by a pass,
which writes the size in use to `resolvedFontSize`. -/
structure TileText where
  content : String
  format : Option String
  fontSize : Option Int
  offset : Option Offset
  resolvedFontSize : Option Int
deriving DecidableEq

/-- A rectangle with one text. -/
structure Tile where
  text : TileText
  rect : Option Rect
deriving DecidableEq

/-- A node of a screen's tree. -/
inductive Node where
  /-- Children one after another along an axis, in slots of one size. Separators take no slot. -/
  | stack (axis : Axis) (nodes : List Node) (rect : Option Rect)
  /-- Two nodes one above the other, each with a share of the height. -/
  | split (first : Node) (firstShare : Share) (second : Node) (secondShare : Share)
      (rect : Option Rect)
  | tile (tile : Tile)
  /-- A rule of one pixel along an axis. -/
  | separator (axis : Axis) (rect : Option Rect)
  /-- Tiles one above the other, `visibleCount` of which fill the list. -/
  | list (items : List Tile) (visibleCount : Int) (rect : Option Rect)
  /-- A node of no kind that a layout knows. -/
  | bare (rect : Option Rect)

namespace Tile

/-- A tile of a text, with nothing else said about it. -/
def ofContent (content : String) : Tile := ⟨⟨content, none, none, none, none⟩, none⟩

/-- The tile has its rectangle, its text's offset and its text's size. -/
def isResolved (t : Tile) : Bool :=
  t.rect.isSome && t.text.offset.isSome && t.text.resolvedFontSize.isSome

/-- The tile without what a pass adds. -/
def clear (t : Tile) : Tile :=
  { t with text := { t.text with offset := none, resolvedFontSize := none }, rect := none }

/-- The label of a tile in messages. -/
def describe (t : Tile) : String := "Tile(" ++ Text.Quoted.quote t.text.content ++ ")"

end Tile

namespace Node

/-- The kind of a node. -/
def kind : Node → NodeKind
  | stack axis _ _ => .stack axis
  | split .. => .split
  | tile _ => .tile
  | separator axis _ => .separator axis
  | list .. => .list
  | bare _ => .bare

/-- The rectangle of a node. -/
def rect? : Node → Option Rect
  | stack _ _ r => r
  | split _ _ _ _ r => r
  | tile t => t.rect
  | separator _ r => r
  | list _ _ r => r
  | bare r => r

/-- The nodes directly below a node. -/
def children : Node → List Node
  | stack _ nodes _ => nodes
  | split first _ second _ _ => [first, second]
  | list items _ _ => items.map tile
  | _ => []

/-- The node is a separator. -/
def isSeparator : Node → Bool
  | separator .. => true
  | _ => false

/-- A pass has nothing left to add to the node itself. Stacks and splits have no geometry of their
own. -/
def isResolved : Node → Bool
  | stack .. => true
  | split .. => true
  | tile t => t.isResolved
  | separator _ r => r.isSome
  | list _ _ r => r.isSome
  | bare r => r.isSome

/-- The label of a node in messages. -/
def describe : Node → String
  | tile t => t.describe
  | list items _ _ => "ListWidget(" ++ items.length.repr ++ " items)"
  | n => n.kind.name

mutual
/-- The node and all below it, in document order. -/
def walk : Node → List Node
  | stack axis nodes r => stack axis nodes r :: walkAll nodes
  | split a s b t r => split a s b t r :: (a.walk ++ b.walk)
  | list items k r => list items k r :: items.map tile
  | tile t => [tile t]
  | separator axis r => [separator axis r]
  | bare r => [bare r]

/-- Several nodes and all below them, in document order. -/
def walkAll : List Node → List Node
  | [] => []
  | n :: ns => n.walk ++ walkAll ns
end

mutual
/-- The tree without anything that a pass adds. -/
def clear : Node → Node
  | stack axis nodes _ => stack axis (clearAll nodes) none
  | split a s b t _ => split a.clear s b.clear t none
  | tile t => tile t.clear
  | separator axis _ => separator axis none
  | list items k _ => list (items.map Tile.clear) k none
  | bare _ => bare none

/-- Several trees without anything that a pass adds. -/
def clearAll : List Node → List Node
  | [] => []
  | n :: ns => n.clear :: clearAll ns
end

/-- All nodes of the tree that lack geometry, in document order. -/
def unresolved (root : Node) : List Node := root.walk.filter fun n => !n.isResolved

/-- Refuses a tree with a node that lacks geometry; the refusal names the first five. -/
def ensureResolved (root : Node) : Except RenderFault Unit :=
  match root.unresolved with
  | [] => .ok ()
  | missing => .error (.unresolved missing.length ((missing.take 5).map describe))

end Node

/-- The geometry of one node: its label and rectangle, and for a tile what its text got. -/
structure PlacedNode where
  label : String
  rect : Rect
  text : Option (Option Offset × Option Int)
deriving DecidableEq

/-- The geometry of a node that has a rectangle. -/
def Node.placed? (n : Node) : Option PlacedNode :=
  n.rect?.map fun r =>
    ⟨n.describe, r,
      match n with
      | .tile t => some (t.text.offset, t.text.resolvedFontSize)
      | _ => none⟩

/-- All geometry of a tree, in document order. -/
def Node.geometry (root : Node) : List PlacedNode := root.walk.filterMap Node.placed?

end PixelLayout
