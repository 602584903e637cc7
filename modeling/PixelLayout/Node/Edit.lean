import PixelLayout.Node.Build

/-!
# Editing a tree

Between two passes an author may change a tree by hand: replace what was declared, put in or take
out children, or assign geometry directly. `Edit` lists these changes; an edit that does not concern
a node's kind leaves the node as it is, except that a format or a font size is refused where there
is no text.

`focus` leads along a path of child places to a node, together with the way to put another node in
its place.
-/

namespace PixelLayout

/-- A change to one node. -/
inductive Edit where
  | format (format : Option String)
  | fontSize (given : Value)
  | clearFontSize
  | content (content : String)
  | rect (rect : Option Rect)
  | offset (offset : Option Offset)
  | resolvedFontSize (size : Option Int)
  | visibleCount (count : Int)
  | shares (first second : Share)
  /-- Puts a node before child `place`, or at the end if there are not that many children. -/
  | insert (place : Nat) (n : Node)
  | remove (place : Nat)

namespace Node

/-- The node with another rectangle. -/
def setRect (r : Option Rect) : Node → Node
  | stack axis nodes _ => stack axis nodes r
  | split a s b t _ => split a s b t r
  | tile t => tile { t with rect := r }
  | separator axis _ => separator axis r
  | list items k _ => list items k r
  | bare _ => bare r

/-- The node with its text changed, if it is a tile. -/
def mapText (f : TileText → TileText) : Node → Node
  | tile t => tile { t with text := f t.text }
  | n => n

/-- The node with another child at a place; a list takes tiles only. -/
def setChild (n : Node) (i : Nat) (child : Node) : Node :=
  match n with
  | stack axis nodes r => stack axis (nodes.set i child) r
  | split a s b t r =>
    match i with
    | 0 => split child s b t r
    | 1 => split a s child t r
    | _ => split a s b t r
  | list items k r =>
    match child with
    | tile t => list (items.set i t) k r
    | _ => list items k r
  | n => n

/-- The node at a path, and the whole tree as it becomes with another node there. -/
def focus : List Nat → Node → Option (Node × (Node → Node))
  | [], n => some (n, fun m => m)
  | i :: path, n =>
    match n.children[i]? with
    | none => none
    | some child => (focus path child).map fun found => (found.1, fun m => n.setChild i (found.2 m))

/-- The node with one more child. -/
def insertChild (n : Node) (place : Nat) (child : Node) : Node :=
  match n with
  | stack axis nodes r => stack axis (nodes.take place ++ child :: nodes.drop place) r
  | list items k r =>
    match child with
    | tile t => list (items.take place ++ t :: items.drop place) k r
    | _ => list items k r
  | n => n

/-- The node without one of its children. -/
def removeChild (n : Node) (place : Nat) : Node :=
  match n with
  | stack axis nodes r => stack axis (nodes.eraseIdx place) r
  | list items k r => list (items.eraseIdx place) k r
  | n => n

/-- The node after an edit. -/
def edit (n : Node) : Edit → Except ConfigurationFault Node
  | .format f => n.withFormat f
  | .fontSize given => n.withFontSize given
  | .clearFontSize => .ok (n.mapText fun t => { t with fontSize := none })
  | .content c => .ok (n.mapText fun t => { t with content := c })
  | .rect r => .ok (n.setRect r)
  | .offset o => .ok (n.mapText fun t => { t with offset := o })
  | .resolvedFontSize size => .ok (n.mapText fun t => { t with resolvedFontSize := size })
  | .visibleCount count =>
    match n with
    | list items _ r => .ok (list items count r)
    | n => .ok n
  | .shares s t =>
    match n with
    | split a _ b _ r => .ok (split a s b t r)
    | n => .ok n
  | .insert place child => .ok (n.insertChild place child)
  | .remove place => .ok (n.removeChild place)

end Node

end PixelLayout
