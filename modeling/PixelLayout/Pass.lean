import PixelLayout.Font.Fit
import PixelLayout.Log
import PixelLayout.Node.Basic
import PixelLayout.Profile.Basic

/-!
# Layout passes

A pass gives every leaf of a tree its absolute rectangle inside some bounds, and every text its font
size and offset:

* a stack divides its axis evenly among the children that are not separators; a separator takes no
  slot but lies at the near edge of the slot of the child behind it, and a rule across the stack's
  own direction lies in the middle of the other axis;
* a split gives its first node the share of the height, and the second one the rest;
* a tile has its font fitted and its text centred;
* a separator is a rule of one pixel, shorter by its margin at both ends;
* the items of a list get slots of the height that makes `visibleCount` of them fill the list, and
  items beyond that count go on below it.

A pass first erases all earlier geometry and then works in document order. When it meets something
that it cannot lay out it stops there. So it always has two outcomes, a tree and perhaps a fault
(`Progress`), and after a fault the tree holds the new geometry of what came before and none of what
comes after. The fault is what the pass met; whoever asked for the pass is told of it in words, if
these can be written (`Progress.toExcept`).
-/

namespace PixelLayout

/-- How far a pass came: the result as it stands, and the fault that stopped the pass if one did. -/
structure Progress (α : Type) where
  result : α
  fault : Option Fault

/-- The result if no fault stopped the pass, or else the fault as it reaches the caller. -/
def Progress.toExcept {α : Type} (progress : Progress α) : Except Fault α :=
  match progress.fault with
  | none => .ok progress.result
  | some fault => .error fault.raised

namespace Tile

/-- The tile with its font size settled, by the author's choice or else by fitting, and its text
centred. A tile without a rectangle has no area to do this in. -/
def applyFont (t : Tile) (table : FontTable) : Except LayoutFault Tile :=
  match t.rect with
  | none => .error (.unplacedTile t.text.content)
  | some r =>
    let length := t.text.content.length
    let size := t.text.fontSize.getD (table.fit length r.width r.height)
    (table.textOffset length size r.width r.height).map fun offset =>
      { t with text := { t.text with offset := some offset, resolvedFontSize := some size } }

/-- Refuses a font size of the author's choice that the display does not offer. -/
def checkSize (t : Tile) (p : Profile) : Except LayoutFault Unit :=
  match t.text.fontSize with
  | none => .ok ()
  | some size =>
    if p.fontTable.hasSize size then .ok ()
    else .error (.sizeNotOffered t.text.content size p.name p.fontTable.sizes)

/-- The tile laid out in an area. It keeps the area as its rectangle even if its font is refused. -/
def place (p : Profile) (t : Tile) (d : Rect) : Progress Tile :=
  let t := { t with rect := some d }
  match t.checkSize p with
  | .error e => ⟨t, some (.layout e)⟩
  | .ok () =>
    match t.applyFont p.fontTable with
    | .error e => ⟨t, some (.layout e)⟩
    | .ok t => ⟨t, none⟩

end Tile

namespace Pass

/-- How many of the nodes take a slot. -/
def slotCount (nodes : List Node) : Nat := nodes.countP fun n => !n.isSeparator

/-- The length of an area along an axis. -/
def extent (axis : Axis) (d : Rect) : Int :=
  match axis with
  | .vertical => d.height
  | .horizontal => d.width

/-- Slot `k` of a stack along an axis, each slot being `length` long: as wide as the area, or in a
horizontal stack as high. A rule across the stack starts in the middle of that. -/
def slot (axis : Axis) (d : Rect) (length : Int) (k : Nat) (n : Node) : Rect :=
  match axis with
  | .vertical =>
    let x := match n with
      | .separator .vertical _ => d.x + d.width / 2
      | _ => d.x
    ⟨x, d.y + k * length, d.width, length⟩
  | .horizontal =>
    let y := match n with
      | .separator .horizontal _ => d.y + d.height / 2
      | _ => d.y
    ⟨d.x + k * length, y, length, d.height⟩

/-- The rule along an axis in an area, shorter by the margin at both ends. -/
def rule (axis : Axis) (margin : Int) (d : Rect) : Except LayoutFault Rect :=
  match axis with
  | .horizontal =>
    if d.width - 2 * margin < 0 then .error (.ruleMargin axis margin d.width)
    else .ok ⟨d.x + margin, d.y, d.width - 2 * margin, 1⟩
  | .vertical =>
    if d.height - 2 * margin < 0 then .error (.ruleMargin axis margin d.height)
    else .ok ⟨d.x, d.y + margin, 1, d.height - 2 * margin⟩

/-- The area of item `k` of a list, each item being `length` high. -/
def itemArea (d : Rect) (margin length : Int) (k : Nat) : Rect :=
  ⟨d.x + margin, d.y + k * length, d.width - 2 * margin, length⟩

/-- The items of a list laid out, from item `k` on. -/
def placeItems (p : Profile) (d : Rect) (length : Int) : Nat → List Tile → Progress (List Tile)
  | _, [] => ⟨[], none⟩
  | k, t :: ts =>
    let here := t.place p (itemArea d p.listItemMargin length k)
    match here.fault with
    | some fault => ⟨here.result :: ts, some fault⟩
    | none =>
      let rest := placeItems p d length (k + 1) ts
      ⟨here.result :: rest.result, rest.fault⟩

/-- A list laid out in an area. -/
def placeList (p : Profile) (items : List Tile) (visibleCount : Int) (rect : Option Rect)
    (d : Rect) : Progress Node :=
  if visibleCount ≤ 0 then
    ⟨.list items visibleCount rect, some (.layout (.visibleCount visibleCount))⟩
  else if d.width - 2 * p.listItemMargin < 0 then
    ⟨.list items visibleCount rect, some (.layout (.itemMargin p.listItemMargin d.width))⟩
  else
    let placed := placeItems p d (d.height / visibleCount) 0 items
    ⟨.list placed.result visibleCount (some d), placed.fault⟩

/-- A separator laid out in an area. -/
def placeSeparator (p : Profile) (axis : Axis) (rect : Option Rect) (d : Rect) : Progress Node :=
  match rule axis (p.separatorMargin axis) d with
  | .ok r => ⟨.separator axis (some r), none⟩
  | .error e => ⟨.separator axis rect, some (.layout e)⟩

mutual
/-- A tree laid out in an area. It must hold no earlier geometry, which would stay where the pass
does not come. -/
def place (p : Profile) : Node → Rect → Progress Node
  | .stack axis nodes r, d =>
    if slotCount nodes = 0 then ⟨.stack axis nodes r, some (.layout (.noSlots axis))⟩
    else
      let placed := placeAll p axis d (extent axis d / slotCount nodes) 0 nodes
      ⟨.stack axis placed.result r, placed.fault⟩
  | .split a s b t r, d =>
    match s.cut d.height with
    | .error e => ⟨.split a s b t r, some (.number e)⟩
    | .ok up =>
      let first := place p a ⟨d.x, d.y, d.width, up⟩
      match first.fault with
      | some fault => ⟨.split first.result s b t r, some fault⟩
      | none =>
        let second := place p b ⟨d.x, d.y + up, d.width, d.height - up⟩
        ⟨.split first.result s second.result t r, second.fault⟩
  | .tile t, d =>
    let placed := t.place p d
    ⟨.tile placed.result, placed.fault⟩
  | .separator axis r, d => placeSeparator p axis r d
  | .list items k r, d => placeList p items k r d
  | .bare r, _ => ⟨.bare r, some (.layout (.unknownKind .bare))⟩

/-- The children of a stack laid out, from the child that comes after `k` slots on. -/
def placeAll (p : Profile) (axis : Axis) (d : Rect) (length : Int) :
    Nat → List Node → Progress (List Node)
  | _, [] => ⟨[], none⟩
  | k, n :: ns =>
    let here := place p n (slot axis d length k n)
    match here.fault with
    | some fault => ⟨here.result :: ns, some fault⟩
    | none =>
      let rest := placeAll p axis d length (if n.isSeparator then k else k + 1) ns
      ⟨here.result :: rest.result, rest.fault⟩
end

/-- What a pass writes to the log when it starts. -/
def announcement (root : Node) (bounds : Rect) (p : Profile) : LogRecord :=
  ⟨.debug, "screengen.kernel.resolver",
    "Resolving " ++ root.describe ++ " in " ++ bounds.describe ++ " for " ++ p.name⟩

end Pass

namespace Node

/-- A pass over a tree: all earlier geometry goes, then the tree is laid out inside the bounds. -/
def resolveInPlace (root : Node) (bounds : Rect) (p : Profile) : Progress Node :=
  Pass.place p root.clear bounds

/-- The tree laid out inside the bounds, or the fault that stopped the pass. -/
def resolve (root : Node) (bounds : Rect) (p : Profile) : Except Fault Node :=
  (root.resolveInPlace bounds p).toExcept

end Node

end PixelLayout
