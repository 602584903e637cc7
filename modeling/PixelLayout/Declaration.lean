import PixelLayout.Catalogue

/-!
# Declarations

A declaration is what an author writes to get a tree: an expression over the builders, with parts
taken ready-made where no builder is to look at them. Building goes from the inside out and from
left to right, and the first thing that a builder refuses is the outcome.

A stack first builds all its children and only then looks whether each of them is a node. So a
refusal inside a later child wins over an earlier child that is no node.
-/

namespace PixelLayout

/-- An expression for a tree. -/
inductive Declaration where
  /-- A tree that is taken as it is. -/
  | ready (n : Node)
  /-- A value that is no node, in the place of one. -/
  | foreign (v : Value)
  | stack (axis : Axis) (children : List Declaration)
  | split (first : Declaration) (share : Share) (second : Declaration)
  /-- A split whose two shares are taken as they are. -/
  | uncheckedSplit (first : Declaration) (firstShare : Share) (second : Declaration)
      (secondShare : Share)
  /-- A list whose count of shown items is taken as it is. Its items are tiles. -/
  | uncheckedList (items : List Declaration) (visibleCount : Int) (rect : Option Rect)
  /-- A screen of the catalogue. -/
  | screen (name : String)
  | withStatusBar (page : Declaration)
  | withFormat (d : Declaration) (format : Option String)
  | withFontSize (d : Declaration) (given : Value)

/-- A node of no kind stands for a declaration that says nothing. -/
instance : Inhabited Declaration := ⟨.ready (.bare none)⟩

namespace Declaration

/-- The tiles among some nodes. -/
def tilesOf (nodes : List Node) : List Tile :=
  nodes.filterMap fun
    | .tile t => some t
    | _ => none

mutual
/-- The tree of a declaration, or the first refusal. -/
def build : Declaration → Except Fault Node
  | ready n => .ok n
  | foreign v => .error (ConfigurationFault.notANode v).raised
  | stack axis children => do
    let parts ← buildChildren children
    (Node.stackOf axis parts).mapError ConfigurationFault.raised
  | split first share second => do
    let a ← first.build
    let b ← second.build
    Node.splitBy a share b
  | uncheckedSplit first s second t => do
    let a ← first.build
    let b ← second.build
    return .split a s b t none
  | uncheckedList items k r => do return .list (tilesOf (← buildAll items)) k r
  | screen name => ((Catalogue.named name).map Screen.root).mapError ConfigurationFault.raised
  | withStatusBar page => do return Catalogue.withStatusBar (← page.build)
  | withFormat d format => do
    let n ← d.build
    (n.withFormat format).mapError ConfigurationFault.raised
  | withFontSize d given => do
    let n ← d.build
    (n.withFontSize given).mapError ConfigurationFault.raised

/-- The trees of some declarations, or the first refusal. -/
def buildAll : List Declaration → Except Fault (List Node)
  | [] => .ok []
  | d :: ds => do
    let n ← d.build
    return n :: (← buildAll ds)

/-- The children of a stack, or the first refusal inside one of them. -/
def buildChildren : List Declaration → Except Fault (List Node.Child)
  | [] => .ok []
  | foreign v :: ds => do return .foreign v :: (← buildChildren ds)
  | d :: ds => do
    let n ← d.build
    return .node n :: (← buildChildren ds)
end

end Declaration

end PixelLayout
