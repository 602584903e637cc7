import PixelLayout.Node.Basic
import PixelLayout.Profile.Basic

/-!
# Checking a tree

A check looks at the structure of a tree before any pass: are there slots in each stack, are the
shares of each split sound, has each list items that show, and, for a given display, does it offer
every font size that the author asks for. A pass stops at the first thing it cannot lay out; a check
goes through the whole tree and finds everything, in document order.

A finding names its node by a path from the root: the place among the children, and the label, of
every node on the way.

Each problem is put into words as it is found. So what stops a check is a number: one in a problem
that is too long to be written (`Check.said`), or a sum of shares that is an integer beyond every
double.
-/

namespace PixelLayout

/-- The two halves of a split. -/
inductive Half where
  | first
  | second
deriving DecidableEq

/-- The name of a half in messages. -/
def Half.name : Half → String
  | first => "first"
  | second => "second"

/-- What a check finds wrong with one node. -/
inductive Problem where
  | emptyStack (axis : Axis)
  | onlySeparators (axis : Axis)
  | improperShare (half : Half) (share : Share)
  | shareSum (sum : Share)
  | noItems
  | visibleCount (count : Int)
  | sizeNotOffered (size : Int) (profile : String)
deriving DecidableEq

/-- The words of a problem. A check finds only such problems whose words can be written. -/
def Problem.message : Problem → String
  | emptyStack axis => (NodeKind.stack axis).name ++ " stack is empty"
  | onlySeparators axis => (NodeKind.stack axis).name ++ " stack contains only separators"
  | improperShare half share =>
    "Split " ++ half.name ++ " share " ++ share.text ++ " is outside [0, 1]"
  | shareSum sum => "Split shares add up to " ++ sum.text ++ ", expected 1.0"
  | noItems => "ListWidget has no items"
  | visibleCount count => "ListWidget visible_count must be at least 1, got " ++ count.repr
  | sizeNotOffered size profile =>
    "font size " ++ size.repr ++ " is not available on " ++ profile

/-- The integers in the words of a problem. -/
def Problem.numbers : Problem → List Int
  | improperShare _ share => share.numbers
  | shareSum sum => sum.numbers
  | visibleCount count => [count]
  | sizeNotOffered size _ => [size]
  | emptyStack _ | onlySeparators _ | noItems => []

/-- The words of the problem can be written. -/
def Problem.Sayable (x : Problem) : Prop := AllWritable x.numbers

instance (x : Problem) : Decidable x.Sayable := inferInstanceAs (Decidable (AllWritable _))

/-- A problem and the path of its node. -/
structure Finding where
  path : String
  problem : Problem
deriving DecidableEq

/-- The words of a finding. -/
def Finding.message (f : Finding) : String := f.path ++ ": " ++ f.problem.message

namespace Check

/-- Problems in words; one that cannot be written stops the check. -/
def said (problems : List Problem) : Except NumberFault (List Problem) :=
  if ∀ x ∈ problems, x.Sayable then .ok problems else .error .tooManyDigits

/-- What is wrong with a stack of the given nodes. -/
def stackProblems (axis : Axis) (nodes : List Node) : List Problem :=
  if nodes.isEmpty then [.emptyStack axis]
  else if nodes.all Node.isSeparator then [.onlySeparators axis]
  else []

/-- What is wrong with one share. -/
def shareProblems (half : Half) (share : Share) : List Problem :=
  if share.isProper then [] else [.improperShare half share]

/-- What is wrong with the two shares of a split: with each of them, and then with their sum. -/
def splitProblems (first second : Share) : Except NumberFault (List Problem) := do
  let each ← said (shareProblems .first first ++ shareProblems .second second)
  let sum ← first.add second
  let sound ← sum.isCloseToOne
  let both ← said (if sound then [] else [.shareSum sum])
  return each ++ both

/-- What is wrong with a list. -/
def listProblems (items : List Tile) (visibleCount : Int) : List Problem :=
  (if items.isEmpty then [.noItems] else []) ++
    (if visibleCount < 1 then [.visibleCount visibleCount] else [])

/-- What is wrong with a tile on a display, if one is given. -/
def tileProblems (p : Option Profile) (t : Tile) : List Problem :=
  match p, t.text.fontSize with
  | some p, some size => if p.fontTable.hasSize size then [] else [.sizeNotOffered size p.name]
  | _, _ => []

/-- What is wrong with one node, whatever is below it. -/
def nodeProblems (p : Option Profile) : Node → Except NumberFault (List Problem)
  | .stack axis nodes _ => said (stackProblems axis nodes)
  | .split _ s _ t _ => splitProblems s t
  | .tile t => said (tileProblems p t)
  | .list items k _ => said (listProblems items k)
  | .separator .. => .ok []
  | .bare _ => .ok []

/-- What is wrong with one node, under its path. -/
def nodeFindings (p : Option Profile) (path : String) (n : Node) :
    Except NumberFault (List Finding) :=
  (nodeProblems p n).map fun problems => problems.map (Finding.mk path)

/-- The path of a child. -/
def childPath (path : String) (index : Nat) (child : Node) : String :=
  path ++ "/" ++ index.repr ++ ":" ++ child.describe

/-- What is wrong with the items of a list from a place on. -/
def itemFindings (p : Option Profile) (path : String) :
    Nat → List Tile → Except NumberFault (List Finding)
  | _, [] => .ok []
  | i, t :: ts => do
    let here ← nodeFindings p (childPath path i (.tile t)) (.tile t)
    return here ++ (← itemFindings p path (i + 1) ts)

mutual
/-- What is wrong with a node and all below it, in document order. -/
def findings (p : Option Profile) : Node → String → Except NumberFault (List Finding)
  | .stack axis nodes r, path => do
    let own ← nodeFindings p path (.stack axis nodes r)
    return own ++ (← findingsAll p path 0 nodes)
  | .split a s b t r, path => do
    let own ← nodeFindings p path (.split a s b t r)
    let first ← findings p a (childPath path 0 a)
    let second ← findings p b (childPath path 1 b)
    return own ++ (first ++ second)
  | .list items k r, path => do
    let own ← nodeFindings p path (.list items k r)
    return own ++ (← itemFindings p path 0 items)
  | .tile t, path => nodeFindings p path (.tile t)
  | .separator axis r, path => nodeFindings p path (.separator axis r)
  | .bare r, path => nodeFindings p path (.bare r)

/-- What is wrong with the children of a node from a place on, in document order. -/
def findingsAll (p : Option Profile) (path : String) :
    Nat → List Node → Except NumberFault (List Finding)
  | _, [] => .ok []
  | i, n :: ns => do
    let here ← findings p n (childPath path i n)
    return here ++ (← findingsAll p path (i + 1) ns)
end

end Check

/-- Everything that is wrong with a tree, on a display if one is given. -/
def Node.check (root : Node) (p : Option Profile) : Except NumberFault (List Finding) :=
  Check.findings p root "root"

end PixelLayout
