import PixelLayout.Kind
import PixelLayout.Number.Share
import PixelLayout.Value

/-!
# Faults

Everything that can go wrong between a declared screen and its emitted documents, by cause:

* `ConfigurationFault`: a declaration that no tree can carry, or an unknown name;
* `LayoutFault`: a tree that cannot be laid out;
* `RenderFault`: a tree that is not laid out and was to be emitted;
* `NumberFault`: a share that yields no number of pixels, or an integer that is too long to be
  written.

The words of each fault are given once, by its `message`; a missing rectangle has none. Some words
hold integers, and these may have too many digits. Then the fault never reaches its caller: what
does is that the integer could not be written (`Fault.raised`).
-/

namespace PixelLayout

/-- What an author may set on the text of a node after it is made. -/
inductive TextSetting where
  | format
  | fontSize
deriving DecidableEq

/-- The name of a text setting in messages. -/
def TextSetting.name : TextSetting → String
  | format => "format"
  | fontSize => "font_size"

/-- A declaration that no tree can carry, or an unknown name. -/
inductive ConfigurationFault where
  | notSettable (wanted : TextSetting) (kind : NodeKind)
  | fontSize (given : Value)
  | share (given : Share)
  | notANode (given : Value)
  | unknownProfile (name : String) (known : List String)
  | unknownScreen (name : String) (known : List String)

/-- Names put together with commas. -/
def commaSeparated (names : List String) : String := ", ".intercalate names

/-- A list of numbers as messages show it. -/
def bracketed (ns : List Int) : String := "[" ++ commaSeparated (ns.map Int.repr) ++ "]"

/-- The words of a configuration fault, which reach an author if they can be written. -/
def ConfigurationFault.message : ConfigurationFault → String
  | notSettable wanted kind => "Cannot set " ++ wanted.name ++ " on " ++ kind.name
  | fontSize given => "Font size must be a positive integer, got " ++ given.inspect
  | share given => "Split share must be within [0, 1], got " ++ given.text
  | notANode given => "Layout children must be nodes, got " ++ given.kindName
  | unknownProfile name known =>
    "Unknown device profile " ++ Text.Quoted.quote name ++ " (known: " ++
      commaSeparated known ++ ")"
  | unknownScreen name known =>
    "Unknown screen " ++ Text.Quoted.quote name ++ " (known: " ++ commaSeparated known ++ ")"

/-- The integers in the words of a configuration fault. -/
def ConfigurationFault.numbers : ConfigurationFault → List Int
  | fontSize given => given.numbers
  | share given => given.numbers
  | notSettable .. | notANode _ | unknownProfile .. | unknownScreen .. => []

/-- A tree that cannot be laid out. -/
inductive LayoutFault where
  /-- A stack without a child that takes a slot. -/
  | noSlots (axis : Axis)
  /-- A list that shows no item. -/
  | visibleCount (count : Int)
  /-- A list too narrow for the margins of its items. -/
  | itemMargin (margin width : Int)
  /-- A rule along an axis in an area too small for its margins. -/
  | ruleMargin (axis : Axis) (margin extent : Int)
  /-- A tile asks for a font size that the display does not have. -/
  | sizeNotOffered (content : String) (size : Int) (profile : String) (offered : List Int)
  /-- A font size that is in no font table. -/
  | unknownSize (size : Int) (known : List Int)
  /-- A tile without a rectangle has no room to fit a font to. -/
  | unplacedTile (content : String)
  /-- A node of no kind that a layout knows. -/
  | unknownKind (kind : NodeKind)
  /-- A screen that the checks refuse, with all that they found. -/
  | notValid (screen profile : String) (findings : List String)
deriving DecidableEq

/-- The words of a layout fault, which reach a caller if they can be written. -/
def LayoutFault.message : LayoutFault → String
  | noSlots axis =>
    (NodeKind.stack axis).name ++
      " stack has no children besides separators; cannot divide its area"
  | visibleCount count => "ListWidget needs a positive visible_count, got " ++ count.repr
  | itemMargin margin width =>
    "ListWidget item margin " ++ margin.repr ++ " does not fit in width " ++ width.repr
  | ruleMargin axis margin extent =>
    (NodeKind.separator axis).name ++ " margin " ++ margin.repr ++ " does not fit in " ++
      (match axis with | .horizontal => "width " | .vertical => "height ") ++ extent.repr
  | sizeNotOffered content size profile offered =>
    "Tile(" ++ Text.Quoted.quote content ++ ") asks for font size " ++ size.repr ++ ", which " ++
      profile ++ " does not have (sizes: " ++ bracketed offered ++ ")"
  | unknownSize size known =>
    "Font size " ++ size.repr ++ " is not available (known sizes: " ++ bracketed known ++ ")"
  | unplacedTile content => "Cannot fit text of an unplaced tile " ++ Text.Quoted.quote content
  | unknownKind kind => "Unknown node type " ++ kind.name
  | notValid screen profile findings =>
    "Screen " ++ Text.Quoted.quote screen ++ " is not valid for " ++ profile ++ ":\n  " ++
      "\n  ".intercalate findings

/-- The integers in the words of a layout fault. The findings are words already. -/
def LayoutFault.numbers : LayoutFault → List Int
  | visibleCount count => [count]
  | itemMargin margin width => [margin, width]
  | ruleMargin _ margin extent => [margin, extent]
  | sizeNotOffered _ size _ offered => size :: offered
  | unknownSize size known => size :: known
  | noSlots _ | unplacedTile _ | unknownKind _ | notValid .. => []

/-- A tree that was to be emitted without being laid out. -/
inductive RenderFault where
  /-- How many nodes lack geometry, and the labels of the first few. -/
  | unresolved (count : Nat) (labels : List String)
deriving DecidableEq

/-- The words of a render fault. -/
def RenderFault.message : RenderFault → String
  | unresolved count labels =>
    "Cannot render unresolved layout (" ++ count.repr ++ " unresolved nodes: " ++
      commaSeparated labels ++ ")"

/-- The words of a number fault. -/
def NumberFault.message : NumberFault → String
  | notANumber => "cannot convert float NaN to integer"
  | infinite => "cannot convert float infinity to integer"
  | tooLarge => "int too large to convert to float"
  | tooManyDigits =>
    "Exceeds the limit (" ++ mostDigits.repr ++ " digits) for integer string conversion; use " ++
      "sys.set_int_max_str_digits() to increase the limit"

/-- Any fault of a screen on its way from declaration to documents. -/
inductive Fault where
  | configuration (fault : ConfigurationFault)
  | layout (fault : LayoutFault)
  | render (fault : RenderFault)
  | number (fault : NumberFault)
  /-- One tile was to be drawn without its rectangle or its text's offset. -/
  | missingGeometry

/-- The integers in the words of a fault. How many nodes lack geometry is never that long. -/
def Fault.numbers : Fault → List Int
  | configuration fault => fault.numbers
  | layout fault => fault.numbers
  | render _ | number _ | missingGeometry => []

/-- The words of the fault can be written. -/
def Fault.Sayable (fault : Fault) : Prop := AllWritable fault.numbers

instance (fault : Fault) : Decidable fault.Sayable := inferInstanceAs (Decidable (AllWritable _))

/-- A fault as it reaches the caller: with its words, or else as the fault of an integer in them
that is too long to be written. -/
def Fault.raised (fault : Fault) : Fault :=
  if fault.Sayable then fault else .number .tooManyDigits

/-- What a builder or an edit refuses, as it reaches the author. -/
def ConfigurationFault.raised (fault : ConfigurationFault) : Fault :=
  (Fault.configuration fault).raised

theorem Fault.raised_of_sayable {fault : Fault} (h : fault.Sayable) : fault.raised = fault :=
  if_pos h

theorem Fault.raised_of_not_sayable {fault : Fault} (h : ¬ fault.Sayable) :
    fault.raised = .number .tooManyDigits :=
  if_neg h

/-- What reaches a caller can be written. -/
theorem Fault.sayable_raised (fault : Fault) : fault.raised.Sayable := by
  by_cases h : fault.Sayable
  · rwa [raised_of_sayable h]
  · rw [raised_of_not_sayable h]
    exact allWritable_nil

end PixelLayout
