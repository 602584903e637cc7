import PixelLayout.Number.Integer
import PixelLayout.Profile.Basic

/-!
# Reading a profile from a configuration

A profile, or a font table, is read from a record of values. Every field is checked, each up to its
first fault, and every field that the record should not have is a fault too; so a reading yields
either what was read or all faults at once (`Reading`), each with its place in the record.

Numbers may be given as integers of any size, as truth values, as doubles without a fraction that
stay inside the range of a signed word of 64 bits, or as texts. A font table is a list of pairs of
numbers. Pairs with a fault do not count as entries of the table, so a table whose pairs all have
faults is also too short. The order of sizes is looked at only when nothing else is wrong with the
entries.
-/

namespace PixelLayout

/-- One step to a place in a configuration. -/
inductive Step where
  | field (name : String)
  | index (i : Nat)
deriving DecidableEq

/-- What is wrong at a place of a configuration. -/
inductive FieldFault where
  | missing
  | unknownField
  | notAnInteger
  | unreadableInteger
  | integerTooLarge
  | fraction
  | notFinite
  | notAbove
  | below
  | notAText
  | emptyText
  | forbiddenCharacters
  | notAList
  | tooShort
  | tooLong
  | notARecord
  | refusedTable (fault : FontTableFault)
  | readOnly
deriving DecidableEq

/-- The integers in the words of a refusal of fonts. -/
def FontTableFault.numbers : FontTableFault → List Int
  | empty => []
  | notPositive f => [f.size, f.glyphWidth]
  | notDescending sizes => sizes

/-- Why a list of fonts is refused, in words. If these hold an integer that is too long to be
written, that is said instead. -/
def FontTableFault.message (fault : FontTableFault) : String :=
  if AllWritable fault.numbers then
    match fault with
    | empty => "a font table needs at least one font"
    | notPositive f =>
      "font (" ++ f.size.repr ++ ", " ++ f.glyphWidth.repr ++
        ") must have a positive size and glyph width"
    | notDescending sizes => "font sizes must be strictly descending, got " ++ bracketed sizes
  else NumberFault.tooManyDigits.message

/-- A fault and its place, from the outside in. -/
structure PlacedFault where
  place : List Step
  fault : FieldFault
deriving DecidableEq

/-- What was read, or all faults that were found. -/
inductive Reading (α : Type) where
  | ok (value : α)
  | faults (first : PlacedFault) (rest : List PlacedFault)

namespace Reading

variable {α β : Type}

/-- One fault at the place itself. -/
def fail (fault : FieldFault) : Reading α := .faults ⟨[], fault⟩ []

/-- All faults of a reading. -/
def allFaults : Reading α → List PlacedFault
  | .ok _ => []
  | .faults first rest => first :: rest

/-- What was read, changed. -/
def map (f : α → β) : Reading α → Reading β
  | .ok a => .ok (f a)
  | .faults first rest => .faults first rest

/-- Two readings side by side, with the faults of both. -/
def both : Reading (α → β) → Reading α → Reading β
  | .ok f, .ok a => .ok (f a)
  | .ok _, .faults first rest => .faults first rest
  | .faults first rest, a => .faults first (rest ++ a.allFaults)

/-- A reading one step further inside. -/
def within (step : Step) : Reading α → Reading α
  | .ok a => .ok a
  | .faults first rest =>
    let deeper := fun f : PlacedFault => { f with place := step :: f.place }
    .faults (deeper first) (rest.map deeper)

/-- A further test on what was read. -/
def check (fault : FieldFault) (test : α → Bool) : Reading α → Reading α
  | .ok a => if test a then .ok a else fail fault
  | .faults first rest => .faults first rest

end Reading

namespace Value

/-- Reads an integer. -/
def readInt : Value → Reading Int
  | whole n => .ok n
  | flag b => .ok (if b then 1 else 0)
  | real x =>
    if x.hasFraction then .fail .fraction
    else match x.truncate with
      | .ok n => if n.natAbs < 1 <<< 63 then .ok n else .fail .integerTooLarge
      | .error _ => .fail .notFinite
  | text s =>
    match readInteger s with
    | .ok n => .ok n
    | .error .unreadable => .fail .unreadableInteger
    | .error .tooLong => .fail .integerTooLarge
  | _ => .fail .notAnInteger

/-- Reads a text. -/
def readText : Value → Reading String
  | text s => .ok s
  | _ => .fail .notAText

/-- Reads a name: lower-case letters, digits and underscores, at least one of them. -/
def readName (v : Value) : Reading String :=
  (v.readText.check .emptyText fun s => s != "").check .forbiddenCharacters fun s =>
    s.toList.all fun c => ('a' ≤ c && c ≤ 'z') || ('0' ≤ c && c ≤ '9') || c == '_'

/-- Reads an integer above zero. -/
def readPositive (v : Value) : Reading Int := v.readInt.check .notAbove fun n => 0 < n

/-- Reads an integer that is not negative. -/
def readNonnegative (v : Value) : Reading Int := v.readInt.check .below fun n => 0 ≤ n

/-- The value of a field of a record, if it is there. -/
def lookup (fields : List (String × Value)) (name : String) : Option Value :=
  (fields.find? fun f => f.1 == name).map Prod.snd

/-- Reads a field that has to be there. -/
def readField {α : Type} (fields : List (String × Value)) (name : String)
    (read : Value → Reading α) : Reading α :=
  (match lookup fields name with
    | some v => read v
    | none => .fail .missing).within (.field name)

/-- Reads a field that may be absent. -/
def readFieldOr {α : Type} (fields : List (String × Value)) (name : String) (absent : α)
    (read : Value → Reading α) : Reading α :=
  match lookup fields name with
  | some v => (read v).within (.field name)
  | none => .ok absent

/-- Refuses every field that is not among the known ones. -/
def refuseOthers {α : Type} (fields : List (String × Value)) (known : List String)
    (a : Reading α) : Reading α :=
  let unknown := fields.filter fun f => !known.contains f.1
  match unknown.map fun f => (⟨[.field f.1], .unknownField⟩ : PlacedFault) with
  | [] => a
  | first :: rest => (Reading.faults first rest : Reading (α → α)).both a

end Value

namespace FontTable

/-- Reads a number of a pair, which has to be there. -/
def readNumber (items : List Value) (i : Nat) : Reading Int :=
  (match items[i]? with
    | some v => v.readInt
    | none => .fail .missing).within (.index i)

/-- Reads one font: a pair of its size and its glyph width. -/
def readFont : Value → Reading BitmapFont
  | .list items =>
    if 2 < items.length then .fail .tooLong
    else ((readNumber items 0).map BitmapFont.mk).both (readNumber items 1)
  | _ => .fail .notAList

/-- Reads fonts from place `i` on: those without a fault, and the faults of the others. -/
def readFonts : Nat → List Value → List BitmapFont × List PlacedFault
  | _, [] => ([], [])
  | i, v :: vs =>
    let rest := readFonts (i + 1) vs
    match (readFont v).within (.index i) with
    | .ok f => (f :: rest.1, rest.2)
    | .faults first more => (rest.1, first :: (more ++ rest.2))

/-- Reads the entries of a font table. -/
def readEntries : Value → Reading FontTable
  | .list items =>
    match readFonts 0 items with
    | (fonts, []) =>
      match ofEntries fonts with
      | .ok t => .ok t
      | .error .empty => .fail .tooShort
      | .error e => .fail (.refusedTable e)
    | ([], first :: rest) => .faults first (rest ++ [⟨[], .tooShort⟩])
    | (_ :: _, first :: rest) => .faults first rest
  | _ => .fail .notAList

/-- Reads a font table from the fields of a record. -/
def readFields (fields : List (String × Value)) : Reading FontTable :=
  Value.refuseOthers fields ["entries"] (Value.readField fields "entries" readEntries)

/-- Reads a font table. -/
def read : Value → Reading FontTable
  | .record fields => readFields fields
  | _ => .fail .notARecord

end FontTable

namespace Profile

/-- The names of the fields of a profile. -/
def fieldNames : List String :=
  ["name", "width", "height", "font_table", "horizontal_separator_margin",
    "vertical_separator_margin", "list_item_margin", "static_band_height", "preview_font_family"]

/-- Reads a profile from the fields of a record. -/
def readFields (fields : List (String × Value)) : Reading Profile :=
  let name := Value.readField fields "name" Value.readName
  let width := Value.readField fields "width" Value.readPositive
  let height := Value.readField fields "height" Value.readPositive
  let fontTable := Value.readField fields "font_table" FontTable.read
  let margin (field : String) (absent : Int) :=
    Value.readFieldOr fields field absent Value.readNonnegative
  let band := Value.readFieldOr fields "static_band_height" 13 Value.readPositive
  let family :=
    Value.readFieldOr fields "preview_font_family" defaultPreviewFontFamily Value.readText
  Value.refuseOthers fields fieldNames <|
    ((((((((name.map mk).both width).both height).both fontTable).both
      (margin "horizontal_separator_margin" 13)).both
      (margin "vertical_separator_margin" 3)).both
      (margin "list_item_margin" 1)).both band).both family

/-- A profile is not changed once it is read: assigning to any of its fields is a fault. -/
def refuseAssignment (field : String) : PlacedFault := ⟨[.field field], .readOnly⟩

end Profile

end PixelLayout
