import PixelLayout.Number.Decimal
import PixelLayout.Number.Written
import PixelLayout.Text.Quoted

/-!
# Values of a configuration

What an author may write where the program expects a setting: nothing, a truth value, a number, a
text, a list or a record. Most places expect one kind and refuse the others with a message, so
every value can be shown in two ways: `inspect` is how a message quotes it, and `text` how a
document prints it. They differ only in the quotes around a text.
-/

namespace PixelLayout

/-- A value as an author may write it. -/
inductive Value where
  | null
  | flag (b : Bool)
  | whole (n : Int)
  | real (x : Binary64)
  | text (s : String)
  | list (items : List Value)
  | record (fields : List (String × Value))
deriving Inhabited

namespace Value

/-- The spelling of a truth value. -/
def flagText (b : Bool) : String := if b then "True" else "False"

mutual
/-- How a message quotes a value. -/
def inspect : Value → String
  | null => "None"
  | flag b => flagText b
  | whole n => n.repr
  | real x => Decimal.text x
  | text s => Text.Quoted.quote s
  | list items => "[" ++ ", ".intercalate (inspectItems items) ++ "]"
  | record fields => "\x7b" ++ ", ".intercalate (inspectFields fields) ++ "\x7d"

/-- The items of a list, each as a message quotes it. -/
def inspectItems : List Value → List String
  | [] => []
  | v :: vs => v.inspect :: inspectItems vs

/-- The fields of a record, each as a message quotes it. -/
def inspectFields : List (String × Value) → List String
  | [] => []
  | (name, v) :: fields => (Text.Quoted.quote name ++ ": " ++ v.inspect) :: inspectFields fields
end

mutual
/-- The integers in a value as a message quotes it. -/
def numbers : Value → List Int
  | whole n => [n]
  | list items => numbersOfItems items
  | record fields => numbersOfFields fields
  | null | flag _ | real _ | text _ => []

/-- The integers in the items of a list. -/
def numbersOfItems : List Value → List Int
  | [] => []
  | v :: vs => v.numbers ++ numbersOfItems vs

/-- The integers in the fields of a record. -/
def numbersOfFields : List (String × Value) → List Int
  | [] => []
  | (_, v) :: fields => v.numbers ++ numbersOfFields fields
end

/-- How a document prints a value. -/
def toText : Value → String
  | text s => s
  | v => v.inspect

/-- How a document prints a setting: nothing for a value that is absent or empty. Zero, be it an
integer or a double, and the false truth value are neither. -/
def settingText : Value → String
  | null => ""
  | list [] => ""
  | record [] => ""
  | v => v.toText

/-- The value counts as a yes: it is not absent, not false, not zero and not empty. -/
def isTruthy : Value → Bool
  | null => false
  | flag b => b
  | whole n => n != 0
  | real x => !(x.same Binary64.zero)
  | text s => s != ""
  | list items => !items.isEmpty
  | record fields => !fields.isEmpty

/-- The name of a value's kind in messages. -/
def kindName : Value → String
  | null => "NoneType"
  | flag _ => "bool"
  | whole _ => "int"
  | real _ => "float"
  | text _ => "str"
  | list _ => "list"
  | record _ => "dict"

end Value

end PixelLayout
