import PixelLayout.Number.Written
import PixelLayout.Text.Blank

/-!
# Integers in a configuration

An integer may be given as a text. A plain integer is an optional minus sign and at most
`mostDigits` digits, the first of which is no zero unless it is the only one. A text that starts as
a plain integer does, but with more digits, is too long.

Any other text is tidied first. `readInteger` accepts white space around it, one plus or minus sign,
zeros in front, single underscores between digits, and behind it a point followed by one or more
zeros. Only the ten ASCII digits count. Among the zeros in front underscores may stand in any
number. If no sign comes first, a minus sign may follow these zeros. What is no plain integer after
that is unreadable, too many digits included.
-/

namespace PixelLayout

/-- Why a text is not taken for an integer. -/
inductive IntegerFault where
  | unreadable
  | tooLong
deriving DecidableEq

/-- The text behind zeros and underscores in front, given the last of those that were passed. It
stays if no other digit follows. -/
def dropLeadingZeros (passed : Char) : List Char → Option (List Char)
  | [] => some [passed]
  | c :: rest =>
    if c = '0' ∨ c = '_' then dropLeadingZeros c rest
    else if c.isDigit ∨ c = '-' then some (c :: rest)
    else if c = '.' then some (passed :: c :: rest)
    else none

/-- A text that starts with a digit, without zeros in front. -/
def dropZeros? : List Char → Option (List Char)
  | '0' :: rest => dropLeadingZeros '0' rest
  | c :: rest => if c.isDigit then some (c :: rest) else none
  | [] => none

/-- The text without a plus sign and without zeros in front; none if no integer can start so. -/
def normaliseFront? : List Char → Option (List Char)
  | '+' :: rest => dropZeros? rest
  | '-' :: rest => (dropZeros? rest).map fun cs => '-' :: cs
  | cs => dropZeros? cs

/-- The text without a fraction of zeros. A point with nothing behind it is no fraction. -/
def dropZeroFraction (cs : List Char) : List Char :=
  match cs.dropWhile (· != '.') with
  | _ :: '0' :: zeros => if zeros.all (· == '0') then cs.takeWhile (· != '.') else cs
  | _ => cs

/-- No two underscores stand side by side. -/
def noDoubleUnderscore : List Char → Bool
  | '_' :: '_' :: _ => false
  | _ :: rest => noDoubleUnderscore rest
  | [] => true

/-- The text without underscores if each of them stands alone and inside, else the text itself. -/
def dropUnderscores (cs : List Char) : List Char :=
  if cs.head? = some '_' ∨ cs.getLast? = some '_' ∨ !noDoubleUnderscore cs then cs
  else cs.filter (· != '_')

/-- Reads digits, of which the first is no zero unless it is the only character. A text that starts
with too many digits is too long, whatever follows them. -/
def readDigits (cs : List Char) : Except IntegerFault Nat :=
  let digits := cs.takeWhile Char.isDigit
  if cs.head? = some '0' ∧ cs ≠ ['0'] then .error .unreadable
  else if mostDigits < digits.length then .error .tooLong
  else if digits = [] ∨ digits ≠ cs then .error .unreadable
  else .ok (digits.foldl (fun n c => n * 10 + (c.toNat - '0'.toNat)) 0)

/-- Reads a plain integer. -/
def readPlain : List Char → Except IntegerFault Int
  | '-' :: cs => (readDigits cs).map fun n => -(n : Int)
  | cs => (readDigits cs).map fun n => (n : Int)

/-- The text without white space around it, a plus sign, zeros in front, a fraction of zeros and
underscores; none if no integer can start so. -/
def tidy? (cs : List Char) : Option (List Char) :=
  (normaliseFront? (Text.trimSpace cs)).map fun front =>
    dropUnderscores (dropZeroFraction front)

/-- Reads an integer from a text. -/
def readInteger (text : String) : Except IntegerFault Int :=
  match readPlain text.toList with
  | .ok n => .ok n
  | .error .tooLong => .error .tooLong
  | .error .unreadable =>
    match tidy? text.toList with
    | some plain => (readPlain plain).mapError fun _ => .unreadable
    | none => .error .unreadable

end PixelLayout
