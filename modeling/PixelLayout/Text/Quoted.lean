import PixelLayout.Text.Printable

/-!
# Quoted texts

How a message shows a text: between single quotes, or between double quotes if the text has a
single quote and no double one. The backslash and the quote in use stand behind a backslash; tab,
line feed and carriage return have letters; any other character without a printed form is spelled
by its number in two, four or eight hexadecimal digits, whichever is the least that holds it.
-/

namespace PixelLayout.Text.Quoted

/-- A hexadecimal digit, in lower case. -/
def hexDigit (n : Nat) : Char := if n < 10 then Char.ofNat (48 + n) else Char.ofNat (87 + n)

/-- The last `width` hexadecimal digits of a number. -/
def hex : Nat → Nat → List Char
  | 0, _ => []
  | width + 1, n => hex width (n / 16) ++ [hexDigit (n % 16)]

/-- A character spelled by its number. -/
def spell (c : Char) : List Char :=
  let n := c.toNat
  if n ≤ 0xFF then '\\' :: 'x' :: hex 2 n
  else if n ≤ 0xFFFF then '\\' :: 'u' :: hex 4 n
  else '\\' :: 'U' :: hex 8 n

/-- What stands between the quotes for one character. -/
def quoteChar (mark : Char) (c : Char) : List Char :=
  if c = mark ∨ c = '\\' then ['\\', c]
  else if c = '\t' then ['\\', 't']
  else if c = '\n' then ['\\', 'n']
  else if c = '\r' then ['\\', 'r']
  else if isPrintable c then [c]
  else spell c

/-- The quote that a text is shown in. -/
def markFor (cs : List Char) : Char := if '\'' ∈ cs ∧ '"' ∉ cs then '"' else '\''

/-- The characters of a text in quotes. -/
def quoteChars (cs : List Char) : List Char :=
  let mark := markFor cs
  mark :: (cs.flatMap (quoteChar mark) ++ [mark])

/-- A text in quotes. -/
def quote (text : String) : String := String.ofList (quoteChars text.toList)

end PixelLayout.Text.Quoted
