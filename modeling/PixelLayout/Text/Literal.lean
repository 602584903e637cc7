/-!
# String literals of the emitted documents

Both emitted documents, the preview markup and the draw code, write a text between double quotes
and escape the same four characters: the backslash, the double quote, the line feed and the carriage
return. The escape is one pass over the characters, so no character is ever escaped twice.

`unescape` reads such a literal back. It refuses a text that no escape produces: a bare quote, a
raw line feed or carriage return, and a backslash before any other character.
-/

namespace PixelLayout.Text.Literal

/-- What stands in a literal for one character. -/
def escapeChar : Char → List Char
  | '\\' => ['\\', '\\']
  | '"' => ['\\', '"']
  | '\n' => ['\\', 'n']
  | '\r' => ['\\', 'r']
  | c => [c]

/-- The inside of a literal that spells the given characters. -/
def escapeChars (cs : List Char) : List Char := cs.flatMap escapeChar

/-- The inside of a literal that spells `text`. -/
def escape (text : String) : String := String.ofList (escapeChars text.toList)

/-- Reads the inside of a literal back to the characters it spells. -/
def unescapeChars : List Char → Option (List Char)
  | [] => some []
  | '\\' :: '\\' :: rest => (unescapeChars rest).map ('\\' :: ·)
  | '\\' :: '"' :: rest => (unescapeChars rest).map ('"' :: ·)
  | '\\' :: 'n' :: rest => (unescapeChars rest).map ('\n' :: ·)
  | '\\' :: 'r' :: rest => (unescapeChars rest).map ('\r' :: ·)
  | c :: rest =>
    if c = '\\' ∨ c = '"' ∨ c = '\n' ∨ c = '\r' then none
    else (unescapeChars rest).map (c :: ·)

/-- Reads the inside of a literal back to the text it spells. -/
def unescape (literal : String) : Option String :=
  (unescapeChars literal.toList).map String.ofList

/-- Doubles every percent sign, so that a formatted print shows the text as it stands. -/
def doublePercent (text : String) : String :=
  String.ofList (text.toList.flatMap fun c => if c = '%' then ['%', '%'] else [c])

end PixelLayout.Text.Literal
