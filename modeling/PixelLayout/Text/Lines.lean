import PixelLayout.Text.Blank

/-!
# Lines and indentation

A text is cut into lines after every line boundary: line feed, carriage return (a carriage return
and the line feed behind it are one boundary), vertical tab, form feed, the file, group and record
separators, next line, and the line and paragraph separators. The boundaries stay at the ends of
their lines, so the lines put together are the text again.

`indent` puts a margin before every line that is not blank. Because it cuts at every boundary, a
text with a form feed inside a string literal gets a margin inside that literal.
-/

namespace PixelLayout.Text

/-- A character that ends a line. -/
def isLineBoundary (c : Char) : Bool :=
  let n := c.val
  (10 ≤ n && n ≤ 13) || (0x1C ≤ n && n ≤ 0x1E) || n = 0x85 || n = 0x2028 || n = 0x2029

/-- The lines of a text, each with its boundary at its end. -/
def splitLines : List Char → List (List Char)
  | [] => []
  | '\r' :: '\n' :: rest => ['\r', '\n'] :: splitLines rest
  | c :: rest =>
    if isLineBoundary c then [c] :: splitLines rest
    else match splitLines rest with
      | [] => [[c]]
      | line :: lines => (c :: line) :: lines

/-- One line behind a margin; a blank line stays as it is. -/
def indentLine (margin : List Char) (line : List Char) : List Char :=
  if line.all isBlank then line else margin ++ line

/-- The text with a margin before every line that is not blank. -/
def indentChars (margin : List Char) (cs : List Char) : List Char :=
  (splitLines cs).flatMap (indentLine margin)

/-- The characters without the line feeds at their end. -/
def dropFinalNewlines (cs : List Char) : List Char :=
  (cs.reverse.dropWhile (· == '\n')).reverse

/-- The text without the line feeds at its end. -/
def chomp (text : String) : String := String.ofList (dropFinalNewlines text.toList)

/-- The text without the line feeds at its end, every line behind a margin of `columns` spaces. -/
def indentBlock (columns : Nat) (text : String) : String :=
  String.ofList (indentChars (List.replicate columns ' ') (dropFinalNewlines text.toList))

end PixelLayout.Text
