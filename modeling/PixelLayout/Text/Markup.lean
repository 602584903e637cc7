/-!
# Characters with a meaning in markup

A field of a document that is not marked as raw has the four characters `&`, `"`, `<` and `>`
replaced by their named entities, so that the field cannot end the element that holds it.
-/

namespace PixelLayout.Text.Markup

/-- What stands for one character. -/
def escapeChar : Char → List Char
  | '&' => "&amp;".toList
  | '"' => "&quot;".toList
  | '<' => "&lt;".toList
  | '>' => "&gt;".toList
  | c => [c]

/-- The text with its four special characters replaced. -/
def escape (text : String) : String := String.ofList (text.toList.flatMap escapeChar)

end PixelLayout.Text.Markup
