/-!
# White space

Two classes of white space. `isSpace` is the Unicode property White_Space, which is what is trimmed
from a number in a configuration. `isBlank` adds the four information separators U+001C to U+001F;
a line made only of such characters is a blank line and is never indented.
-/

namespace PixelLayout.Text

/-- The Unicode property White_Space. -/
def isSpace (c : Char) : Bool :=
  let n := c.val
  (9 ≤ n && n ≤ 13) || n = 0x20 || n = 0x85 || n = 0xA0 || n = 0x1680 ||
    (0x2000 ≤ n && n ≤ 0x200A) || n = 0x2028 || n = 0x2029 || n = 0x202F || n = 0x205F ||
    n = 0x3000

/-- White space, or one of the four information separators. -/
def isBlank (c : Char) : Bool :=
  isSpace c || (0x1C ≤ c.val && c.val ≤ 0x1F)

/-- The characters without the white space at either end. -/
def trimSpace (cs : List Char) : List Char :=
  ((cs.dropWhile isSpace).reverse.dropWhile isSpace).reverse

end PixelLayout.Text
