/-!
# Relative paths

A path is the list of its parts, from the outside in. Written down, the parts stand between slashes;
empty parts and single dots say nothing and are left out, and the path without parts is written as a
single dot. A part of two dots is kept, since it leads to wherever the part before it leads from.

File systems end a path at its first NUL character, so a path that holds one cannot be asked for.
-/

namespace PixelLayout

/-- A path, by its parts. -/
abbrev RelativePath := List String

namespace RelativePath

/-- The stretches of a text between slashes. -/
def stretches : List Char → List (List Char)
  | [] => [[]]
  | c :: cs =>
    if c = '/' then [] :: stretches cs
    else match stretches cs with
      | [] => [[c]]
      | part :: parts => (c :: part) :: parts

/-- The path that a text spells. -/
def ofText (text : String) : RelativePath :=
  ((stretches text.toList).map String.ofList).filter fun part => part != "" && part != "."

/-- A path as it is written. -/
def text (path : RelativePath) : String :=
  match path with
  | [] => "."
  | parts => "/".intercalate parts

/-- A file system can be asked for the path: no part of it holds a NUL character. -/
def isUsable (path : RelativePath) : Bool :=
  path.all fun part => part.toList.all fun c => c.toNat != 0

end RelativePath

end PixelLayout
