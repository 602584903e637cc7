import PixelLayout.Fault
import PixelLayout.Font.Table

/-!
# Device profiles

What a layout has to know about one display: its size, its fonts, the margins of rules and of list
items, the height of the band that the cached part of the screen covers, and the desktop font that
stands in for the bitmap fonts in a preview.

Two displays are built in. A profile is a plain record: that its numbers make sense is checked where
one is read from a configuration (`PixelLayout.Profile.Reading`), not here.
-/

namespace PixelLayout

/-- The calibration of one display. -/
structure Profile where
  name : String
  width : Int
  height : Int
  fontTable : FontTable
  horizontalSeparatorMargin : Int
  verticalSeparatorMargin : Int
  listItemMargin : Int
  /-- The height of the band that is drawn once and cached. -/
  staticBandHeight : Int
  previewFontFamily : String

namespace Profile

/-- The whole display. -/
def bounds (p : Profile) : Rect := ⟨0, 0, p.width, p.height⟩

/-- The margin of a rule at both its ends. -/
def separatorMargin (p : Profile) : Axis → Int
  | .horizontal => p.horizontalSeparatorMargin
  | .vertical => p.verticalSeparatorMargin

/-- The desktop font of a preview, unless a profile names another. -/
def defaultPreviewFontFamily : String := "Ubuntu Mono"

/-- An electronic paper display of 2.9 inches. -/
def waveshare2in9 : Profile where
  name := "waveshare_2in9"
  width := 296
  height := 128
  fontTable :=
    { entries := [⟨56, 32⟩, ⟨42, 24⟩, ⟨31, 18⟩, ⟨24, 14⟩, ⟨19, 11⟩]
      nonempty := by decide
      positive := by decide
      descending := by decide }
  horizontalSeparatorMargin := 13
  verticalSeparatorMargin := 3
  listItemMargin := 1
  staticBandHeight := 13
  previewFontFamily := defaultPreviewFontFamily

/-- A memory-in-pixel display of 2.7 inches. -/
def sharpMip2in7 : Profile where
  name := "sharp_mip_2in7"
  width := 400
  height := 240
  fontTable :=
    { entries := [⟨42, 24⟩, ⟨24, 17⟩, ⟨20, 14⟩, ⟨16, 11⟩, ⟨12, 7⟩, ⟨8, 5⟩]
      nonempty := by decide
      positive := by decide
      descending := by decide }
  horizontalSeparatorMargin := 13
  verticalSeparatorMargin := 3
  listItemMargin := 1
  staticBandHeight := 24
  previewFontFamily := defaultPreviewFontFamily

/-- The built-in displays. -/
def builtIn : List Profile := [waveshare2in9, sharpMip2in7]

/-- The names of the built-in displays, in alphabetical order. -/
def knownNames : List String := (builtIn.map name).mergeSort fun a b => decide (a ≤ b)

/-- The built-in display of a name. -/
def named (wanted : String) : Except ConfigurationFault Profile :=
  match builtIn.find? (fun p => p.name == wanted) with
  | some p => .ok p
  | none => .error (.unknownProfile wanted knownNames)

end Profile

end PixelLayout
