import PixelLayout.Artifact.DrawCode
import PixelLayout.Artifact.Preview
import PixelLayout.Catalogue
import PixelLayout.Check
import PixelLayout.Pass

/-!
# Generated screens

A declared tree becomes a generated screen in three steps: it is checked for the display, laid out
on the whole display, and emitted as a preview and as draw code. A tree with findings is refused
with all of them at once.
-/

namespace PixelLayout

/-- The documents of one screen, and the layout from which they were made. -/
structure Generated where
  name : String
  profile : Profile
  layout : Node
  preview : String
  drawCode : String

/-- The name of a screen that has none of its own. -/
def Generated.defaultName : String := "screen"

/-- Refuses a tree with findings on a display. -/
def Node.requireSound (root : Node) (p : Profile) (name : String) : Except Fault Unit := do
  match ← (root.check (some p)).mapError .number with
  | [] => return ()
  | findings => throw (.layout (.notValid name p.name (findings.map Finding.message)))

/-- The generated screen of a tree on a display. -/
def Node.generate (root : Node) (p : Profile) (name : String) (options : DrawCode.Options) :
    Except Fault Generated := do
  root.requireSound p name
  let layout ← root.resolve p.bounds p
  let preview ← Preview.render layout p.bounds p
  let drawCode ← DrawCode.render layout p.bounds p options
  return ⟨name, p, layout, preview, drawCode⟩

/-- The generated screen of a catalogue entry, on its own display unless another one is given. -/
def Screen.generate (s : Screen) (p : Option Profile) (options : DrawCode.Options) :
    Except Fault Generated := do
  let target ← match p with
    | some p => .ok p
    | none => (Profile.named s.profileName).mapError .configuration
  s.root.generate target s.name options

end PixelLayout
