import PixelLayout.Artifact.Generated
import PixelLayout.Files.Tree

/-!
# Saving a generated screen

A generated screen is saved as two files in one directory, which is made if it is not there: first
the preview, then the draw code. The first refused operation ends it, as does the first path that no
file system can be asked for, and what was written before stays.
-/

namespace PixelLayout

/-- What ended saving. -/
inductive SaveFault where
  /-- The file system refused an operation. -/
  | refused (fault : FileFault)
  /-- The file system could not be asked for a path. -/
  | unusablePath (path : RelativePath)
deriving DecidableEq

/-- How saving went: the files afterwards, the paths written, the log, and the fault that ended
it. -/
structure Saved where
  files : FileTree
  paths : List RelativePath
  log : List LogRecord
  fault : Option SaveFault

namespace Generated

/-- The name endings of the two files, each with the text of its file. -/
def documents (g : Generated) : List (String × String) :=
  [(".60", g.preview), (".inc", g.drawCode)]

/-- What is written to the log for a file. -/
def savedRecord (path : RelativePath) (content : String) : LogRecord :=
  ⟨.info, "screengen.kernel.assembly",
    "Wrote " ++ path.text ++ " (" ++ content.utf8ByteSize.repr ++ " bytes)"⟩

/-- Writes some documents of a screen into a directory, one after the other. -/
def writeAll (name : String) (directory : RelativePath) :
    FileTree → List (String × String) → Saved
  | files, [] => ⟨files, [], [], none⟩
  | files, (ending, content) :: rest =>
    let path := directory ++ RelativePath.ofText (name ++ ending)
    if !path.isUsable then ⟨files, [], [], some (.unusablePath path)⟩
    else match files.write path content with
      | .error fault => ⟨files, [], [], some (.refused fault)⟩
      | .ok files =>
        let later := writeAll name directory files rest
        { later with paths := path :: later.paths, log := savedRecord path content :: later.log }

/-- Saves a screen in a directory. -/
def save (g : Generated) (directory : RelativePath) (files : FileTree) : Saved :=
  if !directory.isUsable then ⟨files, [], [], some (.unusablePath directory)⟩
  else match files.ensureDirectory directory with
    | (files, some fault) => ⟨files, [], [], some (.refused fault)⟩
    | (files, none) => writeAll g.name directory files g.documents

end Generated

end PixelLayout
