import PixelLayout.Cli.Run

/-!
# The command line program

The outer layer of `PixelLayout.Cli.run`: it looks up the environment and the files that the run may
meet, and carries out what the run decided. Files are looked up along the output directory and in
it; of a file that is there only that it is there matters, not its text.
-/

namespace PixelLayout.Cli

/-- The environment of this process. -/
def readEnvironment : IO Environment := do
  return ⟨← IO.getEnv "SCREENGEN_PROFILE", ← IO.getEnv "SCREENGEN_OUTPUT_DIR",
    ← IO.getEnv "SCREENGEN_LOG_LEVEL"⟩

/-- The place that a part leads to. -/
def nextPlace (here : RelativePath) (part : String) : RelativePath :=
  if part = ".." then here.dropLast else here ++ [part]

/-- The places that a path leads through. -/
def placesAlong (path : RelativePath) : List RelativePath :=
  (List.range path.length).map fun n => (path.take (n + 1)).foldl nextPlace []

/-- What stands at a place below the working directory. -/
def lookAt (place : RelativePath) : IO (Option FileEntry) := do
  let path := place.foldl (fun path part => path / part) (← IO.currentDir)
  if ← path.isDir then return some .directory
  else if ← path.pathExists then return some (.text "")
  else return none

/-- The files that a run may meet. -/
def readFiles (places : List RelativePath) : IO FileTree := do
  let mut files : FileTree := ⟨[]⟩
  for place in places do
    if !place.isEmpty then
      if let some entry ← lookAt place then files := files.put place entry
  return files

/-- All places that a run may touch when it saves to a directory. -/
def placesTouched (directory : RelativePath) : List RelativePath :=
  let place := directory.foldl nextPlace []
  placesAlong directory ++
    Catalogue.screens.flatMap fun s => [place ++ [s.name ++ ".60"], place ++ [s.name ++ ".inc"]]

/-- Makes the directories and writes the texts that a run added or changed. -/
def carryOut (before after : FileTree) : IO Unit := do
  for (place, entry) in after.entries do
    if before.entry? place != some entry then
      let path := place.foldl (fun path part => path / part) (← IO.currentDir)
      match entry with
      | .directory => IO.FS.createDirAll path
      | .text content => IO.FS.writeFile path content

end PixelLayout.Cli

open PixelLayout PixelLayout.Cli

/-- Runs the program once. -/
def main (arguments : List String) : IO UInt32 := do
  let environment ← readEnvironment
  let directory := match Arguments.parse arguments with
    | .ok a =>
      match wantedTarget a environment with
      | .save directory => directory
      | .print => []
    | .error _ => []
  let before ← readFiles (placesTouched directory)
  let outcome := run arguments environment before
  carryOut before outcome.files
  for record in outcome.log do
    IO.eprintln record.line
  IO.print outcome.stdout
  return match outcome.ending with
    | .informed => 0
    | .exit code => code.toUInt32
    | .aborted _ => 1
