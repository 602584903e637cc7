import PixelLayout.Files.Path
import PixelLayout.Text.Quoted

/-!
# A tree of files

The files below one directory: each place holds a directory or a text. Two operations change a tree,
making a directory and writing a text, and each may be refused for one of five reasons.

A path is followed from the outside in, one part at a time. Each part but the last has to lead to a
directory; two dots lead to the directory around, and the outermost directory is around itself.
-/

namespace PixelLayout

/-- What stands at a place of a file tree. -/
inductive FileEntry where
  | directory
  | text (content : String)
deriving DecidableEq

/-- Why an operation on files is refused. -/
inductive FileFaultCause where
  | present
  | notADirectory
  | isADirectory
  | notFound
  | nameTooLong
deriving DecidableEq

/-- A refused operation: the reason, and the path that was asked for. -/
structure FileFault where
  cause : FileFaultCause
  path : RelativePath
deriving DecidableEq

/-- The number of a reason. -/
def FileFaultCause.number : FileFaultCause → Nat
  | notFound => 2
  | present => 17
  | notADirectory => 20
  | isADirectory => 21
  | nameTooLong => 36

/-- The words of a reason. -/
def FileFaultCause.words : FileFaultCause → String
  | notFound => "No such file or directory"
  | present => "File exists"
  | notADirectory => "Not a directory"
  | isADirectory => "Is a directory"
  | nameTooLong => "File name too long"

/-- The words of a refused operation. -/
def FileFault.message (f : FileFault) : String :=
  "[Errno " ++ f.cause.number.repr ++ "] " ++ f.cause.words ++ ": " ++
    Text.Quoted.quote f.path.text

/-- A tree of files: what stands at each place, a place being its parts from the outside in. -/
structure FileTree where
  entries : List (RelativePath × FileEntry)

namespace FileTree

/-- The longest part of a path, in bytes. -/
def partLimit : Nat := 255

/-- The longest path, in bytes. -/
def pathLimit : Nat := 4095

/-- What stands at a place. The outermost directory is always there. -/
def entry? (files : FileTree) (place : RelativePath) : Option FileEntry :=
  if place = [] then some .directory
  else (files.entries.find? fun e => e.1 == place).map Prod.snd

/-- The tree with something else at a place. -/
def put (files : FileTree) (place : RelativePath) (entry : FileEntry) : FileTree :=
  if files.entries.any fun e => e.1 == place then
    ⟨files.entries.map fun e => if e.1 == place then (place, entry) else e⟩
  else ⟨files.entries ++ [(place, entry)]⟩

/-- The place that a part leads to from a directory. -/
def enter (files : FileTree) (here : RelativePath) (part : String) :
    Except FileFaultCause RelativePath :=
  if part = ".." then .ok here.dropLast
  else if partLimit < part.utf8ByteSize then .error .nameTooLong
  else match files.entry? (here ++ [part]) with
    | none => .error .notFound
    | some _ => .ok (here ++ [part])

/-- The directory that some parts lead to from a directory. -/
def enterAll (files : FileTree) (here : RelativePath) :
    List String → Except FileFaultCause RelativePath
  | [] => .ok here
  | part :: parts =>
    match files.enter here part with
    | .error cause => .error cause
    | .ok next =>
      match files.entry? next with
      | some .directory => files.enterAll next parts
      | _ => .error .notADirectory

/-- A path leads to a directory. -/
def isDirectory (files : FileTree) (path : RelativePath) : Bool :=
  match files.enterAll [] path with
  | .ok _ => path.text.utf8ByteSize ≤ pathLimit
  | .error _ => false

/-- The place for a new entry: the directory that all parts but the last lead to, and the last part.
None if the path leads to a directory by its very form. -/
def placeFor (files : FileTree) (path : RelativePath) :
    Except FileFaultCause (Option RelativePath) :=
  if pathLimit < path.text.utf8ByteSize then .error .nameTooLong
  else match path.getLast? with
    | none => .ok none
    | some name =>
      match files.enterAll [] path.dropLast with
      | .error cause => .error cause
      | .ok here =>
        if name = ".." then .ok none
        else if partLimit < name.utf8ByteSize then .error .nameTooLong
        else .ok (some (here ++ [name]))

/-- Makes one directory, in a directory that has to be there. -/
def makeDirectory (files : FileTree) (path : RelativePath) : Except FileFaultCause FileTree :=
  match files.placeFor path with
  | .error cause => .error cause
  | .ok none => .error .present
  | .ok (some place) =>
    match files.entry? place with
    | some _ => .error .present
    | none => .ok (files.put place .directory)

/-- Makes a directory and all directories around it, given by its parts from the inside out. What is
already a directory stays. The outermost new directory is made first, so a fault further in leaves
the ones around it. -/
def ensureInsideOut (files : FileTree) : List String → FileTree × Option FileFault
  | [] => (files, none)
  | part :: around =>
    let path := (part :: around).reverse
    let orRefuse (files : FileTree) (cause : FileFaultCause) : FileTree × Option FileFault :=
      if files.isDirectory path then (files, none) else (files, some ⟨cause, path⟩)
    match files.makeDirectory path with
    | .ok files => (files, none)
    | .error .notFound =>
      match files.ensureInsideOut around with
      | (files, some fault) => (files, some fault)
      | (files, none) =>
        match files.makeDirectory path with
        | .ok files => (files, none)
        | .error cause => orRefuse files cause
    | .error cause => orRefuse files cause

/-- Makes a directory and all directories around it, as far as they are not there. -/
def ensureDirectory (files : FileTree) (path : RelativePath) : FileTree × Option FileFault :=
  files.ensureInsideOut path.reverse

/-- Writes a text, in a directory that has to be there. -/
def write (files : FileTree) (path : RelativePath) (content : String) : Except FileFault FileTree :=
  match files.placeFor path with
  | .error cause => .error ⟨cause, path⟩
  | .ok none => .error ⟨.isADirectory, path⟩
  | .ok (some place) =>
    match files.entry? place with
    | some .directory => .error ⟨.isADirectory, path⟩
    | _ => .ok (files.put place (.text content))

/-- The tree with an entry at a place and directories all around it. -/
def putDeep (files : FileTree) (place : RelativePath) (entry : FileEntry) : FileTree :=
  let around := (List.range place.length).drop 1
  let files := around.foldl (fun files n =>
    match files.entry? (place.take n) with
    | none => files.put (place.take n) .directory
    | some _ => files) files
  files.put place entry

/-- The tree that holds the given entries and the directories around them. -/
def ofEntries (entries : List (RelativePath × FileEntry)) : FileTree :=
  entries.foldl (fun files e => files.putDeep e.1 e.2) ⟨[]⟩

end FileTree

end PixelLayout
