/-!
# Settings

Three settings of a run come from its environment, each by a name that may be absent: the display to
render for, the directory to write to, and the level from which log records are shown. An empty
value counts as absent, and a level by an unknown name is that of warnings.
-/

namespace PixelLayout

/-- The values that an environment gives. -/
structure Environment where
  profile : Option String
  outputDirectory : Option String
  logLevel : Option String

/-- A value that is there and not empty. -/
def nonEmpty? : Option String → Option String
  | some "" => none
  | value => value

namespace Settings

/-- The directory that files are written to unless another is named. -/
def defaultOutputDirectory : String := "generated"

/-- The name of the log level unless another is named. -/
def defaultLogLevel : String := "WARNING"

/-- The capital of a letter whose capital is an ASCII letter. Two such letters are not ASCII
themselves: the dotless i and the long s. -/
def capital (c : Char) : Char :=
  if c = 'ı' then 'I' else if c = 'ſ' then 'S' else c.toUpper

/-- The log levels by name, each with its weight. -/
def levels : List (String × Nat) :=
  [("CRITICAL", 50), ("FATAL", 50), ("ERROR", 40), ("WARNING", 30), ("WARN", 30), ("INFO", 20),
    ("DEBUG", 10), ("NOTSET", 0)]

/-- The weight of a level by its name, in any case of letters; that of warnings for other names. -/
def levelOf (name : String) : Nat :=
  let capitals := String.ofList (name.toList.map capital)
  match levels.find? fun l => l.1 == capitals with
  | some l => l.2
  | none => 30

end Settings

namespace Environment

/-- The display to render for, if one is named. -/
def profileName (e : Environment) : Option String := nonEmpty? e.profile

/-- The directory to write to. -/
def output (e : Environment) : String :=
  (nonEmpty? e.outputDirectory).getD Settings.defaultOutputDirectory

/-- The weight from which log records are shown. -/
def level (e : Environment) : Nat :=
  Settings.levelOf ((nonEmpty? e.logLevel).getD Settings.defaultLogLevel)

end Environment

end PixelLayout
