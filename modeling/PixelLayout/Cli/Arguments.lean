/-!
# Command line arguments

The arguments name a command and set options, in any order. `list` and `render` are commands; after
`render` one more word names a screen. `--profile` and `--output` take the next argument as their
value, whatever it looks like. Everything else that starts with a hyphen has to be one of the flags.

Reading goes from left to right and stops at the first argument that has no place.
-/

namespace PixelLayout

/-- What the program is asked to do. -/
inductive Command where
  | list
  | render
deriving DecidableEq

/-- The word for a command. -/
def Command.word : Command → String
  | list => "list"
  | render => "render"

/-- The arguments of one run. -/
structure Arguments where
  command : Option Command
  screen : Option String
  all : Bool
  profile : Option String
  output : Option String
  stdout : Bool
  showHelp : Bool
  showVersion : Bool
deriving DecidableEq

/-- Why arguments are refused. -/
inductive ArgumentFault where
  | profileWithoutName
  | outputWithoutDirectory
  | unknownOption (argument : String)
  | unknownCommand (argument : String)
deriving DecidableEq

/-- The lines that tell why arguments are refused. -/
def ArgumentFault.lines : ArgumentFault → List String
  | profileWithoutName => ["Error: --profile requires a name"]
  | outputWithoutDirectory => ["Error: --output requires a directory"]
  | unknownOption argument =>
    ["Unknown option: " ++ argument, "Run 'screengen --help' for usage."]
  | unknownCommand argument =>
    ["Unknown command: " ++ argument, "Run 'screengen --help' for usage."]

namespace Arguments

/-- No arguments. -/
def none : Arguments := ⟨.none, .none, false, .none, .none, false, false, false⟩

/-- The command that a word names. -/
def command? (word : String) : Option Command :=
  if word = "list" then some .list else if word = "render" then some .render else .none

/-- The flag that an argument sets. -/
def setFlag? (a : Arguments) (argument : String) : Option Arguments :=
  if argument = "--all" then some { a with all := true }
  else if argument = "--stdout" then some { a with stdout := true }
  else if argument = "--help" ∨ argument = "-h" then some { a with showHelp := true }
  else if argument = "--version" ∨ argument = "-v" then some { a with showVersion := true }
  else .none

/-- A word that is no option: a command, or the name of a screen to render. -/
def setWord (a : Arguments) (word : String) : Except ArgumentFault Arguments :=
  match a.command, command? word with
  | .none, some command => .ok { a with command := some command }
  | command, _ =>
    if command = some .render ∧ a.screen = .none then .ok { a with screen := some word }
    else .error (.unknownCommand word)

/-- An argument that takes no value. -/
def setOne (a : Arguments) (argument : String) : Except ArgumentFault Arguments :=
  match a.setFlag? argument with
  | some a => .ok a
  | .none =>
    if argument.toList.head? = some '-' then .error (.unknownOption argument)
    else a.setWord argument

/-- Reads further arguments. -/
def read (a : Arguments) : List String → Except ArgumentFault Arguments
  | [] => .ok a
  | [argument] =>
    if argument = "--profile" then .error .profileWithoutName
    else if argument = "--output" then .error .outputWithoutDirectory
    else a.setOne argument
  | argument :: next :: rest =>
    if argument = "--profile" then { a with profile := some next }.read rest
    else if argument = "--output" then { a with output := some next }.read rest
    else do (← a.setOne argument).read (next :: rest)

/-- Reads the arguments of a run. -/
def parse (arguments : List String) : Except ArgumentFault Arguments := none.read arguments

end Arguments

end PixelLayout
