import PixelLayout.Artifact.Saved
import PixelLayout.Cli.Arguments
import PixelLayout.Cli.Settings

/-!
# A run of the program

A run takes its arguments, its environment and the files below its working directory, and yields
what it prints, what it logs, the files afterwards and how it ends. It is a plain function:
`Outcome` is all that a run does.

A render command goes through the wanted screens in order. The first fault ends the run with exit
code 1 and one line that names it; the screens before it are complete by then. A directory that no
file system can be asked for aborts the run without such a line.
-/

namespace PixelLayout

/-- How a run ends. -/
inductive Ending where
  /-- The run only informed about the program, and ends without an exit code. -/
  | informed
  | exit (code : Nat)
  /-- The run was to use a path that no file system can be asked for. -/
  | aborted (path : RelativePath)
deriving DecidableEq

/-- All that a run does. -/
structure Outcome where
  ending : Ending
  stdout : String
  log : List LogRecord
  files : FileTree

namespace Cli

/-- The version of the program. -/
def version : String := "0.3.0"

/-- The text of a line of output. -/
def line (text : String) : String := text ++ "\n"

/-- The text of some lines of output. -/
def lines (texts : List String) : String := String.join (texts.map line)

/-- The help text. -/
def help : String := lines [
  "",
  "screengen v" ++ version,
  "",
  "Usage:",
  "  screengen [options] <command>",
  "",
  "Commands:",
  "  list                List screens and device profiles",
  "  render <screen>     Generate preview markup and draw code for a screen",
  "  render --all        Generate every screen",
  "",
  "Options:",
  "  --profile NAME      Render for this device profile instead of the screen's own",
  "  --output DIR        Write files to DIR (default: " ++ Settings.defaultOutputDirectory ++ ")",
  "  --stdout            Print generated files instead of writing them",
  "  -h, --help          Show this help",
  "  -v, --version       Show version",
  "",
  "Environment:",
  "  SCREENGEN_PROFILE      Same as --profile",
  "  SCREENGEN_OUTPUT_DIR   Same as --output",
  "  SCREENGEN_LOG_LEVEL    Logging level (default: " ++ Settings.defaultLogLevel ++ ")",
  "",
  "Examples:",
  "  screengen list",
  "  screengen render gps_status",
  "  screengen render select_stats --stdout",
  "  screengen render --all --output build/ui",
  ""]

/-- A text with blanks behind it up to a width. -/
def padRight (width : Nat) (text : String) : String :=
  text ++ String.ofList (List.replicate (width - text.length) ' ')

/-- The line of a screen in the listing, its name padded to a width. -/
def screenLine (width : Nat) (s : Screen) : String :=
  "  " ++ padRight width s.name ++ "  " ++ padRight 16 s.profileName ++ " " ++ s.description

/-- The line of a display in the listing. -/
def profileLine (p : Profile) : String :=
  "  " ++ padRight 16 p.name ++ " " ++ p.width.repr ++ "x" ++ p.height.repr ++ "  fonts " ++
    bracketed p.fontTable.sizes

/-- The listing of all screens and displays. -/
def listing : String :=
  let width := (Catalogue.screens.map fun s => s.name.length).foldl max 0
  lines (["Screens:"] ++ Catalogue.screens.map (screenLine width) ++ ["", "Profiles:"] ++
    Profile.builtIn.map profileLine)

/-- What a render command did so far. -/
structure Transcript where
  stdout : String
  log : List LogRecord
  files : FileTree

/-- What a fault prints: one line, if it has words of its own. -/
def faultLines : Fault → List String
  | .configuration f => ["Error: " ++ f.message]
  | .layout f => ["Error: " ++ f.message]
  | .render f => ["Error: " ++ f.message]
  | .number _ => []
  | .missingGeometry => []

/-- What a fault writes to the log. -/
def faultRecord : LogRecord := ⟨.debug, "screengen_cli.main", "Generation failed"⟩

/-- What generating a screen writes to the log: its pass is announced if the checks let it start. -/
def generationLog (s : Screen) (p : Option Profile) : List LogRecord :=
  match p.orElse fun _ => (Profile.named s.profileName).toOption with
  | none => []
  | some p =>
    match s.root.requireSound p s.name with
    | .ok _ => [Pass.announcement s.root p.bounds p]
    | .error _ => []

/-- The documents of a screen as they are printed. -/
def printed (g : Generated) : String :=
  let head (document : String) :=
    "// ---- " ++ g.name ++ " (" ++ g.profile.name ++ ") " ++ document ++ " ----"
  lines [head "preview", g.preview, head "draw code", g.drawCode]

/-- Where the documents of a run go. -/
inductive Target where
  | print
  | save (directory : RelativePath)

/-- Renders one screen, and yields what ends the run with it, if anything does. -/
def renderOne (p : Option Profile) (target : Target) (name : String) (before : Transcript) :
    Option Ending × Transcript :=
  let failed (before : Transcript) (fault : Fault) : Option Ending × Transcript :=
    (some (.exit 1), { before with
      stdout := before.stdout ++ lines (faultLines fault)
      log := before.log ++ [faultRecord] })
  match Catalogue.named name with
  | .error fault => failed before (.configuration fault)
  | .ok s =>
    let before := { before with log := before.log ++ generationLog s p }
    match s.generate p DrawCode.defaultOptions with
    | .error fault => failed before fault
    | .ok g =>
      match target with
      | .print => (none, { before with stdout := before.stdout ++ printed g })
      | .save directory =>
        let saved := g.save directory before.files
        let after := { before with log := before.log ++ saved.log, files := saved.files }
        match saved.fault with
        | some (.unusablePath path) => (some (.aborted path), after)
        | some (.refused fault) =>
          (some (.exit 1), { after with
            stdout := after.stdout ++ line ("Error: could not write output: " ++ fault.message) })
        | none =>
          (none, { after with
            stdout := after.stdout ++ lines (saved.paths.map fun path => "  wrote " ++ path.text) })

/-- Renders screens one after the other, up to the first that ends the run. -/
def renderAll (p : Option Profile) (target : Target) :
    List String → Transcript → Ending × Transcript
  | [], before => (.exit 0, before)
  | name :: names, before =>
    match renderOne p target name before with
    | (some ending, after) => (ending, after)
    | (none, after) => renderAll p target names after

/-- The screens that a render command asks for; none if it does not say. -/
def wantedScreens (a : Arguments) : Option (List String) :=
  if a.all then some (Catalogue.screens.map Screen.name)
  else (nonEmpty? a.screen).map fun name => [name]

/-- The display that a run is for: by its arguments, or else by its environment. -/
def wantedProfile (a : Arguments) (e : Environment) :
    Except ConfigurationFault (Option Profile) :=
  match (nonEmpty? a.profile).orElse fun _ => e.profileName with
  | none => .ok none
  | some name => (Profile.named name).map some

/-- Where the documents of a run go: by its arguments, or else by its environment. -/
def wantedTarget (a : Arguments) (e : Environment) : Target :=
  if a.stdout then .print
  else .save (RelativePath.ofText ((nonEmpty? a.output).getD e.output))

/-- A render command. -/
def render (a : Arguments) (e : Environment) (files : FileTree) :
    Ending × Transcript :=
  match wantedScreens a with
  | none => (.exit 1, ⟨line "Error: render requires a screen name or --all", [], files⟩)
  | some names =>
    match wantedProfile a e with
    | .error fault =>
      (.exit 1, ⟨lines (faultLines (.configuration fault)), [faultRecord], files⟩)
    | .ok p => renderAll p (wantedTarget a e) names ⟨"", [], files⟩

/-- What a run does with arguments that were understood. -/
def perform (a : Arguments) (e : Environment) (files : FileTree) : Outcome :=
  let informed (text : String) : Outcome := ⟨.informed, text, [], files⟩
  if a.showHelp then informed help
  else if a.showVersion then informed (line ("screengen " ++ version))
  else match a.command with
    | none => informed help
    | some .list => ⟨.exit 0, listing, [], files⟩
    | some .render =>
      let (ending, after) := render a e files
      ⟨ending, after.stdout, after.log, after.files⟩

/-- A run of the program. It shows the log records that its settings let through. -/
def run (arguments : List String) (e : Environment) (files : FileTree) : Outcome :=
  match Arguments.parse arguments with
  | .error fault => ⟨.exit 1, lines fault.lines, [], files⟩
  | .ok a =>
    let outcome := perform a e files
    { outcome with log := outcome.log.filter fun r => e.level ≤ r.level.weight }

end Cli

end PixelLayout
