import PixelLayout.Node.Build

/-!
# The screen catalogue

The screens of the watch, each a declared tree and the display it was designed for: the font sizes
that a screen asks for are those of that display. Most screens are a shared status bar above a page,
which takes nine tenths of the height.
-/

namespace PixelLayout

/-- A named screen of the catalogue. -/
structure Screen where
  name : String
  profileName : String
  description : String
  root : Node

namespace Catalogue

/-! ## Parts of screens -/

/-- A label. -/
def text (content : String) : Node := .label content

/-- A label of a given font size. -/
def sized (size : Int) (content : String) : Node :=
  .tile ((Tile.ofContent content).setFontSize size)

/-- A sample text with its format. -/
def sample (format content : String) : Node :=
  .tile ((Tile.ofContent content).setFormat (some format))

/-- A sample text with its format and a given font size. -/
def sizedSample (size : Int) (format content : String) : Node :=
  .tile (((Tile.ofContent content).setFormat (some format)).setFontSize size)

/-- Nodes from top to bottom. -/
def column (nodes : List Node) : Node := .stack .vertical nodes none

/-- Nodes from left to right. -/
def row (nodes : List Node) : Node := .stack .horizontal nodes none

/-- A horizontal rule. -/
def rule : Node := .separator .horizontal none

/-- A vertical rule. -/
def bar : Node := .separator .vertical none

/-- A list of labels of a given font size. -/
def menuList (size : Int) (contents : List String) : Node :=
  .list (contents.map fun c => (Tile.ofContent c).setFontSize size) contents.length none

/-- Two nodes one above the other, the first with `thousandths` of the height. -/
def above (thousandths : Nat) (first second : Node) : Node :=
  let share := Binary64.ofDecimal false thousandths (-3)
  .split first (.real share) second (.real (Binary64.one.sub share)) none

/-- Clock, satellite fix and date, with rules between them. -/
def statusBar : Node :=
  row [sample "%T" "21:37", bar, sample "GPS %1d" "GPS 3D", bar, sample "%d/%m/%y" "02/09/21"]

/-- The status bar's share of the height of a screen, in thousandths. -/
def statusBarThousandths : Nat := 101

/-- A page below the status bar. -/
def withStatusBar (page : Node) : Node := above statusBarThousandths statusBar page

/-- The title page of a section. -/
def splash (title : String) : Node := withStatusBar (column [rule, row [text title]])

/-- A title on the left, a list to choose from on the right. -/
def menu (title subtitle : String) (entries : List String) (size : Int) : Node :=
  withStatusBar (column [rule, bar, row [
    column [text title, rule, text subtitle],
    menuList size entries]])

/-- A quantity: its name above its value. -/
def metric (name format value : String) : Node :=
  column [sized 16 name, sizedSample 20 format value]

/-! ## Screens of the paper display -/

def gpsStatus : Node := withStatusBar <| column [
  rule, bar,
  row [
    column [sample "%d/%m/%y" "02/09/21", sample "%T" "19:34:20"],
    column [text "in view / tracked", sizedSample 19 "%d / %d" "13 / 11"]],
  rule, bar,
  row [
    column [sample "%5.2f[*C]" "23.19[*C]", sample "%5.2f[m]" "133.94[m]"],
    column [text "Hit button below", text "to calculate your", text "BMI"]]]

def activitySplash : Node := splash "Activities"

def selectActivity : Node :=
  menu "Activity" "" ["Running", "Cycling", "Hiking", "Ind. Cycling", "Yoga", "Swimming"] 19

def selectRunningWorkouts : Node :=
  menu "Workouts" "Running" ["5k", "10k", "Half Marathon", "Marathon", "Cooper Test"] 19

def cooperTest : Node := menu "Running" "Cooper Test" ["Do It", "View"] 19

def cooperTestView : Node := withStatusBar <| column [
  rule,
  above 200 (column [text "Cooper Test", rule])
    (column [
      text "Step 1: Warmup",
      text "Step 2: Run for your life for 12 mins",
      text "Step 3: Note the distance",
      text "Step 4: Look at the table"])]

def readyToStart : Node := withStatusBar <| column [
  rule, bar,
  row [
    column [text "Running", rule, text "5k"],
    column [sized 19 "GPS 3D", rule, sized 19 "Press OK", sized 19 "to start"]]]

/-! ## Screens of the memory-in-pixel display -/

def welcome : Node := withStatusBar <| column [
  rule,
  row [column [sizedSample 42 "%T" "21:37:07", rule, sizedSample 24 "%d/%m/%y" "02/09/21"]]]

def gpsOverview : Node := withStatusBar <| column [
  rule, bar,
  row [
    column [sizedSample 24 "%d/%m/%y" "02/09/21", sizedSample 24 "%T" "19:34:19"],
    column [
      sizedSample 24 "in view: %d" "in view: 13",
      sizedSample 24 "tracked: %d" "tracked: 11"]],
  rule, bar,
  row [
    column [sizedSample 24 "%5.2f[*C]" "23.19[*C]", sizedSample 24 "%07.2f[m]" "8848.94[m]"],
    column [text ""]]]

def runningPage1 : Node := withStatusBar <| row [
  column [
    metric "pace" "%.2f" "10.20",
    rule,
    column [
      row [sized 16 "lap time", sizedSample 16 "%T" "02:03:04"],
      row [sized 16 "lap dist", sizedSample 20 "%.2f" "21.37"]]],
  bar,
  column [metric "HR zone" "%.2f" "2.79", rule, metric "cadence" "%3d" "158"]]

def runningPage2 : Node := withStatusBar <| row [
  column [metric "total dist" "%.2f" "10.20", rule, metric "lap dist" "%.2f" "5.20"],
  bar,
  column [metric "total time" "%T" "02:12:20", rule, metric "lap time" "%T" "01:12:20"]]

def workoutSteps : Node := splash "Workout Steps"

def workoutPlan : Node := withStatusBar <| row [
  menuList 16 ["run 5.00 1/5", "cool down 2 minutes", "run 5.00 2/5", "cool down 2 minutes"]]

def activityPaused : Node := menu "Paused" "" ["Resume", "Save", "Discard"] 24

def statisticsSplash : Node := splash "Statistics"

def selectStats : Node := menu "Stats" "" ["Running", "Cycling", "Hiking", "Ind. Cycling"] 24

def statsSelected : Node := withStatusBar <| column [
  rule,
  above 200 (column [text "Stats for: workout type", rule])
    (column [
      sized 24 "All time:",
      sized 24 "5k: 50min",
      sized 24 "10k: 4hrs",
      sized 24 "Half M: 2 days 4hrs"])]

/-! ## The catalogue -/

/-- A screen of the paper display. -/
def onPaper (name description : String) (root : Node) : Screen :=
  ⟨name, "waveshare_2in9", description, root⟩

/-- A screen of the memory-in-pixel display. -/
def onMemoryInPixel (name description : String) (root : Node) : Screen :=
  ⟨name, "sharp_mip_2in7", description, root⟩

/-- All screens, in the order in which they are listed. -/
def screens : List Screen := [
  onPaper "gps_status" "GPS fix, clock and sensor readout" gpsStatus,
  onPaper "activity_splash" "Activities section title" activitySplash,
  onPaper "select_activity" "Activity picker" selectActivity,
  onPaper "select_running_workouts" "Running workout picker" selectRunningWorkouts,
  onPaper "cooper_test" "Cooper test actions" cooperTest,
  onPaper "cooper_test_view" "Cooper test steps" cooperTestView,
  onPaper "ready_to_start" "Waiting for OK to start" readyToStart,
  onMemoryInPixel "welcome" "Large clock" welcome,
  onMemoryInPixel "gps_overview" "GPS and sensor overview" gpsOverview,
  onMemoryInPixel "running_page_1" "Pace, laps, heart rate, cadence" runningPage1,
  onMemoryInPixel "running_page_2" "Distance and time totals" runningPage2,
  onMemoryInPixel "workout_steps" "Workout steps section title" workoutSteps,
  onMemoryInPixel "workout_plan" "Interval plan list" workoutPlan,
  onMemoryInPixel "activity_paused" "Paused activity menu" activityPaused,
  onMemoryInPixel "statistics_splash" "Statistics section title" statisticsSplash,
  onMemoryInPixel "select_stats" "Statistics picker" selectStats,
  onMemoryInPixel "stats_selected" "Personal records" statsSelected]

/-- The names of all screens, in alphabetical order. -/
def knownNames : List String := (screens.map Screen.name).mergeSort fun a b => decide (a ≤ b)

/-- The screen of a name. -/
def named (wanted : String) : Except ConfigurationFault Screen :=
  match screens.find? (fun s => s.name == wanted) with
  | some s => .ok s
  | none => .error (.unknownScreen wanted knownNames)

end Catalogue

end PixelLayout
