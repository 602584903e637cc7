/-!
# Log records

A program run writes records to a log, each at a level. A run shows the records at or above the
level that its settings name.
-/

namespace PixelLayout

/-- The levels at which records are written. -/
inductive LogLevel where
  | debug
  | info
deriving DecidableEq

/-- The weight of a level; a heavier record is shown at more settings. -/
def LogLevel.weight : LogLevel → Nat
  | debug => 10
  | info => 20

/-- The name of a level. -/
def LogLevel.name : LogLevel → String
  | debug => "DEBUG"
  | info => "INFO"

/-- One record: its level, the part of the program that wrote it, and its text. -/
structure LogRecord where
  level : LogLevel
  source : String
  message : String
deriving DecidableEq

/-- The line of a record. -/
def LogRecord.line (r : LogRecord) : String :=
  r.level.name ++ " " ++ r.source ++ ": " ++ r.message

end PixelLayout
