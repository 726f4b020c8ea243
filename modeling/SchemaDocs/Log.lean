/-!
# Log

The lines that a run writes about its progress, and which of them are shown.
-/

namespace SchemaDocs

/-- How important a line is. -/
inductive LogLevel where
  | debug
  | info
  | warning
deriving DecidableEq

namespace LogLevel

def name : LogLevel → String
  | .debug => "DEBUG"
  | .info => "INFO"
  | .warning => "WARNING"

def rank : LogLevel → Nat
  | .debug => 0
  | .info => 1
  | .warning => 2

/-- The least level that is shown when progress is asked for `count` times. -/
def ofVerbosity : Nat → LogLevel
  | 0 => .warning
  | 1 => .info
  | _ + 2 => .debug

end LogLevel

structure LogLine where
  level : LogLevel
  /-- The part of the program that writes the line. -/
  source : String
  text : String
deriving DecidableEq

namespace LogLine

def ofGeneration (level : LogLevel) (text : String) : LogLine :=
  ⟨level, "kcl_docgen.gendoc", text⟩

def ofCommand (level : LogLevel) (text : String) : LogLine :=
  ⟨level, "kcl_docgen.cli", text⟩

def write (line : LogLine) : String :=
  line.level.name ++ " " ++ line.source ++ ": " ++ line.text ++ "\n"

/-- The shown lines of a log, from the least level that is shown upwards. -/
def writeAll (least : LogLevel) (lines : List LogLine) : String :=
  String.join ((lines.filter fun line => least.rank ≤ line.level.rank).map write)

end LogLine

end SchemaDocs
