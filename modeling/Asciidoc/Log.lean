import Asciidoc.Json.Basic
import Asciidoc.Text.Case

/-!
# Log records

A record is a message with a level and the name of the part that speaks. Levels have names and
numbers; a level is configured as either. A number is taken as it is, also one that no name
stands for; a name counts in any case.
-/

namespace Asciidoc.Log

open Text

/-- How much a record matters. -/
inductive Level where
  | debug
  | info
  | warning
  | error
  | critical
deriving DecidableEq, Repr

/-- The levels, in rising order. -/
def Level.all : List Level := [.debug, .info, .warning, .error, .critical]

/-- The name of a level. -/
def Level.name : Level → String
  | .debug => "DEBUG"
  | .info => "INFO"
  | .warning => "WARNING"
  | .error => "ERROR"
  | .critical => "CRITICAL"

/-- The number of a level. -/
def Level.number : Level → Int
  | .debug => 10
  | .info => 20
  | .warning => 30
  | .error => 40
  | .critical => 50

/-- The level of a name in capitals. -/
def Level.ofName? (t : Text) : Option Level := Level.all.find? fun level => level.name.toList == t

/-- The level of a name in any case. -/
def Level.ofWord? (t : Text) : Option Level := Level.ofName? (Case.upper t)

/-- The names of the levels. -/
def Level.names : Text := join [',', ' '] (Level.all.map (·.name.toList))

/-- A level that was configured but does not exist. -/
structure UnknownLevel where
  /-- What was configured. -/
  given : Json

/-- The wording of a refusal. -/
def UnknownLevel.message (u : UnknownLevel) : Text :=
  "Unknown log level '".toList ++ u.given.plain ++ "'. Expected one of: ".toList ++ Level.names

/-- The number of a configured level. -/
def Level.resolve : Json → Except UnknownLevel Json
  | .int n => .ok (.int n)
  | .bool b => .ok (.bool b)
  | given =>
    match Level.ofWord? given.plain with
    | some level => .ok (.int level.number)
    | none => .error ⟨given⟩

/-- The parts that speak. -/
inductive Speaker where
  | reader
  | converter
  | processor
  | commandLine
  | root
deriving DecidableEq, Repr

/-- The name of a part. -/
def Speaker.name : Speaker → String
  | .reader => "adocast.document.reader"
  | .converter => "adocast.converter"
  | .processor => "adocast.processor"
  | .commandLine => "adocast.cli"
  | .root => "root"

/-- A message with its level and who speaks. -/
structure Record where
  /-- The level. -/
  level : Level
  /-- Who speaks. -/
  speaker : Speaker
  /-- The message. -/
  message : Text
deriving DecidableEq, Repr

/-- A record on one line. -/
def Record.shown (r : Record) : Text :=
  r.level.name.toList ++ ' ' :: r.speaker.name.toList ++ [':', ' '] ++ r.message

end Asciidoc.Log
