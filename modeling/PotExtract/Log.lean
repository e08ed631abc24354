/-! Console output by level: progress goes to the standard output, everything else to the
diagnostics. -/

namespace PotExtract

/-- How much is shown: each level shows what the one before shows, and more. -/
inductive LogLevel where
  | error
  | warn
  | info
  | debug
  deriving DecidableEq, Repr

namespace LogLevel

/-- The place of the level, from the quietest on. -/
def rank : LogLevel → Nat
  | .error => 1
  | .warn => 2
  | .info => 3
  | .debug => 4

/-- The name of the level. -/
def name : LogLevel → String
  | .error => "error"
  | .warn => "warn"
  | .info => "info"
  | .debug => "debug"

/-- The level with a name, whatever the case of its letters. -/
def ofName? (name : String) : Option LogLevel :=
  match name.toLower with
  | "error" => some .error
  | "warn" | "warning" => some .warn
  | "info" => some .info
  | "debug" => some .debug
  | _ => none

/-- The level of a command line: a quiet program shows errors alone, whatever else is asked for. -/
def resolve (quiet : Bool) (requested : Option LogLevel) : LogLevel :=
  if quiet then .error else requested.getD .info

end LogLevel

/-- A line for the user, with the level from which on it is shown. -/
structure LogLine where
  level : LogLevel
  text : String
  deriving DecidableEq, Repr

/-- The two channels of a console. -/
structure Console where
  out : String := ""
  err : String := ""
  deriving DecidableEq, Repr

namespace Console

/-- Shows a line unless the level of the console leaves it out. -/
def put (c : Console) (level : LogLevel) (line : LogLine) : Console :=
  if level.rank < line.level.rank then c
  else
    match line.level with
    | .error => { c with err := c.err ++ line.text ++ "\n" }
    | .warn => { c with err := c.err ++ "Warning: " ++ line.text ++ "\n" }
    | .info => { c with out := c.out ++ line.text ++ "\n" }
    | .debug => { c with err := c.err ++ "DEBUG: " ++ line.text ++ "\n" }

/-- Shows lines in order. -/
def putAll (c : Console) (level : LogLevel) (lines : List LogLine) : Console :=
  lines.foldl (fun c line => c.put level line) c

end Console

end PotExtract
