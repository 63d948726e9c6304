/-! # Journal

What a session tells while it runs: a record has a level, a part of the program it comes from, and
a text.
-/

namespace ScriptGlue

inductive Level where
  | debug
  | info
  | warning
  | error
  deriving DecidableEq, Repr

def Level.label : Level → String
  | .debug => "DEBUG"
  | .info => "INFO"
  | .warning => "WARNING"
  | .error => "ERROR"

def Level.weight : Level → Nat
  | .debug => 0
  | .info => 1
  | .warning => 2
  | .error => 3

/-- The part of the program a record comes from. -/
inductive Source where
  | session
  | modules
  | structs
  | staging
  | commandLine
  deriving DecidableEq, Repr

def Source.label : Source → String
  | .session => "glue_gen.generator"
  | .modules => "glue_gen.modules"
  | .structs => "glue_gen.struct"
  | .staging => "glue_gen.persistence"
  | .commandLine => "glue_gen.cli"

structure Record where
  level : Level
  source : Source
  text : String
  deriving DecidableEq, Repr

abbrev Journal := Array Record

def Journal.above (journal : Journal) (level : Level) : List Record :=
  journal.toList.filter fun r => level.weight ≤ r.level.weight

end ScriptGlue
