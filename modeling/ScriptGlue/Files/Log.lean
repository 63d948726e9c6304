import ScriptGlue.Files.Tree
import ScriptGlue.Journal

/-! # The log file

A log file takes every record from its level on, each behind a time stamp, at the moment it is made.
It stays the file it was opened as: it goes along when it is moved, and what is told after another
file took its place or after it was removed is in no file.
-/

namespace ScriptGlue

structure LogFile where
  /-- Where it lies; none when it has been removed. -/
  location : Option Location
  /-- Level of the lightest records it takes. -/
  level : Level
  /-- What every record is put behind. -/
  stamp : String
  deriving DecidableEq

namespace LogFile

def line (stamp : String) (r : Record) : String :=
  stamp ++ r.level.label ++ " " ++ r.source.label ++ ": " ++ r.text ++ "\n"

/-- The tree with a record written to the log file; a record with a half is not written. -/
def write (log : LogFile) (r : Record) (t : FileTree) : FileTree :=
  if r.level.weight < log.level.weight then t
  else
    match log.location, Text.characters? (line log.stamp r) with
    | some location, some characters =>
      match t.lookup location with
      | some (.file content) => t.put location (.file (content.append characters))
      | _ => t
    | _, _ => t

/-- Where a location is after something has moved; none if it was replaced. -/
def follow (source target loc : Location) : Option Location :=
  if loc.take source.length = source then some (target ++ loc.drop source.length)
  else if loc = target then none
  else some loc

def moved (log : LogFile) (source target : Location) : LogFile :=
  { log with location := log.location.bind (follow source target) }

def removed (log : LogFile) (loc : Location) : LogFile :=
  { log with location := log.location.filter (· != loc) }

end LogFile

end ScriptGlue
