import ScriptGlue.CommandLine.Arguments
import ScriptGlue.Session.Setup
import ScriptGlue.Session.Trigger

/-! # A run of the command line

One session: an optional initial scan, then any number of modules, each committed by itself. A fault
that has a wording ends the run with the exit code 1; what was committed before it stays.
-/

namespace ScriptGlue.CommandLine

inductive Ending where
  | exited (code : Nat)
  /-- A fault that the run does not survive. -/
  | crashed (fault : Fault)
  deriving DecidableEq

/-- The configuration of a run: a file's, under the options of the command line. -/
def configOf (t : FileTree) (o : Options) : Except Fault Config := do
  let base ←
    match o.config with
    | some (.text path) => if path = "" then pure {} else Config.load t path
    | _ => pure {}
  return base.override [
    (.outputDir, o.output.getD .null), (.projectDir, o.project.getD .null),
    (.hostPluginType, o.hostPluginType.getD .null), (.policyPath, o.policy.getD .null)]

/-- Paths of the documents named by the options, the configuration's own file first. -/
def documentPaths (o : Options) : List String :=
  (o.config.toList ++ o.policy.toList ++ o.graph.toList ++ o.moduleGraphs).filterMap Value.text?

/-- Paths of what a configuration names: its policy and the directories for units. -/
def configuredPaths (c : Config) : List String :=
  [some c.policyPath, some c.outputDir, (Session.packagingOf c).userContentDir.toOption].filterMap
    fun v => v.bind Value.text?

def sessionOf (w : Workspace) (o : Options) : Except Fault Session := do
  let s ← Session.ofConfig w (← configOf w.tree o)
  return if o.noDefaults then s else { s with policy := s.policy.withEngineRules }

def graphDocument (path : Value) : Generation Value := do
  Action.ofExcept (readNamedFile (← get).workspace.tree .graph path)

def scan (path : Value) : Generation Unit := do
  let g ← Session.readGraph (← graphDocument path)
  Session.start (some g)

def loadModule (path : Value) : Generation Unit := do
  Session.tell .info .commandLine ("  " ++ path.plain)
  let _ ← Session.moduleLoaded (← graphDocument path)

def triggers (o : Options) : Generation Unit := do
  o.graph.toList.forM scan
  o.moduleGraphs.forM loadModule
  let s ← get
  Session.tell .info .commandLine ("=== Exported " ++ toString s.exported.length ++ " types")

def generate (o : Options) (w : Workspace) : Except Fault Unit × Workspace :=
  match sessionOf w o with
  | .error fault => (.error fault, w)
  | .ok s =>
    let (result, s) := (triggers o).run s
    (result, s.workspace)

/-- Tells a fault that has a wording and gives the exit code; another one ends the run. -/
def conclude (result : Except Fault Unit) (w : Workspace) : Ending × Workspace :=
  match result with
  | .ok () => (.exited 0, w)
  | .error fault =>
    match fault.message? with
    | some text => (.exited 1, (Workspace.tell .error .commandLine text w).2)
    | none => (.crashed fault, w)

def levelOf (o : Options) : Level := if o.verbose then .debug else .info

def told (o : Options) (journal : Journal) : List Record := journal.above (levelOf o)

def consoleLine (r : Record) : String := "[glue_gen] " ++ r.level.label ++ " " ++ r.text

/-- Path of a log file without detours: a step up undoes the step before it, and is none at the
top. -/
def logPath (path : String) : String :=
  let absolute := Path.isAbsolute path
  let steps := (Path.parts path).foldl (fun steps part =>
    if part = "." then steps
    else if part ≠ ".." ∨ (!absolute && steps.all (· == "..")) then steps ++ [part]
    else steps.dropLast) []
  if steps.isEmpty then (if absolute then "/" else ".") else Path.ofParts absolute steps

def openLog (t : FileTree) (path : String) : Except FileFault (FileTree × Location) := do
  match ← t.place path with
  | .directory _ => throw .isDirectory
  | .entry location _ =>
    match t.lookup location with
    | some (.file _) => return (t, location)
    | _ => return (← t.write path (.text ""), location)

/-- A run over a workspace whose log file is open, if it has one. -/
def runLogged (o : Options) (w : Workspace) : Ending × Workspace :=
  let (result, w) := generate o w
  conclude result w

def runOptions (stamp : String) (o : Options) (w : Workspace) : Ending × Workspace :=
  match o.logFile with
  | none => runLogged o w
  | some (.text file) =>
    match openLog w.tree (logPath file) with
    | .error fault => (.crashed (.file fault), w)
    | .ok (tree, location) =>
      let log : LogFile := { location := some location, level := levelOf o, stamp }
      runLogged o { w with tree, log := some log }
  | some _ => (.crashed .wrongType, w)

/-- A run of the program: its ending, the options it ran with, and the workspace after it. -/
def run (stamp : String) (args : List String) (w : Workspace) : Ending × Options × Workspace :=
  match readCommandLine args with
  | .help => (.exited 0, {}, w)
  | .misuse => (.exited 2, {}, w)
  | .options o =>
    let (ending, w) := runOptions stamp o w
    (ending, o, w)

end ScriptGlue.CommandLine
