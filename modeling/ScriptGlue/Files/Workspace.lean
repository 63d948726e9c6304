import ScriptGlue.Action
import ScriptGlue.Files.Log

/-! # Workspace

Generated units are staged beside their place, in a file with the suffix `.tmp`, and a commit moves
all staged files into place. A unit whose file already holds its text is not staged. An open log
file takes the records as they are made.
-/

namespace ScriptGlue

/-- The files, the paths staged and not committed in the order first staged, the journal, and the
log file if there is one. -/
structure Workspace where
  tree : FileTree := {}
  pending : List String := []
  journal : Journal := #[]
  log : Option LogFile := none
  deriving Inhabited

namespace Workspace

def stagedPath (path : String) : String := path ++ ".tmp"

def record (r : Record) (w : Workspace) : Workspace :=
  { w with
    journal := w.journal.push r
    tree := match w.log with
      | some log => log.write r w.tree
      | none => w.tree }

@[simp] theorem record_of_no_log (r : Record) {w : Workspace} (h : w.log = none) :
    w.record r = { w with journal := w.journal.push r } := by simp [record, h]

def tell (level : Level) (source : Source) (text : String) : Action Workspace Unit :=
  modify (record ⟨level, source, text⟩)

/-- An operation on the tree; its fault is the action's. -/
def onTree (operation : FileTree → Except FileFault FileTree) : Action Workspace Unit := fun w =>
  match operation w.tree with
  | .ok tree => (.ok (), { w with tree })
  | .error fault => (.error (.file fault), w)

def onLog (change : LogFile → LogFile) : Action Workspace Unit :=
  modify fun w => { w with log := w.log.map change }

def move (source target : String) : Action Workspace Unit := do
  let w ← get
  onTree fun t => t.replace source target
  match w.tree.place source, w.tree.place target with
  | .ok (.entry a _), .ok (.entry b _) => onLog fun log => log.moved a b
  | _, _ => return ()

def remove (path : String) : Action Workspace Unit := do
  let w ← get
  onTree fun t => t.remove path
  match w.tree.place path with
  | .ok (.entry loc _) => onLog fun log => log.removed loc
  | _ => return ()

def held (path : String) : Action Workspace (Option String) := fun w =>
  match w.tree.read path with
  | .ok characters => (.ok (some characters), w)
  | .error .missing => (.ok none, w)
  | .error fault => (.error (.file fault), w)

/-- Makes a directory; false, and a record, if that cannot be done. -/
def ensureDirectory (path : String) : Action Workspace Bool := do
  let w ← get
  let (result, tree) := w.tree.ensureDirectory path
  set { w with tree }
  match result with
  | .ok () => return true
  | .error .nameHasNul => throw (.file .nameHasNul)
  | .error .notEncodable => throw (.file .notEncodable)
  | .error _ =>
    tell .error .staging ("Could not create directory " ++ path)
    return false

def remember (path : String) (w : Workspace) : Workspace :=
  { w with pending := if w.pending.contains path then w.pending else w.pending ++ [path] }

/-- Leaves the staged file of a path empty and faults: what was to be written is no characters. The
path does not become staged by it. -/
def breakOff (path : String) (fault : Fault) : Action Workspace Bool := do
  onTree fun t => t.write (stagedPath path) (.text "")
  throw fault

/-- Stages a text for a path unless the path holds it. A text with a half cannot be written. -/
def stage (path text : String) : Action Workspace Bool := do
  let held ← held path
  match Text.characters? text with
  | none => breakOff path (.file .notEncodable)
  | some characters =>
    if held = some characters then return false
    onTree fun t => t.write (stagedPath path) (.text characters)
    modify (remember path)
    tell .debug .staging ("    staged " ++ path)
    return true

/-- Stages a given value, which has to be a text. Null is what a missing file holds already; any
other value cannot be written. -/
def stageValue (path : String) : Value → Action Workspace Bool
  | .text text => stage path text
  | v => do
    let held ← held path
    if v = .null && held.isNone then return false
    breakOff path .wrongType

def moveIntoPlace (path : String) : Action Workspace Unit := move (stagedPath path) path

/-- Moves every staged file into place and gives their number. A fault leaves the list of staged
paths as it was. -/
def commit : Action Workspace Nat := do
  let w ← get
  w.pending.forM moveIntoPlace
  modify fun w => { w with pending := [] }
  return w.pending.length

def dropStaged (path : String) : Action Workspace Unit := do
  try remove (stagedPath path)
  catch fault => if fault = .file .missing then return () else throw fault

def discard : Action Workspace Unit := do
  let w ← get
  w.pending.forM dropStaged
  modify fun w => { w with pending := [] }

end Workspace

end ScriptGlue
