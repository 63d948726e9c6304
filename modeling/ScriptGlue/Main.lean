import ScriptGlue.CommandLine.Run
import Std.Time.Zoned

/-! # The program

Gathers what the disk holds at the paths that a run names, lets the run work on that tree, and
carries the difference back to the disk. What is decided, the run decides; here is only the disk,
the clock and the console.
-/

namespace ScriptGlue.Disk

def entryAt (path : String) : IO IO.FS.DirEntry :=
  return ⟨← IO.currentDir, (Text.characters? path).getD path⟩

/-- Adds what an entry holds to a tree, with all that lies below it if it is a directory. -/
partial def gather (deep : Bool) (t : FileTree) (loc : Location) (entry : IO.FS.DirEntry) :
    IO FileTree := do
  if ← entry.path.isDir then
    let t := t.put loc .directory
    if deep then
      (← entry.path.readDir).foldlM
        (fun t e => gather deep t (loc ++ [Text.ofCharacters e.fileName]) e) t
    else return t
  else if ← entry.path.pathExists then
    return t.put loc (.file (.ofBytes (← IO.FS.readBinFile entry.path).toList))
  else return t

def gatherPath (t : FileTree) (path : String) : IO FileTree :=
  (Path.passed path).foldlM (fun t passed => do
    let entry ← entryAt passed
    let deep := passed = (Path.passed path).getLast?.getD passed
    match t.place passed with
    | .ok (.entry loc _) => gather deep t loc entry
    | .ok (.directory loc) => if deep then gather deep t loc entry else return t
    | .error _ => return t) t

def gatherRun (o : CommandLine.Options) : IO FileTree := do
  let logFile := o.logFile.bind Value.text?
  let t ← (CommandLine.documentPaths o ++ logFile.toList).foldlM gatherPath {}
  match CommandLine.configOf t o with
  | .ok c => (CommandLine.configuredPaths c).foldlM gatherPath t
  | .error _ => return t

def pathOf (loc : Location) : String :=
  match loc with
  | "/" :: names => Path.ofParts true names
  | names => Path.ofParts false names

def carryOver (before after : FileTree) : IO Unit := do
  for (loc, node) in after.entries do
    if node = .directory && before.lookup loc ≠ some node then
      IO.FS.createDirAll (← entryAt (pathOf loc)).path
  for (loc, content) in before.written after do
    IO.FS.writeBinFile (← entryAt (pathOf loc)).path ⟨content.toBytes.toArray⟩
  for loc in before.removed after do
    IO.FS.removeFile (← entryAt (pathOf loc)).path

def padded (width n : Nat) : String :=
  let digits := toString n
  "".pushn '0' (width - digits.length) ++ digits

def stamp : IO String := do
  let now ← Std.Time.DateTime.now
  let date := [padded 4 now.year.toInt.toNat, padded 2 now.month.val.toNat,
    padded 2 now.day.val.toNat]
  let time := [padded 2 now.hour.val.toNat, padded 2 now.minute.val.toNat,
    padded 2 now.second.val.toNat]
  return String.intercalate "-" date ++ " " ++ String.intercalate ":" time ++ ","
    ++ padded 3 now.millisecond.val.toNat ++ " "

end ScriptGlue.Disk

open ScriptGlue in
def main (args : List String) : IO UInt32 := do
  let args := args.map Text.ofCharacters
  let reading := CommandLine.readCommandLine args
  if reading = .help then IO.println CommandLine.usage
  if reading = .misuse then IO.eprintln CommandLine.usage
  let tree ←
    match reading with
    | .options o => Disk.gatherRun o
    | _ => pure {}
  let (ending, options, w) := CommandLine.run (← Disk.stamp) args { tree }
  Disk.carryOver tree w.tree
  for record in CommandLine.told options w.journal do
    IO.eprintln (Text.onConsole (CommandLine.consoleLine record))
  match ending with
  | .exited code => return UInt32.ofNat code
  | .crashed _ =>
    IO.eprintln "The documents cannot be processed."
    return 1
