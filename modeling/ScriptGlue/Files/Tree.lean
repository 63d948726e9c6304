import ScriptGlue.Fault
import ScriptGlue.Files.Content
import ScriptGlue.Files.Path

/-! # File trees

Files and directories below a working directory. A location is the list of names from there; a
path is a text that is walked through the directories it names, `.` and `..` included, so that two
paths may lead to one location. Each operation either changes the tree at one location or faults.
-/

namespace ScriptGlue

/-- Names from the working directory down. A location above it starts with `".."`, one of an
absolute path with `"/"`. -/
abbrev Location := List String

inductive FileNode where
  | file (content : Content)
  | directory
  deriving DecidableEq, Inhabited

/-- The files and directories there are; the working directory needs no entry. -/
structure FileTree where
  entries : List (Location × FileNode) := []
  deriving DecidableEq, Inhabited

namespace FileTree

/-- The locations that are always directories: the working directory, those it lies in, and the top
of all absolute paths. -/
def isTop (loc : Location) : Bool := loc = ["/"] || loc.all fun name => name == ".."

def lookup (t : FileTree) (loc : Location) : Option FileNode :=
  if isTop loc then some .directory else t.entries.lookup loc

def erase (t : FileTree) (loc : Location) : FileTree :=
  { entries := t.entries.filter fun e => e.1 != loc }

def put (t : FileTree) (loc : Location) (node : FileNode) : FileTree :=
  { entries := (loc, node) :: (t.erase loc).entries }

/-- Where a path leads: a directory by itself, or a name in a directory. -/
inductive Place where
  | directory (loc : Location)
  | entry (loc : Location) (asDirectory : Bool)
  deriving DecidableEq, Repr

def above (loc : Location) : Location :=
  if loc = ["/"] then loc
  else if isTop loc then ".." :: loc
  else loc.dropLast

def enter (t : FileTree) (loc : Location) (name : String) : Except FileFault Location :=
  if name = "." then .ok loc
  else if name = ".." then .ok (above loc)
  else if Path.size name > Path.longestName then .error .nameTooLong
  else
    match t.lookup (loc ++ [name]) with
    | some .directory => .ok (loc ++ [name])
    | some (.file _) => .error .notDirectory
    | none => .error .missing

/-- Walks the components of a path; only the last need not exist. -/
def walk (t : FileTree) (asDirectory : Bool) (loc : Location) :
    List String → Except FileFault Place
  | [] => .ok (.directory loc)
  | [name] =>
    if name = "." then .ok (.directory loc)
    else if name = ".." then .ok (.directory (above loc))
    else if Path.size name > Path.longestName then .error .nameTooLong
    else .ok (.entry (loc ++ [name]) asDirectory)
  | name :: rest => do walk t asDirectory (← enter t loc name) rest

def place (t : FileTree) (path : String) : Except FileFault Place :=
  match Path.bytes? path with
  | none => .error .notEncodable
  | some bytes =>
    if path.toList.contains '\x00' then .error .nameHasNul
    else if path = "" then .error .missing
    else if bytes.length ≥ Path.longestPath then .error .nameTooLong
    else
      t.walk (Path.endsInSlash path) (if Path.isAbsolute path then ["/"] else [])
        ((Path.parts path).map Path.listed)

def read (t : FileTree) (path : String) : Except FileFault String := do
  match ← t.place path with
  | .directory _ => throw .isDirectory
  | .entry loc asDirectory =>
    match t.lookup loc with
    | none => throw .missing
    | some .directory => throw .isDirectory
    | some (.file content) =>
      if asDirectory then throw .notDirectory
      else
        match content with
        | .text s => return s
        | .binary _ => throw .notText

def write (t : FileTree) (path : String) (content : Content) : Except FileFault FileTree := do
  match ← t.place path with
  | .directory _ => throw .isDirectory
  | .entry loc asDirectory =>
    match t.lookup loc, asDirectory with
    | some .directory, _ => throw .isDirectory
    | some (.file _), true => throw .notDirectory
    | none, true => throw .isDirectory
    | _, false => return t.put loc (.file content)

def remove (t : FileTree) (path : String) : Except FileFault FileTree := do
  match ← t.place path with
  | .directory _ => throw .isDirectory
  | .entry loc asDirectory =>
    match t.lookup loc with
    | none => throw .missing
    | some .directory => throw .isDirectory
    | some (.file _) => if asDirectory then throw .notDirectory else return t.erase loc

def hasEntries (t : FileTree) (loc : Location) : Bool :=
  t.entries.any fun e => e.1.length > loc.length && e.1.take loc.length == loc

def moveDirectory (t : FileTree) (source target : Location) : FileTree :=
  { entries := t.entries.map fun (loc, node) =>
      if loc.take source.length = source then (target ++ loc.drop source.length, node)
      else (loc, node) }

/-- Moves a file or directory to a path; a file there is replaced. -/
def replace (t : FileTree) (source target : String) : Except FileFault FileTree := do
  match ← t.place source, ← t.place target with
  | .entry a aDirectory, .entry b bDirectory =>
    match t.lookup a, t.lookup b with
    | none, _ => throw .missing
    | some (.file content), old =>
      if aDirectory || bDirectory then throw .notDirectory
      else if old = some .directory then throw .isDirectory
      else return (t.erase a).put b (.file content)
    | some .directory, some (.file _) => throw .notDirectory
    | some .directory, some .directory =>
      if a = b then return t
      else if t.hasEntries b then throw .notEmpty
      else return (t.erase b).moveDirectory a b
    | some .directory, none => return t.moveDirectory a b
  | _, _ => throw .isDirectory

def existsAt (t : FileTree) (path : String) : Bool :=
  match t.place path with
  | .ok (.directory _) => true
  | .ok (.entry loc asDirectory) =>
    match t.lookup loc with
    | some .directory => true
    | some (.file _) => !asDirectory
    | none => false
  | .error _ => false

def isDirectory (t : FileTree) (path : String) : Bool :=
  match t.place path with
  | .ok (.directory _) => true
  | .ok (.entry loc _) => t.lookup loc = some .directory
  | .error _ => false

def makeDirectory (t : FileTree) (path : String) : Except FileFault FileTree := do
  match ← t.place path with
  | .directory _ => throw .alreadyExists
  | .entry loc _ =>
    match t.lookup loc with
    | some _ => throw .alreadyExists
    | none => return t.put loc .directory

/-- Makes one directory unless it is there; the tree stays when nothing can be made. -/
def makeOrKeep (t : FileTree) (path : String) : Except FileFault Unit × FileTree :=
  match t.makeDirectory path with
  | .ok t => (.ok (), t)
  | .error fault => (if t.isDirectory path then .ok () else .error fault, t)

/-- Makes the directory of a path and those above it. A file in the place of one above is only found
by the directory below it, a path that ends in `.` is made with the one above, and what was made
stays after a fault. -/
def ensureDirectory (t : FileTree) (path : String) : Except FileFault Unit × FileTree :=
  match h : Path.above? path with
  | none => t.makeOrKeep path
  | some (above, name) =>
    if t.existsAt above then t.makeOrKeep path
    else
      have := Path.length_above? h
      match t.ensureDirectory above with
      | (.error .alreadyExists, t) => if name = "." then (.ok (), t) else t.makeOrKeep path
      | (.error fault, t) => (.error fault, t)
      | (.ok (), t) => if name = "." then (.ok (), t) else t.makeOrKeep path
termination_by path.length

def files (t : FileTree) : List (Location × Content) :=
  t.entries.filterMap fun (loc, node) =>
    match node with
    | .file content => some (loc, content)
    | .directory => none

def written (before after : FileTree) : List (Location × Content) :=
  after.files.filter fun (loc, content) => before.lookup loc ≠ some (.file content)

def removed (before after : FileTree) : List Location :=
  (before.files.map Prod.fst).filter fun loc => (after.lookup loc).isNone

end FileTree

end ScriptGlue
