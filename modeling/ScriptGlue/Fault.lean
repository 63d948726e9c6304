import ScriptGlue.Value.Display

/-! # Faults

Why an operation did not give a result. A fault is a cause; `Fault.message?` is its wording, which
only faults of documents and packaging have.
-/

namespace ScriptGlue

inductive FileFault where
  | missing
  | isDirectory
  | notDirectory
  | alreadyExists
  | notEmpty
  | notText
  | nameTooLong
  | nameHasNul
  /-- A half of a pair stands alone where characters are needed. -/
  | notEncodable
  /-- A number is no open file. -/
  | notOpen
  deriving DecidableEq, Repr

inductive DocumentRole where
  | graph
  | config
  | policy
  deriving DecidableEq, Repr

inductive ReadFault where
  | file (fault : FileFault)
  | malformed
  /-- An integer has too many digits. -/
  | tooManyDigits
  deriving DecidableEq, Repr

inductive GraphFault where
  | notMapping
  | unknownKind (kind name : Value)
  | missingNameOrModule (declaration : Value)
  | badPropertyKind (owner name : Value)
  deriving DecidableEq

inductive PolicyFault where
  | notMapping
  | unknownLists (names : List String)
  | listNotMapping
  | notNames (key : String)
  | notPairs (key : String)
  deriving DecidableEq

inductive ConfigFault where
  | notMapping (path : String)
  | unknownKeys (path : String) (keys : List String)
  | notText (path key : String)
  | extensionWithoutDot (path : String)
  deriving DecidableEq

inductive Fault where
  /-- A declaration lacks a required key. -/
  | missingKey
  /-- A value is of the wrong kind for its place. -/
  | wrongType
  /-- A part was asked of something that has no such part, an unresolved reference above all. -/
  | missingPart
  /-- A value is of the right kind and cannot be used. -/
  | badValue
  /-- A number is too large to be whole. -/
  | outOfRange
  /-- A position is beyond the end of a list. -/
  | noSuchPosition
  | file (fault : FileFault)
  | unreadable (role : DocumentRole) (path : String) (cause : ReadFault)
  | graph (fault : GraphFault)
  | policy (fault : PolicyFault)
  | config (fault : ConfigFault)
  /-- A module has no directory for its units. -/
  | noDirectory (module : Value)
  /-- Something lies deeper in itself than is followed; of the sessions none reaches that, only the
  reading of documents. -/
  | tooDeep
  deriving DecidableEq

def DocumentRole.label : DocumentRole → String
  | .graph => "type graph"
  | .config => "config"
  | .policy => "policy"

def GraphFault.message : GraphFault → String
  | .notMapping => "type graph must be a mapping"
  | .unknownKind kind name => "unknown type kind " ++ kind.shown ++ " for " ++ name.shown
  | .missingNameOrModule declaration =>
    "type declaration is missing name or module: " ++ declaration.shown
  | .badPropertyKind owner name => "bad property kind in " ++ owner.plain ++ "." ++ name.plain

def PolicyFault.message : PolicyFault → String
  | .notMapping => "policy must contain a mapping at the root"
  | .unknownLists names => "unknown policy lists: " ++ String.intercalate ", " names
  | .listNotMapping => "name list must be a mapping"
  | .notNames key => key ++ " must be a list of names"
  | .notPairs key => key ++ " must be a list of [type, member] pairs"

def ConfigFault.message : ConfigFault → String
  | .notMapping path => path ++ ": config must contain a mapping at the root"
  | .unknownKeys path keys => path ++ ": unknown config keys: " ++ String.intercalate ", " keys
  | .notText path key => path ++ ": " ++ key ++ " must be a string"
  | .extensionWithoutDot path => path ++ ": file_extension must start with \".\""

def Fault.message? : Fault → Option String
  | .unreadable role path _ => some ("Failed to read " ++ role.label ++ " " ++ path)
  | .graph fault => some fault.message
  | .policy fault => some fault.message
  | .config fault => some fault.message
  | .noDirectory name =>
    some ("Generating the directory location for module " ++ name.plain ++ " failed")
  | _ => none

def Value.keyed (v : Value) : Except Fault Value := if v.isKey then .ok v else .error .wrongType

/-- Faults unless the value is a text; anything else has no name. -/
def Value.named (v : Value) : Except Fault Name := if v.isText then .ok v else .error .missingPart

@[simp] theorem Value.keyed_text (s : String) : (Value.text s).keyed = .ok (.text s) := rfl

@[simp] theorem Value.named_text (s : String) : (Value.text s).named = .ok (.text s) := rfl

end ScriptGlue
