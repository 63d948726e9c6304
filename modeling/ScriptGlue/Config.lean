import ScriptGlue.Document

/-! # Configuration

Settings of one session, read from a document whose keys are all known and whose values are texts,
save for two that may be null.
-/

namespace ScriptGlue

structure Config where
  outputDir : Value := .text "Script/Generated"
  projectDir : Value := .text "."
  hostPluginType : Value := .text "project"
  generatedUserContent : Value := .text "Script/obj/Generated"
  fileExtension : Value := .text ".cs"
  policyPath : Value := .null
  deriving DecidableEq, Inhabited

namespace Config

inductive Key where
  | outputDir
  | projectDir
  | hostPluginType
  | generatedUserContent
  | fileExtension
  | policyPath
  deriving DecidableEq, Repr

def Key.all : List Key :=
  [.outputDir, .projectDir, .hostPluginType, .generatedUserContent, .fileExtension, .policyPath]

def Key.label : Key → String
  | .outputDir => "output_dir"
  | .projectDir => "project_dir"
  | .hostPluginType => "host_plugin_type"
  | .generatedUserContent => "generated_user_content"
  | .fileExtension => "file_extension"
  | .policyPath => "policy_path"

def Key.ofLabel? (s : String) : Option Key := Key.all.find? fun k => k.label == s

def Key.optional (k : Key) : Bool := k = .hostPluginType || k = .policyPath

def set (c : Config) (key : Key) (v : Value) : Config :=
  match key with
  | .outputDir => { c with outputDir := v }
  | .projectDir => { c with projectDir := v }
  | .hostPluginType => { c with hostPluginType := v }
  | .generatedUserContent => { c with generatedUserContent := v }
  | .fileExtension => { c with fileExtension := v }
  | .policyPath => { c with policyPath := v }

/-- Applies the overrides that are given: null leaves a setting as it is. -/
def override (c : Config) (overrides : List (Key × Value)) : Config :=
  overrides.foldl (fun c (key, v) => if v = .null then c else c.set key v) c

def readSetting (path : String) (key : Key) : Value → Except Fault Value
  | .text s => .ok (.text s)
  | .null => if key.optional then .ok .null else .error (.config (.notText path key.label))
  | _ => .error (.config (.notText path key.label))

def readSettings (path : String) (c : Config) : List (String × Value) → Except Fault Config
  | [] => .ok c
  | (label, v) :: rest =>
    match Key.ofLabel? label with
    | some key => do readSettings path (c.set key (← readSetting path key v)) rest
    | none => readSettings path c rest

def unknownKeys (fields : List (String × Value)) : List String :=
  Text.sorted ((fields.map Prod.fst).filter fun k => (Key.ofLabel? k).isNone)

def startsWithPoint : Value → Bool
  | .text s => s.startsWith "."
  | _ => false

def ofDocument (path : String) : Value → Except Fault Config
  | .object fields =>
    match unknownKeys fields with
    | [] => do
      let c ← readSettings path {} fields
      if startsWithPoint c.fileExtension then return c
      else throw (.config (.extensionWithoutDot path))
    | unknown => throw (.config (.unknownKeys path unknown))
  | _ => throw (.config (.notMapping path))

def load (t : FileTree) (path : String) : Except Fault Config := do
  ofDocument path (← readDocumentFile t .config path)

end Config

end ScriptGlue
