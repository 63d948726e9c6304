import ScriptGlue.Fault
import ScriptGlue.Graph.Basic
import ScriptGlue.Value.Integer

/-! # Reading type graphs

A graph document declares modules and then types. Declarations are read in order and the first
fault ends the reading, so the order in which the parts of a declaration are looked at is part of
the format: kind, name and module, flags, members. Where a list is expected a text gives its
characters and an object its keys.
-/

namespace ScriptGlue.Graph

def items : Value → Except Fault (List Value)
  | .list vs => .ok vs
  | .text s => .ok ((Text.pieces s).map .text)
  | .object fields => .ok (fields.map fun (k, _) => .text k)
  | _ => .error .wrongType

def itemsAt (fields : List (String × Value)) (key : String) : Except Fault (List Value) :=
  match fields.lookup key with
  | some v => items v
  | none => .ok []

def required (fields : List (String × Value)) (key : String) : Except Fault Value :=
  match fields.lookup key with
  | some v => .ok v
  | none => .error .missingKey

def readFlags (fields : List (String × Value)) : Except Fault Flags := do
  let flags ← (← itemsAt fields "flags").mapM Value.keyed
  return Value.distinct flags

/-- One entry of a list of pairs: anything of two items. -/
def readPair (v : Value) : Except Fault (Value × Value) := do
  match ← items v with
  | [key, v] => return (← key.keyed, v)
  | _ => throw .badValue

def readMetadata (fields : List (String × Value)) : Except Fault Metadata :=
  match fields.lookup "metadata" with
  | none => .ok []
  | some (.object entries) => .ok (entries.map fun (k, v) => (.text k, v))
  | some v => do
    let entries ← (← items v).mapM readPair
    return entries.foldl (fun m (k, v) => m.set k v) []

def readDimension (fields : List (String × Value)) : Except Fault Int :=
  match ((fields.lookup "array_dim").getD (.int 1)).toWhole with
  | .ok n => .ok n
  | .error .notNumber => .error .wrongType
  | .error .notDecimal => .error .badValue
  | .error .infinite => .error .outOfRange

/-- Kind of a property; a bad one is told with the name, if there is one. -/
def readKind (owner : Name) (fields : List (String × Value)) : Except Fault PropertyKind :=
  match (fields.lookup "kind").bind Value.text? with
  | some word =>
    match PropertyKind.ofLabel? word with
    | some kind => .ok kind
    | none => bad
  | none => bad
where
  bad : Except Fault PropertyKind :=
    .error (.graph (.badPropertyKind owner ((fields.lookup "name").getD .null)))

/-- An element under a key, where null, false, zero and the empty values are absent. -/
def readElement (fields : List (String × Value)) (elements : List (String × Except Fault Property))
    (key : String) : Except Fault (Option Property) :=
  match fields.lookup key, elements.lookup key with
  | some v, some read => if v.truthy then some <$> read else .ok none
  | _, _ => .ok none

/-- A property from its fields, given what each field reads as when it is itself a property. -/
def assembleProperty (owner : Name) (fields : List (String × Value))
    (elements : List (String × Except Fault Property)) : Except Fault Property := do
  let kind ← readKind owner fields
  let name ← required fields "name"
  let arrayDim ← readDimension fields
  let inner ← readElement fields elements "inner"
  let value ← readElement fields elements "value"
  let flags ← readFlags fields
  let metadata ← readMetadata fields
  return {
    name, kind, arrayDim, inner, value, flags, metadata, owner
    refName := (fields.lookup "type").getD (.text "") }

mutual

def readProperty (owner : Name) : Value → Except Fault Property
  | .object fields => assembleProperty owner fields (readEach owner fields)
  | _ => .error .wrongType

def readEach (owner : Name) :
    List (String × Value) → List (String × Except Fault Property)
  | [] => []
  | (key, v) :: rest => (key, readProperty owner v) :: readEach owner rest

end

def readFunction (owner : Name) : Value → Except Fault Function
  | .object fields => do
    let params ← (← itemsAt fields "params").mapM (readProperty owner)
    let name ← required fields "name"
    let flags ← readFlags fields
    let metadata ← readMetadata fields
    return { name, params, flags, metadata, owner }
  | _ => .error .missingPart

def readClassBody (owner : Name) (fields : List (String × Value)) : Except Fault ClassBody := do
  let properties ← (← itemsAt fields "properties").mapM (readProperty owner)
  let functions ← (← itemsAt fields "functions").mapM (readFunction owner)
  let superName :=
    match fields.lookup "super" with
    | some v => if v.truthy then v else .text ""
    | none => .text ""
  let interfaceNames ← itemsAt fields "interfaces"
  return { properties, functions, superName, interfaceNames }

def readVariant (fields : List (String × Value)) : Except Fault Variant := do
  let kind ← ((fields.lookup "kind").getD .null).keyed
  match kind with
  | .text "class" => return .plainClass
  | .text "interface" => return .interface
  | .text "struct" => return .struct
  | .text "enum" => return .enum
  | _ => throw (.graph (.unknownKind kind ((fields.lookup "name").getD .null)))

def readBody (variant : Variant) (owner : Name) (fields : List (String × Value)) :
    Except Fault TypeBody :=
  match variant with
  | .enum => do
    let entries ← itemsAt fields "entries"
    return .enum entries ((fields.lookup "underlying").getD (.text "uint8"))
  | .struct => do
    let properties ← (← itemsAt fields "properties").mapM (readProperty owner)
    return .struct properties
  | .plainClass => .plainClass <$> readClassBody owner fields
  | .interface => .interface <$> readClassBody owner fields

/-- A type declaration, with the modules declared after it: a module that is only named is declared
with nothing known of it. -/
def readType (modules : ModuleTable) : Value → Except Fault (TypeNode × ModuleTable)
  | .object fields => do
    let variant ← readVariant fields
    match fields.lookup "name", fields.lookup "module" with
    | some name, some moduleName =>
      let moduleName ← moduleName.keyed
      let (home, known) :=
        match modules.find? moduleName with
        | some home => (home, modules)
        | none => ({ name := moduleName }, modules ++ [(moduleName, { name := moduleName })])
      let flags ← readFlags fields
      let body ← readBody variant name fields
      return ({ name, home, flags, body }, known)
    | _, _ => throw (.graph (.missingNameOrModule (.object fields)))
  | _ => throw .missingPart

def readTypes (modules : ModuleTable) :
    List Value → Except Fault (List TypeNode × ModuleTable)
  | [] => .ok ([], modules)
  | v :: rest => do
    let (node, modules) ← readType modules v
    let (nodes, modules) ← readTypes modules rest
    return (node :: nodes, modules)

def readModule : Value → Except Fault NativeModule
  | .object fields => do
    let name ← (← required fields "name").keyed
    return {
      name
      pluginType := (fields.lookup "plugin_type").getD .null
      isLoaded := (fields.lookup "is_loaded").getD (.bool true)
      isGameModule := (fields.lookup "is_game_module").getD (.bool false) }
  | _ => .error .wrongType

def readModules (known : ModuleTable) (declarations : List Value) :
    Except Fault ModuleTable := do
  return (← declarations.mapM readModule).foldl ModuleTable.declare known

def readDocument (known : ModuleTable) : Value → Except Fault (ModuleTable × List TypeNode)
  | .object fields => do
    let modules ← readModules known (← itemsAt fields "modules")
    let (nodes, modules) ← readTypes modules (← itemsAt fields "types")
    return (modules, nodes)
  | _ => .error (.graph .notMapping)

end ScriptGlue.Graph
