import ScriptGlue.Files.Workspace
import ScriptGlue.Graph.Hierarchy
import ScriptGlue.Packaging
import ScriptGlue.Policy.Basic
import ScriptGlue.Receiver

/-! # Session state

What a session accumulates over its triggers: the types read, the modules registered, the types
exported, the extension methods collected, what was rejected, and two memo tables. A memo entry is
never revised once its computation has ended.
-/

namespace ScriptGlue

/-- The roles in which a member can be refused. -/
inductive Category where
  | properties
  | parameters
  | returnValues
  | overridableParameters
  | overridableReturnValues
  deriving DecidableEq, Repr

def Category.all : List Category :=
  [.properties, .parameters, .returnValues, .overridableParameters, .overridableReturnValues]

def Category.label : Category → String
  | .properties => "properties"
  | .parameters => "parameters"
  | .returnValues => "return_values"
  | .overridableParameters => "overridable_parameters"
  | .overridableReturnValues => "overridable_return_values"

structure Session where
  policy : Policy := {}
  packaging : Packaging
  /-- Suffix of every unit, with its point. -/
  fileExtension : Value := .text ".cs"
  store : TypeStore := #[]
  graph : Option Graph := none
  registry : Registry := []
  /-- Types exported so far, newest first, each once. -/
  exported : List TypeId := []
  /-- Extension methods in the order they were found. -/
  extensions : List ExtensionMethod := []
  /-- Every refusal of a member, newest first. -/
  rejections : List (Category × PropertyKind) := []
  /-- Variants of the types passed over, newest first. -/
  skipped : List Variant := []
  /-- Properties that passed the gate, by type. -/
  acceptedProperties : List (TypeId × List Property) := []
  /-- Whether a type has the native layout; false while that is being found out. -/
  blittable : List (Option TypeId × Bool) := []
  workspace : Workspace := {}
  deriving Inhabited

abbrev Generation (α : Type) := Action Session α

namespace Session

def onWorkspace {α : Type} (a : Action Workspace α) : Generation α :=
  a.within workspace fun w s => { s with workspace := w }

def onPolicy {α : Type} (a : Action Policy α) : Generation α :=
  a.within policy fun p s => { s with policy := p }

def tell (level : Level) (source : Source) (text : String) : Generation Unit :=
  onWorkspace (Workspace.tell level source text)

def typeAt (id : TypeId) : Generation TypeNode := return (← get).store.type id

def register (m : NativeModule) : Generation OutputModule := do
  let _ ← Action.ofExcept m.name.keyed
  let s ← get
  match s.registry.find? m.name with
  | some known => return known
  | none =>
    let directory ← Action.ofExcept (s.packaging.directory m)
    if !directory.truthy then throw (.noDirectory m.name)
    let added : OutputModule := { name := m.name, directory }
    modify fun s => { s with registry := s.registry ++ [added] }
    tell .info .modules ("  " ++ m.name.plain ++ " => " ++ directory.plain)
    return added

def registerByName (name : Name) : Generation OutputModule := do
  let name ← Action.ofExcept name.named
  register { name }

/-- Name of a type in generated code; the name of a type can be looked up by. -/
def scriptName (t : TypeNode) : Name := Naming.escaped t.name

def scriptLabel (t : TypeNode) : String := (scriptName t).plain

def spaceOf (t : TypeNode) : Generation String := return (← register t.home).space

def qualifiedName (id : TypeId) : Generation String := do
  let t ← typeAt id
  return (← spaceOf t) ++ "." ++ scriptLabel t

/-- Name of a referred type; an unresolved reference has none. -/
def qualifiedRef (ref : Option TypeId) : Generation String :=
  match ref with
  | some id => qualifiedName id
  | none => throw .missingPart

def reject (category : Category) (kind : PropertyKind) : Generation Unit :=
  modify fun s => { s with rejections := (category, kind) :: s.rejections }

def rejectionCount (s : Session) (category : Category) (kind : PropertyKind) : Nat :=
  s.rejections.count (category, kind)

def findType? (s : Session) (name : Name) : Option TypeId :=
  s.graph.bind fun g => g.find? s.store name

def findModule? (s : Session) (name : Name) : Option NativeModule :=
  s.graph.bind fun g => g.modules.find? name

/-- Names of the modules that have extension methods, in the order of their first one. -/
def extendedModules (s : Session) : List Name :=
  Value.distinct (s.extensions.map fun m => (s.store.type m.library).home.name)

def extensionsOf (s : Session) (name : Name) : List ExtensionMethod :=
  s.extensions.filter fun m => (s.store.type m.library).home.name.alike name

end Session

end ScriptGlue
