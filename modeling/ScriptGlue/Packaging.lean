import ScriptGlue.Files.Path
import ScriptGlue.Graph.Basic
import ScriptGlue.Naming

/-! # Packaging

Where the units of a module go. The units of engine-side modules share one directory; those of
modules owned by the project go below the project. A module keeps the directory it was registered
with for the whole session.
-/

namespace ScriptGlue

/-- What decides the directory of a module. Any value may be given; what is no text is no directory,
and joins nothing. -/
structure Packaging where
  /-- Directory shared by engine-side modules. -/
  scriptsDir : Value
  projectDir : Value := .text ""
  /-- Plugin type of the plugin that hosts the generator. -/
  hostPluginType : Value := .text "project"
  /-- Directory below the project for the units of its own modules. -/
  generatedUserContent : Value := .text "Script/obj/Generated"
  deriving DecidableEq, Inhabited

namespace Packaging

def userContentDir (p : Packaging) : Except Fault Value :=
  match p.projectDir, p.generatedUserContent with
  | .text project, .text content => .ok (.text (Path.join project content))
  | _, _ => .error .wrongType

def isEngineSide (pluginType : Value) : Bool :=
  pluginType = .text "engine" || pluginType = .text "enterprise"

/-- The module's units go below the project: a host that is part of the project keeps all beside
itself, a plugin goes by its type, and of the other modules only the loaded game modules are the
project's. -/
def isProjectSide (p : Packaging) (m : NativeModule) : Bool :=
  p.hostPluginType ≠ .text "project" &&
    if m.pluginType ≠ .null then !isEngineSide m.pluginType
    else m.isLoaded.truthy && m.isGameModule.truthy

def directory (p : Packaging) (m : NativeModule) : Except Fault Value :=
  if p.isProjectSide m then p.userContentDir else .ok p.scriptsDir

end Packaging

structure OutputModule where
  name : Name
  directory : Value
  deriving DecidableEq, Inhabited

namespace OutputModule

def label (m : OutputModule) : String := m.name.plain

def space (m : OutputModule) : String := Naming.moduleNamespace m.label

def unitName (m : OutputModule) : String := m.label ++ "Module"

end OutputModule

abbrev Registry := List OutputModule

namespace Registry

def find? (r : Registry) (name : Name) : Option OutputModule :=
  List.find? (fun m => m.name.alike name) r

def contains (r : Registry) (name : Name) : Bool := (r.find? name).isSome

def spaceOf (r : Registry) (name : Name) : String :=
  match r.find? name with
  | some m => m.space
  | none => Naming.moduleNamespace name.plain

end Registry

end ScriptGlue
