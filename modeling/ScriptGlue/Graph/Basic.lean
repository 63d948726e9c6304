import ScriptGlue.Graph.Kind
import ScriptGlue.Value.Display

/-! # The native type graph

Types are kept in a store that only grows, and a link to a type is its position there, so a link
stays valid and keeps naming the same declaration. A graph is the modules declared so far and the
positions of its types; redeclaring a name adds a type and the newest is the one found.
-/

namespace ScriptGlue

/-- Marks of types, properties, parameters and functions. -/
inductive Flag where
  | abstract
  | deprecated
  | transient
  | compiledFromBlueprint
  | newerVersionExists
  | defaultObject
  | transientPackage
  | blueprintType
  | blueprintable
  | generatedByBlueprint
  | cannotImplementInterface
  | blueprintVisible
  | blueprintReadOnly
  | protectedAccess
  | returned
  | out
  | byReference
  | static
  | blueprintEvent
  | blueprintCallable
  deriving DecidableEq, Repr

def Flag.label : Flag → String
  | .abstract => "abstract"
  | .deprecated => "deprecated"
  | .transient => "transient"
  | .compiledFromBlueprint => "compiled_from_blueprint"
  | .newerVersionExists => "newer_version_exists"
  | .defaultObject => "default_object"
  | .transientPackage => "transient_package"
  | .blueprintType => "blueprint_type"
  | .blueprintable => "blueprintable"
  | .generatedByBlueprint => "generated_by_blueprint"
  | .cannotImplementInterface => "cannot_implement_interface_in_blueprint"
  | .blueprintVisible => "blueprint_visible"
  | .blueprintReadOnly => "blueprint_read_only"
  | .protectedAccess => "protected"
  | .returned => "return"
  | .out => "out"
  | .byReference => "ref_param"
  | .static => "static"
  | .blueprintEvent => "blueprint_event"
  | .blueprintCallable => "blueprint_callable"

abbrev Flags := List Value

def Flags.has (flags : Flags) (f : Flag) : Bool := flags.contains (.text f.label)

abbrev Metadata := List (Value × Value)

namespace Metadata

def get? (m : Metadata) (key : String) : Option Value :=
  (m.find? fun entry => entry.1.same (.text key)).map Prod.snd

def has (m : Metadata) (key : String) : Bool := (m.get? key).isSome

def set (m : Metadata) (key v : Value) : Metadata :=
  if m.any fun entry => entry.1.alike key then
    m.map fun entry => if entry.1.alike key then (entry.1, v) else entry
  else m ++ [(key, v)]

end Metadata

structure NativeModule where
  name : Name
  pluginType : Value := .null
  isLoaded : Value := .bool true
  isGameModule : Value := .bool false
  deriving DecidableEq, Inhabited

abbrev TypeId := Nat

/-- A property, struct field, parameter or container element. -/
structure Property where
  name : Name
  kind : PropertyKind
  arrayDim : Int := 1
  /-- Name of the type it refers to. -/
  refName : Value := .text ""
  /-- The type it refers to, if there is one of that name. -/
  ref : Option TypeId := none
  /-- Element of a container, or key of a map. -/
  inner : Option Property := none
  /-- Value of a map. -/
  value : Option Property := none
  flags : Flags := []
  metadata : Metadata := []
  owner : Name
  deriving Inhabited

namespace Property

def has (p : Property) (f : Flag) : Bool := p.flags.has f

def isReturn (p : Property) : Bool := p.has .returned

def isPureOut (p : Property) : Bool := p.has .out && !p.has .byReference

def isFixedArray (p : Property) : Bool := 1 < p.arrayDim

def label (p : Property) : String := p.name.plain

/-- The elements a container kind has: key and value of a map, the element of the others. -/
def elements (p : Property) : List (Option Property) :=
  if p.kind = .map then [p.inner, p.value] else [p.inner]

end Property

structure Function where
  name : Name
  params : List Property := []
  flags : Flags := []
  metadata : Metadata := []
  owner : Name
  deriving Inhabited

namespace Function

def has (f : Function) (flag : Flag) : Bool := f.flags.has flag

def label (f : Function) : String := f.name.plain

def returned? (f : Function) : Option Property := f.params.find? Property.isReturn

def arguments (f : Function) : List Property := f.params.filter fun p => !p.isReturn

def category (f : Function) : Value := (f.metadata.get? "Category").getD (.text "")

def findParam? (f : Function) (name : Name) : Option Property :=
  f.params.find? fun p => p.name.same name

end Function

inductive Variant where
  | plainClass
  | interface
  | struct
  | enum
  deriving DecidableEq, Repr, Inhabited

def Variant.label : Variant → String
  | .plainClass => "ClassInfo"
  | .interface => "InterfaceInfo"
  | .struct => "StructInfo"
  | .enum => "EnumInfo"

structure ClassBody where
  properties : List Property := []
  functions : List Function := []
  superName : Value := .text ""
  super : Option TypeId := none
  interfaceNames : List Value := []
  interfaces : List TypeId := []
  deriving Inhabited

def ClassBody.findFunction? (c : ClassBody) (name : Name) : Option Function :=
  c.functions.find? fun f => f.name.same name

inductive TypeBody where
  | plainClass (body : ClassBody)
  | interface (body : ClassBody)
  | struct (properties : List Property)
  | enum (entries : List Value) (underlying : Value)

instance : Inhabited TypeBody := ⟨.enum [] .null⟩

structure TypeNode where
  name : Name
  /-- The module as it was declared when the type was read. -/
  home : NativeModule
  flags : Flags := []
  body : TypeBody
  deriving Inhabited

namespace TypeNode

def has (t : TypeNode) (f : Flag) : Bool := t.flags.has f

def label (t : TypeNode) : String := t.name.plain

def variant (t : TypeNode) : Variant :=
  match t.body with
  | .plainClass _ => .plainClass
  | .interface _ => .interface
  | .struct _ => .struct
  | .enum _ _ => .enum

def classBody? (t : TypeNode) : Option ClassBody :=
  match t.body with
  | .plainClass body => some body
  | .interface body => some body
  | _ => none

def isClass (t : TypeNode) : Bool := t.classBody?.isSome

def isEnum (t : TypeNode) : Bool := t.variant = .enum

def isPlainStruct (t : TypeNode) : Bool := t.variant = .struct

def properties? (t : TypeNode) : Option (List Property) :=
  match t.body with
  | .plainClass body => some body.properties
  | .interface body => some body.properties
  | .struct properties => some properties
  | .enum _ _ => none

def super (t : TypeNode) : Option TypeId := t.classBody?.bind ClassBody.super

def functions (t : TypeNode) : List Function := (t.classBody?.map ClassBody.functions).getD []

def interfaces (t : TypeNode) : List TypeId := (t.classBody?.map ClassBody.interfaces).getD []

end TypeNode

abbrev TypeStore := Array TypeNode

/-- The type at a position; no link points beyond the store. -/
def TypeStore.type (store : TypeStore) (id : TypeId) : TypeNode := store.getD id default

/-- Modules by the names they were first declared under, in that order. -/
abbrev ModuleTable := List (Name × NativeModule)

namespace ModuleTable

def find? (modules : ModuleTable) (name : Name) : Option NativeModule :=
  (List.find? (fun entry => entry.1.alike name) modules).map Prod.snd

/-- Declares a module: a known name keeps its place and its spelling. -/
def declare (modules : ModuleTable) (m : NativeModule) : ModuleTable :=
  if modules.any fun entry => entry.1.alike m.name then
    modules.map fun entry => if entry.1.alike m.name then (entry.1, m) else entry
  else modules ++ [(m.name, m)]

end ModuleTable

/-- The modules declared so far and the types read into one graph, oldest first. -/
structure Graph where
  modules : ModuleTable := []
  members : List TypeId := []
  deriving DecidableEq, Inhabited

namespace Graph

def newest? (store : TypeStore) (members : List TypeId) (key : Name) : Option TypeId :=
  members.reverse.find? fun id => (store.type id).name.alike key

def find? (store : TypeStore) (g : Graph) (name : Name) : Option TypeId :=
  g.members.reverse.find? fun id => (store.type id).name.same name

def index (store : TypeStore) (g : Graph) : List (Name × TypeId) :=
  (Value.distinct (g.members.map fun id => (store.type id).name)).filterMap fun name =>
    (newest? store g.members name).map (name, ·)

def typesInModule (store : TypeStore) (g : Graph) (name : Name) : List TypeId :=
  g.members.filter fun id => (store.type id).home.name.same name

end Graph

end ScriptGlue
