import ScriptGlue.Session.Member

/-! # Units of a session

The unit of each exported type from its gated members, and the unit of a module's extension methods.
A member whose script name is taken is left out with a warning.
-/

namespace ScriptGlue.Session

def warnTaken (source : Source) (owner : TypeNode) (p : Property) (sort : String) (name : Name) :
    Generation Unit :=
  tell .warning source
    (owner.label ++ "." ++ p.label ++ " maps to the already declared " ++ sort ++ " " ++
      name.plain ++ "; skipping it")

def wrapperProperties (t : TypeNode) : List Name → List Property → Generation (List WrapperProperty)
  | _, [] => return []
  | taken, p :: rest => do
    let name ← Action.ofExcept (propertyName p (scriptName t))
    if name.memberOf taken then
      warnTaken .session t p "property" name
      wrapperProperties t taken rest
    else
      let policy := (← get).policy
      let shown ← wrapperProperty p name.plain (policy.relaxesProperty t.name p.name)
        (policy.forcesProperty t.name p.name)
      let others ← wrapperProperties t (name :: taken) rest
      return shown :: others

def addExtension (library : TypeId) (f : Function) : Generation Unit := do
  let t ← typeAt library
  match Receiver.resolve (some Receiver.worldClass) f with
  | none => return ()
  | some receiver =>
    modify fun s => { s with extensions := s.extensions ++ [{ function := f, receiver, library }] }
    let on := receiver.label f
    tell .debug .session ("    extension " ++ t.label ++ "." ++ f.label ++ " on " ++ on)

/-- The wrappers of functions; static functions of a library may be extension methods too. -/
def wrappers (id : TypeId) (owner : Name) (isLibrary : Bool) :
    List Function → Generation (List Wrapper)
  | [] => return []
  | f :: rest => do
    let shown ← wrapper f owner
    if isLibrary && f.has .static then addExtension id f
    let others ← wrappers id owner isLibrary rest
    return shown :: others

def superClassName (t : TypeNode) : Generation String :=
  match t.super with
  | some id => qualifiedName id
  | none => return Naming.rootClass

def interfaceMethods (t : TypeNode) : List Function → Generation (List InterfaceMethod)
  | [] => return []
  | f :: rest => do
    let passed ← if f.has .blueprintEvent then canExportFunction t f else pure false
    if passed then
      let shown ← interfaceMethod f (scriptName t)
      let others ← interfaceMethods t rest
      return shown :: others
    else interfaceMethods t rest

def interfaceUnit (t : TypeNode) : Generation InterfaceUnit := do
  let space ← spaceOf t
  match t.classBody? with
  | none => throw .missingPart
  | some body =>
    let methods ← interfaceMethods t body.functions
    return { space, name := scriptLabel t, methods }

def classMembers (id : TypeId) (t : TypeNode) (properties : List Property)
    (functions events : List Function) :
    Generation
      (Option StaticConstructor × List WrapperProperty × List Wrapper × List EventStub) := do
  let name := scriptName t
  properties.forM fun p => do let _ ← Action.ofExcept (propertyName p name)
  let construction := staticConstructor t properties functions events
  let shown ← wrapperProperties t [] properties
  let isLibrary := isChildOf (← get).store id functionLibraryClass
  let called ← wrappers id name isLibrary functions
  let stubs ← events.mapM fun f => eventStub f name
  return (construction, shown, called, stubs)

/-- The members of a struct: handles unless the layout is native, and one field per script name. -/
def structMembers (t : TypeNode) (blittable : Bool) :
    List Name → List Property → Generation (List StructMember)
  | _, [] => return []
  | taken, p :: rest => do
    let name ← Action.ofExcept (propertyName p (scriptName t))
    let handles := if blittable then [] else [StructMember.handles (propertyFields p true)]
    if name.memberOf taken then
      warnTaken .structs t p "field" name
      let others ← structMembers t blittable taken rest
      return handles ++ others
    else
      let field ← mirrorField p name.plain ((← get).policy.relaxesProperty t.name p.name)
      let others ← structMembers t blittable (name :: taken) rest
      return handles ++ .mirror field :: others

def mirroring (t : TypeNode) (properties : List Property) : Generation Mirroring := do
  let inputs ← properties.mapM fun p =>
    readInto p p.label "null" StructUnit.sourceBuffer (.handle (.offset p.label))
      (propertyText p (scriptName t) ++ " =")
  let outputs ← properties.mapM fun p =>
    writeFrom p p.label "null" StructUnit.targetBuffer (.handle (.offset p.label))
      (propertyText p (scriptName t))
  return { construction := staticConstructor t properties [] [], inputs, outputs }

def structUnit (id : TypeId) (t : TypeNode) (properties : List Property) :
    Generation StructUnit := do
  let space ← spaceOf t
  let blittable ← isStructBlittable (some id)
  let members ← structMembers t blittable [] properties
  let mirroring ← if blittable then pure none else some <$> mirroring t properties
  return { space, name := scriptLabel t, members, mirroring }

def sentinelMark : String := "MAX"

/-- The entries to export, from a position on; one that is left out keeps its ordinal. -/
def enumValuesFrom (policy : Policy) (enum : Name) (count : Nat) :
    Nat → List Value → Except Fault (List (String × Nat))
  | _, [] => .ok []
  | i, entry :: rest => do
    let entry ← entry.keyed
    if !policy.allowsEnumEntry enum entry then enumValuesFrom policy enum count (i + 1) rest
    else
      let name := (← Naming.enumEntry entry).plain
      let others ← enumValuesFrom policy enum count (i + 1) rest
      return if i + 1 = count ∧ name.endsWith sentinelMark then others else (name, i) :: others

def enumValues (policy : Policy) (enum : Name) (entries : List Value) :
    Except Fault (List (String × Nat)) :=
  enumValuesFrom policy enum entries.length 0 entries

def underlyingType : Value → Except Fault String
  | .text "int8" => .ok "sbyte"
  | .text "int16" => .ok "short"
  | .text "int32" => .ok "int"
  | .text "int64" => .ok "long"
  | .text "uint8" => .ok "byte"
  | .text "uint16" => .ok "ushort"
  | .text "uint32" => .ok "uint"
  | .text "uint64" => .ok "ulong"
  | v => if v.isKey then .ok "byte" else .error .wrongType

def enumUnit (t : TypeNode) : Generation EnumUnit := do
  let space ← spaceOf t
  match t.body with
  | .enum entries underlying =>
    let underlying ← Action.ofExcept (underlyingType underlying)
    let values ← Action.ofExcept (enumValues (← get).policy t.name entries)
    return { space, name := scriptLabel t, underlying, values }
  | _ => throw .missingPart

def worldModule : Name := .text "Engine"

def overrideType (className : Name) : Generation String := do
  let s ← get
  match s.findType? className with
  | some id => qualifiedName id
  | none =>
    let space ←
      match s.findModule? worldModule with
      | some m => OutputModule.space <$> register m
      | none => pure (s.registry.spaceOf worldModule)
    return space ++ "." ++ className.plain

def receiverType (m : ExtensionMethod) : Generation String :=
  match m.receiver.override with
  | some className => overrideType className
  | none =>
    match m.function.params[m.receiver.position]? with
    | some p => scriptType p
    | none => throw .missingPart

def forwarded (m : ExtensionMethod) (p : Property) (position : Nat) : String :=
  if position = m.receiver.position then Forwarder.receiverName
  else (passing p).text ++ parameterText p

def forwarder (m : ExtensionMethod) : Generation Forwarder := do
  let library ← typeAt m.library
  let f := m.function
  let name ← Action.ofExcept (functionName f (scriptName library))
  let receiverType ← receiverType m
  let parameters ← (f.argumentsBut m.receiver.position).mapM parameter
  let target ← qualifiedName m.library
  let returnType ← returnType f
  return {
    name := name.plain
    returnType
    returnsValue := f.returned?.isSome
    receiverType, parameters
    library := target
    arguments := f.positioned.map fun (p, i) => forwarded m p i }

def extensionUnit (m : OutputModule) (methods : List ExtensionMethod) :
    Generation ExtensionUnit := do
  let forwarders ← methods.mapM forwarder
  return { module := m.label, space := m.space, forwarders }

end ScriptGlue.Session
