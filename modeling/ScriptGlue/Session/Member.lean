import ScriptGlue.Session.ScriptType
import ScriptGlue.Unit.Basic

/-! # Members of units

The generated members of properties and functions: their declarations, lookups and transfers. The
script types and marshallers are resolved in the order in which the members name them, so modules
are registered in that order.

A name is asked for where the member is made, and faults there if it is none. After that its text is
all that is written.
-/

namespace ScriptGlue.Session

def textOf : Except Fault Name → String
  | .ok name => name.plain
  | .error _ => ""

def propertyName (p : Property) (owner : Name) : Except Fault Name :=
  Naming.property p.kind p.name owner

def propertyText (p : Property) (owner : Name) : String := textOf (propertyName p owner)

def functionName (f : Function) (owner : Name) : Except Fault Name := Naming.function f.name owner

def parameterName (p : Property) : Except Fault Name := Naming.parameter p.kind p.name

def parameterText (p : Property) : String := textOf (parameterName p)

def handleFields (modifier : FieldModifier) (slot : String) (p : Property) : List Field :=
  ⟨modifier, .offset slot⟩ ::
    (if p.isFixedArray then [⟨.constant p.arrayDim, .length slot⟩] else []) ++
    (if p.kind.isContainer then [⟨modifier, .property slot⟩] else [])

def propertyFields (p : Property) (isReadonly : Bool) : List Field :=
  handleFields (if isReadonly then .staticReadonly else .static) p.label p

def propertyLookups (p : Property) (native : String) : List Lookup :=
  { target := .offset native, query := .offset .nativeType native } ::
    (if p.kind.isContainer then
      [{ target := .property native, query := .property .nativeType native }] else [])

def slotOf (function : String) (p : Property) : String := parameterSlot function p.label

def parameterFields (function : String) (p : Property) : List Field :=
  ⟨.static, .offset (slotOf function p)⟩ ::
    (if p.kind.isContainer then [⟨.static, .property (slotOf function p)⟩] else [])

def parameterLookups (function : String) (p : Property) : List Lookup :=
  { target := .offset (slotOf function p), query := .offset (.function function) p.label } ::
    (if p.kind.isContainer then
      [{ target := .property (slotOf function p), query := .property (.function function) p.label }]
    else [])

def blockFields (f : Function) : List Field :=
  (if f.params.isEmpty then [] else [⟨.static, .paramsSize f.label⟩]) ++
    f.params.flatMap (parameterFields f.label)

def functionLookup (f : Function) (isLocal : Bool) : Lookup :=
  { isLocal, target := .function f.label, query := .function f.label }

def blockLookups (f : Function) : List Lookup :=
  (if f.params.isEmpty then []
    else [{ target := .paramsSize f.label, query := .paramsSize (.function f.label) }]) ++
    f.params.flatMap (parameterLookups f.label)

def functionLookups (f : Function) : List Lookup := functionLookup f false :: blockLookups f

def eventLookups (f : Function) : List Lookup :=
  if f.params.isEmpty then [] else functionLookup f true :: blockLookups f

def distinctLookups (owner : Name) : List Name → List Property → List Lookup
  | _, [] => []
  | taken, p :: rest =>
    match propertyName p owner with
    | .error _ => distinctLookups owner taken rest
    | .ok name =>
      if name.memberOf taken then distinctLookups owner taken rest
      else propertyLookups p p.label ++ distinctLookups owner (name :: taken) rest

/-- The static constructor of a type; a class that needs no lookup has none. -/
def staticConstructor (t : TypeNode) (properties : List Property)
    (functions events : List Function) : Option StaticConstructor :=
  let isClass := t.isClass
  if isClass && properties.isEmpty && functions.isEmpty && events.isEmpty then none
  else
    let keepsType := functions.any fun f => f.has .static
    let query := if isClass then Query.classNamed t.label else .structNamed t.label
    some {
      fields :=
        (if keepsType then [⟨.staticReadonly, .nativeType⟩] else []) ++
          (if isClass then [] else [⟨.publicStaticReadonly, .dataSize⟩])
      typeName := scriptLabel t
      type := { isLocal := !keepsType, target := .nativeType, query }
      properties := distinctLookups (scriptName t) [] properties
      rest :=
        if isClass then .ofClass (functions.map functionLookups) (events.map eventLookups)
        else .ofStruct { target := .dataSize, query := .structSize } }

def transfer (p : Property) (slot owner buffer : String) (displacement : Displacement) :
    Generation Transfer := do
  let marshaller ← marshaller p slot
  return {
    marshaller, owner, buffer, displacement
    length := if p.isFixedArray then some (.length slot) else none }

def readInto (p : Property) (slot owner buffer : String) (displacement : Displacement)
    (assignment : String) : Generation Statement := do
  let t ← transfer p slot owner buffer displacement
  let elementType ← if p.isFixedArray then scriptType p else pure ""
  return .read t assignment elementType

def writeFrom (p : Property) (slot owner buffer : String) (displacement : Displacement)
    (source : String) : Generation Statement := do
  return .write (← transfer p slot owner buffer displacement) source

def passing (p : Property) : Passing :=
  if p.has .out then (if p.has .byReference then .byReference else .out) else .value

def parameter (p : Property) : Generation Parameter := do
  let type ← scriptType p
  let name ← Action.ofExcept (parameterName p)
  return { passing := passing p, type, name := name.plain }

def returnType (f : Function) : Generation String :=
  match f.returned? with
  | some p => scriptType p
  | none => return "void"

def inputsOf (f : Function) : List Property := f.arguments.filter fun p => !p.isPureOut

def outputsOf (f : Function) : List Property := f.arguments.filter fun p => p.has .out

def parameterOffset (f : Function) (p : Property) : Displacement :=
  .handle (.offset (slotOf f.label p))

def wrapperExchange (f : Function) : Generation Exchange := do
  let owner := Wrapper.owner (f.has .static)
  let inputs ← (inputsOf f).mapM fun p =>
    writeFrom p (slotOf f.label p) owner Wrapper.buffer (parameterOffset f p) (parameterText p)
  let outputs ← (outputsOf f).mapM fun p =>
    readInto p (slotOf f.label p) owner Wrapper.buffer (parameterOffset f p)
      (parameterText p ++ " =")
  let result ← f.returned?.toList.mapM fun p =>
    readInto p (slotOf f.label p) owner Wrapper.buffer (parameterOffset f p) "return"
  return { inputs, outputs := outputs ++ result }

def wrapper (f : Function) (owner : Name) : Generation Wrapper := do
  let name ← Action.ofExcept (functionName f owner)
  let returnType ← returnType f
  let parameters ← f.arguments.mapM parameter
  let exchange ← if f.params.isEmpty then pure none else some <$> wrapperExchange f
  return {
    native := f.label
    isStatic := f.has .static
    name := name.plain
    returnType, parameters, exchange
    fields := ⟨.static, .function f.label⟩ :: blockFields f }

/-- What an implementation does unless overridden: it sets what only it sets. -/
def defaultStatements (f : Function) : List Statement :=
  (f.arguments.filter Property.isPureOut).map (fun p =>
      .assign (parameterText p) p.kind.defaultValue) ++
    f.returned?.toList.map fun p => .giveBack p.kind.defaultValue

/-- Makes one argument of an implementation: declared if only the implementation sets it. -/
def eventInput (f : Function) (p : Property) : Generation Statement := do
  let type ← scriptType p
  if p.isPureOut then return .declare type (parameterText p)
  else
    readInto p (slotOf f.label p) "null" EventStub.buffer (parameterOffset f p)
      (type ++ " " ++ parameterText p ++ " =")

def eventStub (f : Function) (owner : Name) : Generation EventStub := do
  let name ← Action.ofExcept (functionName f owner)
  let returnType ← returnType f
  let parameters ← f.arguments.mapM parameter
  let inputs ← f.arguments.mapM (eventInput f)
  let outputs ← (outputsOf f).mapM fun p =>
    writeFrom p (slotOf f.label p) "null" EventStub.buffer (parameterOffset f p) (parameterText p)
  let result ← f.returned?.toList.mapM fun p =>
    writeFrom p (slotOf f.label p) "null" EventStub.returnBuffer (.literal "0")
      EventStub.returnValue
  return {
    native := f.label
    name := name.plain
    returnType
    returnsValue := f.returned?.isSome
    parameters
    fields := if f.params.isEmpty then [] else blockFields f
    defaults := defaultStatements f
    inputs
    outputs := outputs ++ result }

def interfaceMethod (f : Function) (owner : Name) : Generation InterfaceMethod := do
  let name ← Action.ofExcept (functionName f owner)
  let returnType ← returnType f
  let parameters ← f.arguments.mapM parameter
  return { name := name.plain, returnType, parameters }

def wrapperProperty (p : Property) (name : String) (relaxed forced : Bool) :
    Generation WrapperProperty := do
  let type ← scriptType p
  let marshaller ← marshaller p p.label
  return {
    native := p.label
    name, type, marshaller
    isProtected := p.has .protectedAccess && !relaxed
    isSettable := forced || !p.has .blueprintReadOnly
    isFixedArray := p.isFixedArray
    fields := propertyFields p false }

/-- Type of an array of fixed size; a list that stands for a type takes the marks as items. -/
def fixedArrayType : Name → Except Fault Name
  | .text type => .ok (.text (type ++ "[]"))
  | .list items => .ok (.list (items ++ [.text "[", .text "]"]))
  | _ => .error .wrongType

def mirrorField (p : Property) (name : String) (relaxed : Bool) : Generation MirrorField := do
  let type ← typeName p
  let type ← Action.ofExcept (if p.isFixedArray then fixedArrayType type else .ok type)
  return {
    name
    type := type.plain
    isProtected := p.has .protectedAccess && !relaxed }

end ScriptGlue.Session
