import ScriptGlue.Marshalling.Support
import ScriptGlue.Session.State

/-! # Gates

Which types and members a session exports. A gate asks the policy first, then the flags, then
whether the kind supports the role and the reference it needs; only a refusal for the last reason is
counted. The properties that pass are remembered per type, so each refusal is counted once.
-/

namespace ScriptGlue.Session

def occursIn (pattern : List Char) : List Char → Bool
  | [] => pattern.isEmpty
  | c :: rest => pattern.isPrefixOf (c :: rest) || occursIn pattern rest

def scratchMarks : List String := ["TRASH_", "REINST_"]

def hasScratchName (name : String) : Bool :=
  scratchMarks.any fun mark => occursIn mark.toList name.toList

def hasScratchFlags (t : TypeNode) : Bool :=
  t.has .transientPackage || t.has .defaultObject ||
    (t.has .transient && t.has .compiledFromBlueprint) || t.has .newerVersionExists

/-- Passed over whatever asks for it; the name is looked at only if the flags do not decide. -/
def shouldSkip (t : TypeNode) : Except Fault Bool :=
  if hasScratchFlags t then .ok true
  else
    match t.name with
    | .text name => .ok (hasScratchName name)
    | _ => .error .wrongType

def canDerive (s : Session) (id : TypeId) : Bool :=
  let t := s.store.type id
  (ancestors s.store id).any (fun a => (s.store.type a).name.same subsystemClass) ||
    (!(t.has .deprecated || t.has .newerVersionExists || t.has .generatedByBlueprint) &&
      (t.has .blueprintable || s.policy.whitelist.hasType .classes t.name ||
        isChildOf s.store id functionLibraryClass))

def shouldExportClass (s : Session) (id : TypeId) : Bool :=
  s.policy.allowsClass (s.store.type id).name && s.canDerive id

def shouldExportStruct (s : Session) (id : TypeId) : Bool :=
  let t := s.store.type id
  s.policy.allowsStruct t.name &&
    (t.has .blueprintType || s.policy.whitelist.hasType .structs t.name)

def shouldExportEnum (s : Session) (id : TypeId) : Bool :=
  s.policy.allowsEnum (s.store.type id).name

/-- Visible to scripts, and a single value unless its kind can live in a fixed-size array. -/
def isVisible (p : Property) : Bool :=
  p.has .blueprintVisible && !p.has .deprecated && (p.arrayDim = 1 || p.kind.supports .fixedArray)

/-- What the property gate says: not asked for, refused for its kind or reference, or passed. -/
inductive Verdict where
  | hidden
  | refused
  | passed
  deriving DecidableEq, Repr

def propertyRole (owner : TypeNode) : Role := if owner.isClass then .property else .structProperty

def isSupported (s : Session) (owner : TypeNode) (p : Property) : Bool :=
  p.kind.supports (propertyRole owner) && !(p.isFixedArray && !p.kind.supports .fixedArray) &&
    p.isHandled s.policy s.store

def propertyVerdict (s : Session) (owner : TypeNode) (p : Property) : Verdict :=
  if !s.policy.allowsProperty owner.name p.name then .hidden
  else if !(isVisible p || s.policy.forcesProperty owner.name p.name) then .hidden
  else if s.isSupported owner p then .passed
  else .refused

def canExportProperty (owner : TypeNode) (p : Property) : Generation Bool := do
  if !p.name.isKey then throw .wrongType
  match (← get).propertyVerdict owner p with
  | .hidden => return false
  | .passed => return true
  | .refused =>
    reject .properties p.kind
    return false

def gateProperties (owner : TypeNode) : List Property → Generation (List Property)
  | [] => return []
  | p :: rest => do
    let passed ← canExportProperty owner p
    let others ← gateProperties owner rest
    return if passed then p :: others else others

def exportedProperties (id : TypeId) : Generation (List Property) := do
  let s ← get
  match s.acceptedProperties.lookup id with
  | some known => return known
  | none =>
    let t := s.store.type id
    match t.properties? with
    | none => throw .missingPart
    | some properties =>
      let passed ← gateProperties t properties
      modify fun s => { s with acceptedProperties := (id, passed) :: s.acceptedProperties }
      return passed

def canPassAs (s : Session) (p : Property) (role : Role) : Bool :=
  p.arrayDim = 1 && p.kind.supports role && p.isHandled s.policy s.store

def parameterRole (overridable : Bool) (p : Property) : Role × Category :=
  match overridable, p.isReturn with
  | true, true => (.overridableReturnValue, .overridableReturnValues)
  | true, false => (.overridableParameter, .overridableParameters)
  | false, true => (.returnValue, .returnValues)
  | false, false => (.parameter, .parameters)

/-- Every parameter passes; the first that does not is counted. -/
def canExportParameters (overridable : Bool) : List Property → Generation Bool
  | [] => return true
  | p :: rest => do
    let (role, category) := parameterRole overridable p
    if (← get).canPassAs p role then canExportParameters overridable rest
    else
      reject category p.kind
      return false

def isCallable (f : Function) : Bool := f.has .blueprintCallable || f.has .blueprintEvent

def isInternal (f : Function) : Bool :=
  f.metadata.has "Latent" || f.metadata.has "BlueprintInternalUseOnly"

def admitsFunction (policy : Policy) (owner : Name) (f : Function) : Bool :=
  policy.allowsFunction owner f.name f.category && isCallable f &&
    (!isInternal f || policy.allowsInternalFunction owner f.name)

def canExportFunction (owner : TypeNode) (f : Function) : Generation Bool := do
  let s ← get
  if !s.policy.canAskFunction owner.name f.name f.category then throw .wrongType
  if admitsFunction s.policy owner.name f then
    canExportParameters (f.has .blueprintEvent) f.params
  else return false

def gateFunctions (owner : TypeNode) : List Function → Generation (List Function × List Function)
  | [] => return ([], [])
  | f :: rest => do
    let passed ← canExportFunction owner f
    let (functions, events) ← gateFunctions owner rest
    return (
      if !passed then (functions, events)
      else if f.has .blueprintEvent then (functions, f :: events)
      else (f :: functions, events))

def addEvents (interface : TypeNode) : List Function → List Function → Generation (List Function)
  | events, [] => return events
  | events, f :: rest =>
    if !f.has .blueprintEvent || events.any (fun e => e.name.same f.name) then
      addEvents interface events rest
    else do
      let passed ← canExportFunction interface f
      addEvents interface (if passed then events ++ [f] else events) rest

def addInterfaceEvents (store : TypeStore) :
    List Function → List TypeId → Generation (List Function)
  | events, [] => return events
  | events, id :: rest => do
    let t := store.type id
    let events ← addEvents t events t.functions
    addInterfaceEvents store events rest

def implementedInterfaces (store : TypeStore) (t : TypeNode) : List TypeId :=
  t.interfaces.filter fun id => !(store.type id).has .cannotImplementInterface

def exportedFunctions (t : TypeNode) : Generation (List Function × List Function) := do
  let (functions, own) ← gateFunctions t t.functions
  let store := (← get).store
  let events ← addInterfaceEvents store own (implementedInterfaces store t)
  return (functions, events)

/-- Single values of the property have the native layout, given the answer for structs. -/
def isValueBlittable (struct : Option TypeId → Generation Bool) (p : Property) : Generation Bool :=
  match p.kind with
  | .enum => return true
  | .name => return true
  | .struct => struct p.ref
  | kind => return kind.numeric?.isSome

def isPropertyBlittable (struct : Option TypeId → Generation Bool) (p : Property) :
    Generation Bool :=
  if p.arrayDim = 1 then isValueBlittable struct p else return false

/-- A struct has the native layout iff all its exported properties have. While that is being found
out the struct counts as not having it, so that one that contains itself has not. -/
def structBlittableWithin : Nat → Option TypeId → Generation Bool
  | 0, _ => throw .tooDeep
  | fuel + 1, ref => do
    match (← get).blittable.lookup ref with
    | some known => return known
    | none =>
      modify fun s => { s with blittable := (ref, false) :: s.blittable }
      let properties ←
        match ref with
        | some id => exportedProperties id
        | none => throw .missingPart
      let result ← properties.allM (isPropertyBlittable (structBlittableWithin fuel))
      modify fun s => { s with blittable := (ref, result) :: s.blittable }
      return result

def isStructBlittable (ref : Option TypeId) : Generation Bool := do
  structBlittableWithin ((← get).store.size + 2) ref

end ScriptGlue.Session
