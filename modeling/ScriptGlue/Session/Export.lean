import ScriptGlue.Session.Unit

/-! # Exporting types

An export marks the type, exports what it depends on, and stages its unit. A type is marked before
its dependencies are visited, so each is exported at most once however the graph loops, and the
number of types bounds how deep the visits nest.
-/

namespace ScriptGlue.Session

/-- Stages a unit under the directory of a module; a directory that cannot be made drops the
unit. -/
def saveUnit (m : OutputModule) (filename text : String) : Generation Unit :=
  match m.directory with
  | .text directory => do
    if ← onWorkspace (Workspace.ensureDirectory directory) then
      let path := Path.join directory filename
      if ← onWorkspace (Workspace.stage path text) then tell .debug .session ("    " ++ path)
  | _ => throw .wrongType

def saveTypeUnit (t : TypeNode) (code : Code) : Generation Unit := do
  let m ← register t.home
  let extension := (← get).fileExtension
  saveUnit m (t.label ++ ".generated" ++ extension.plain) code.text

def saveExtensions (name : Name) : Generation Unit := do
  let m ← registerByName name
  let s ← get
  let unit ← extensionUnit m (s.extensionsOf name)
  saveUnit m (m.unitName ++ s.fileExtension.plain) unit.code.text

def saveModuleUnits : Generation Unit := do
  (← get).extendedModules.forM saveExtensions

abbrev Visit := Bool → TypeId → Generation Unit

/-- Marks a type as exported; false, and a warning, if it was. -/
def mark (id : TypeId) (t : TypeNode) : Generation Bool := do
  if (← get).exported.contains id then
    tell .warning .session (t.label ++ " has already been exported")
    return false
  modify fun s => { s with exported := id :: s.exported }
  return true

def visitSome (visit : Visit) : Option TypeId → Generation Unit
  | some id => visit true id
  | none => return ()

mutual

def exportDependencies (visit : Visit) : Property → Generation Unit
  | ⟨_, kind, _, _, ref, inner, value, _, _, _⟩ => do
    visitSome visit (if kind = .struct ∨ kind = .enum then ref else none)
    exportElementDependencies visit inner
    exportElementDependencies visit value

def exportElementDependencies (visit : Visit) : Option Property → Generation Unit
  | some p => exportDependencies visit p
  | none => return ()

end

/-- Exports the interfaces of a class; gives the namespaces to import, apart from the own one. -/
def exportInterfaces (visit : Visit) (own : String) :
    List String → List TypeId → Generation (List String)
  | imports, [] => return imports
  | imports, id :: rest => do
    visit true id
    let space ← spaceOf (← typeAt id)
    exportInterfaces visit own
      (if space = own ∨ imports.contains space then imports else imports ++ [space]) rest

def exportInterface (id : TypeId) : Generation Unit := do
  let t ← typeAt id
  if ← mark id t then
    let unit ← interfaceUnit t
    saveTypeUnit t unit.code

def classUnit (visit : Visit) (id : TypeId) (t : TypeNode) : Generation ClassUnit := do
  visitSome visit t.super
  let space ← spaceOf t
  let interfaces := implementedInterfaces (← get).store t
  let imports ← exportInterfaces visit space [] interfaces
  let base ← superClassName t
  let bases ← interfaces.mapM qualifiedName
  let properties ← exportedProperties id
  let (functions, events) ← exportedFunctions t
  properties.forM (exportDependencies visit)
  (functions ++ events).forM fun f => f.params.forM (exportDependencies visit)
  let (construction, shown, called, stubs) ← classMembers id t properties functions events
  return {
    imports, space, construction
    header := {
      kind := "class", name := scriptLabel t, base, interfaces := bases
      isAbstract := t.has .abstract }
    properties := shown
    functions := called
    events := stubs }

def exportClass (visit : Visit) (id : TypeId) : Generation Unit := do
  let t ← typeAt id
  if ← mark id t then
    if !t.isClass then throw .missingPart
    let unit ← classUnit visit id t
    saveTypeUnit t unit.code

def exportStruct (visit : Visit) (id : TypeId) : Generation Unit := do
  let t ← typeAt id
  if ← mark id t then
    let properties ← exportedProperties id
    properties.forM (exportDependencies visit)
    let unit ← structUnit id t properties
    saveTypeUnit t unit.code

def exportEnum (id : TypeId) : Generation Unit := do
  let t ← typeAt id
  if ← mark id t then
    let unit ← enumUnit t
    saveTypeUnit t unit.code

def noteSkipped (t : TypeNode) : Generation Unit := do
  modify fun s => { s with skipped := t.variant :: s.skipped }
  tell .debug .session ("  skipped " ++ t.label)

/-- Exports a type that is neither exported nor passed over, if it is forced or its gate admits
it. -/
def dispatch (visit : Visit) (force : Bool) (id : TypeId) (t : TypeNode) : Generation Unit := do
  match t.body with
  | .plainClass _ | .interface _ =>
    let _ ← register t.home
    let s ← get
    if isInterface s.store id then exportInterface id
    else if force || s.shouldExportClass id then exportClass visit id
  | .struct _ => if force || (← get).shouldExportStruct id then exportStruct visit id
  | .enum _ _ => if force || (← get).shouldExportEnum id then exportEnum id

def visitWithin : Nat → Visit
  | 0, _, _ => throw .tooDeep
  | fuel + 1, force, id => do
    if (← get).exported.contains id then return ()
    let t ← typeAt id
    if ← Action.ofExcept (shouldSkip t) then noteSkipped t
    else dispatch (visitWithin fuel) force id t

/-- Exports a type, if it is forced or its gate admits it, with all it depends on. -/
def visit (force : Bool) (id : TypeId) : Generation Unit := do
  visitWithin ((← get).store.size + 2) force id

/-- A direct export, whatever the gates say. -/
inductive ExportForm where
  | plainClass
  | struct
  | enum
  | interface
  deriving DecidableEq, Repr

def exportAs (form : ExportForm) (id : TypeId) : Generation Unit :=
  match form with
  | .plainClass => exportClass visit id
  | .struct => exportStruct visit id
  | .enum => exportEnum id
  | .interface => exportInterface id

end ScriptGlue.Session
