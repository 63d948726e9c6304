import ScriptGlue.Proofs.Code.Ascii
import ScriptGlue.Proofs.Session.Batch

/-! # Generations by the way they stage

A generation is written here for any way to stage the code of a unit; with the way of the program
it is the program's (`Stager.generate_staged`). Code of ASCII may be staged without a look at its
characters (`Stager.direct_eq`), so a generation is one that decodes nothing of such code
(`generate_eq_direct`). Runs on given documents are evaluated in that form.
-/

namespace ScriptGlue.Session

abbrev Stager := String → Code → Action Workspace Bool

namespace Stager

def staged : Stager := fun path code => Workspace.stage path code.text

def stageCharacters (path characters : String) : Action Workspace Bool := do
  let held ← Workspace.held path
  if held = some characters then return false
  Workspace.onTree fun t => t.write (Workspace.stagedPath path) (.text characters)
  modify (Workspace.remember path)
  Workspace.tell .debug .staging ("    staged " ++ path)
  return true

def direct : Stager := fun path code =>
  if code.isAscii then stageCharacters path code.text else Workspace.stage path code.text

theorem direct_eq : direct = staged := by
  funext path code
  unfold direct
  split
  · next ascii =>
    rw [staged, Workspace.stage, Text.characters?_of_ascii (Code.isAscii_text ascii)]
    rfl
  · rfl

variable (stage : Stager)

def saveUnit (m : OutputModule) (filename : String) (code : Code) : Generation Unit :=
  match m.directory with
  | .text directory => do
    if ← onWorkspace (Workspace.ensureDirectory directory) then
      let path := Path.join directory filename
      if ← onWorkspace (stage path code) then tell .debug .session ("    " ++ path)
  | _ => throw .wrongType

def exportMade (make : TypeNode → Generation Code) (id : TypeId) : Generation Unit := do
  let t ← typeAt id
  if ← mark id t then
    let code ← make t
    let m ← register t.home
    stage.saveUnit m (t.label ++ ".generated" ++ (← get).fileExtension.plain) code

def exportInterface (id : TypeId) : Generation Unit :=
  stage.exportMade (fun t => return (← interfaceUnit t).code) id

def exportClass (visit : Visit) (id : TypeId) : Generation Unit :=
  stage.exportMade (fun t => do
    if !t.isClass then throw .missingPart
    return (← classUnit visit id t).code) id

def exportStruct (visit : Visit) (id : TypeId) : Generation Unit :=
  stage.exportMade (fun t => do
    let properties ← exportedProperties id
    properties.forM (exportDependencies visit)
    return (← structUnit id t properties).code) id

def exportEnum (id : TypeId) : Generation Unit :=
  stage.exportMade (fun t => return (← enumUnit t).code) id

def dispatch (visit : Visit) (force : Bool) (id : TypeId) (t : TypeNode) : Generation Unit := do
  match t.body with
  | .plainClass _ | .interface _ =>
    let _ ← register t.home
    let s ← get
    if isInterface s.store id then stage.exportInterface id
    else if force || s.shouldExportClass id then stage.exportClass visit id
  | .struct _ => if force || (← get).shouldExportStruct id then stage.exportStruct visit id
  | .enum _ _ => if force || (← get).shouldExportEnum id then stage.exportEnum id

def visitWithin : Nat → Visit
  | 0, _, _ => throw .tooDeep
  | fuel + 1, force, id => do
    if (← get).exported.contains id then return ()
    let t ← typeAt id
    if ← Action.ofExcept (shouldSkip t) then noteSkipped t
    else stage.dispatch (visitWithin fuel) force id t

def visitRef (force : Bool) : Option TypeId → Generation Unit
  | some id => do stage.visitWithin ((← get).store.size + 2) force id
  | none => throw .missingPart

def saveExtensions (name : Name) : Generation Unit := do
  let m ← registerByName name
  let s ← get
  let unit ← extensionUnit m (s.extensionsOf name)
  stage.saveUnit m (m.unitName ++ s.fileExtension.plain) unit.code

def generate (forced types : List (Option TypeId)) : Generation Unit := do
  forced.forM (stage.visitRef true)
  types.forM (stage.visitRef false)
  (← get).extendedModules.forM stage.saveExtensions

/-- Tells the refusals and the types passed over, and these only where nothing was refused. -/
def tellNoted : Generation Unit := do
  let s ← get
  if s.rejections.isEmpty then
    [Variant.plainClass, .enum, .interface, .struct].forM fun variant => do
      let n := s.skipped.count variant
      if n ≠ 0 then
        tell .debug .session ("  skipped " ++ variant.label ++ ": " ++ toString n)
  else tellDiagnostics

def batch (forced types : List (Option TypeId)) : Generation Unit := do
  try stage.generate forced types
  catch fault =>
    onWorkspace Workspace.discard
    throw fault
  let committed ← onWorkspace Workspace.commit
  tell .info .session ("  " ++ toString committed ++ " files updated")
  tellNoted

def start (g : Option Graph) : Generation Unit := do
  tell .info .session "=== Generating C# glue:"
  modify fun s => { s with graph := g }
  match g with
  | none => throw .missingPart
  | some g =>
    let store := (← get).store
    let forced := [interfaceClass, objectClass].filterMap (g.find? store)
    stage.batch (forced.map some) (g.members.map some)

def moduleLoaded (data : Value) : Generation (List TypeId) := do
  let added ← merge data
  tell .info .session ("=== Module loaded: " ++ toString added.length ++ " new types")
  stage.batch [] (added.map some)
  return added

theorem exportMade_staged (make : TypeNode → Generation Code) (id : TypeId) :
    staged.exportMade make id = (do
      let t ← typeAt id
      if ← mark id t then saveTypeUnit t (← make t)) := rfl

theorem dispatch_staged (visit : Visit) (force : Bool) (id : TypeId) (t : TypeNode) :
    staged.dispatch visit force id t = Session.dispatch visit force id t := by
  have interface : staged.exportInterface id = Session.exportInterface id := by
    simp [exportInterface, Session.exportInterface, exportMade_staged]
  have plainClass : staged.exportClass visit id = Session.exportClass visit id := by
    simp only [exportClass, Session.exportClass, exportMade_staged]
    refine bind_congr fun t => bind_congr fun fresh => ?_
    by_cases isClass : t.isClass <;> simp [isClass]
  have struct : staged.exportStruct visit id = Session.exportStruct visit id := by
    simp [exportStruct, Session.exportStruct, exportMade_staged]
  have enum : staged.exportEnum id = Session.exportEnum id := by
    simp [exportEnum, Session.exportEnum, exportMade_staged]
  cases body : t.body <;>
    simp only [dispatch, Session.dispatch, body, interface, plainClass, struct, enum]

theorem visitWithin_staged (fuel : Nat) : staged.visitWithin fuel = Session.visitWithin fuel := by
  induction fuel with
  | zero => rfl
  | succ fuel ih =>
    funext force id
    simp only [visitWithin, Session.visitWithin, ih, dispatch_staged]

theorem generate_staged : staged.generate = Session.generate := by
  have visits : staged.visitRef = Session.visitRef := by
    funext force ref
    cases ref with
    | none => rfl
    | some id => exact bind_congr fun s => by rw [visitWithin_staged]
  unfold generate Session.generate
  rw [visits]
  rfl

theorem forM_of_nothing {α : Type} {f : α → Generation Unit} {s : Session} {l : List α}
    (h : ∀ a ∈ l, f a s = (.ok (), s)) : l.forM f s = (.ok (), s) := by
  induction l with
  | nil => rfl
  | cons a l ih =>
    rw [Action.forM_cons]
    exact (Action.bind_of_ok (h a List.mem_cons_self) _).trans
      (ih fun b hb => h b (List.mem_cons_of_mem _ hb))

theorem tellNoted_eq : tellNoted = tellDiagnostics := by
  funext s
  rw [tellNoted, Action.bind_of_ok (Action.get_apply s)]
  split
  · next refused =>
    symm
    refine Action.bind_of_ok (forM_of_nothing fun category _ => forM_of_nothing fun kind _ => ?_) _
    simp [rejectionCount, List.isEmpty_iff.1 refused]
  · rfl

end Stager

theorem generate_eq_direct : generate = Stager.direct.generate := by
  rw [Stager.direct_eq, Stager.generate_staged]

theorem batch_eq_direct : batch = Stager.direct.batch := by
  funext forced types
  unfold batch Stager.batch
  rw [generate_eq_direct, Stager.tellNoted_eq]

theorem start_eq_direct : start = Stager.direct.start := by
  funext g
  unfold start Stager.start
  exact batch_eq_direct ▸ rfl

theorem moduleLoaded_eq_direct : moduleLoaded = Stager.direct.moduleLoaded := by
  funext data
  unfold moduleLoaded Stager.moduleLoaded
  rw [batch_eq_direct]

end ScriptGlue.Session
