import ScriptGlue.Graph.Link
import ScriptGlue.Session.Export

/-! # Triggers

The events a session answers: the initial scan of a graph, a module loaded later, and a batch of
types. A batch commits its units together; one that faults drops what it staged.
-/

namespace ScriptGlue.Session

def tellDiagnostics : Generation Unit := do
  let s ← get
  let kinds := PropertyKind.all.mergeSort fun a b => a.label ≤ b.label
  Category.all.forM fun category =>
    kinds.forM fun kind => do
      let n := s.rejectionCount category kind
      if n ≠ 0 then
        tell .debug .session
          ("  unhandled " ++ category.label ++ ": " ++ kind.label ++ " x" ++ toString n)
  [Variant.plainClass, .enum, .interface, .struct].forM fun variant => do
    let n := s.skipped.count variant
    if n ≠ 0 then
      tell .debug .session ("  skipped " ++ variant.label ++ ": " ++ toString n)

def visitRef (force : Bool) : Option TypeId → Generation Unit
  | some id => visit force id
  | none => throw .missingPart

def generate (forced types : List (Option TypeId)) : Generation Unit := do
  forced.forM (visitRef true)
  types.forM (visitRef false)
  saveModuleUnits

/-- A batch: what it stages is committed together, or dropped if it faults. -/
def batch (forced types : List (Option TypeId)) : Generation Unit := do
  try generate forced types
  catch fault =>
    onWorkspace Workspace.discard
    throw fault
  let committed ← onWorkspace Workspace.commit
  tell .info .session ("  " ++ toString committed ++ " files updated")
  tellDiagnostics

def adopt (g : Graph) : Generation Unit := modify fun s => { s with graph := some g }

def readGraph (data : Value) : Generation Graph := do
  let read ← Action.ofExcept (Graph.ofDocument (← get).store data)
  modify fun s => { s with store := read.store }
  return read.graph

/-- Generates the units of a whole graph; the roots of all classes and interfaces are forced. -/
def start (g : Option Graph) : Generation Unit := do
  tell .info .session "=== Generating C# glue:"
  modify fun s => { s with graph := g }
  match g with
  | none => throw .missingPart
  | some g =>
    let store := (← get).store
    let forced := [interfaceClass, objectClass].filterMap (g.find? store)
    batch (forced.map some) (g.members.map some)

def merge (data : Value) : Generation (List TypeId) := do
  let g := (← get).graph.getD {}
  adopt g
  let read ← Action.ofExcept (Graph.extend (← get).store g data)
  modify fun s => { s with store := read.store, graph := some read.graph }
  return read.added

def moduleLoaded (data : Value) : Generation (List TypeId) := do
  let added ← merge data
  tell .info .session ("=== Module loaded: " ++ toString added.length ++ " new types")
  batch [] (added.map some)
  return added

end ScriptGlue.Session
