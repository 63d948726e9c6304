import ScriptGlue.Proofs.Action
import ScriptGlue.Session.Trigger

/-! # Generations that take notes

The same generations with a list beside the session in which they note what they are about to do:
the units they hand over to be saved, the types they find marked where they are to be exported, and
visits that nest as deep as their bound allows. The notes change nothing else, so a generation that
takes notes runs as the one that takes none.
-/
namespace ScriptGlue.Session
open ScriptGlue.Action

/-- What is noted of a run. -/
inductive Note where
  /-- The unit of a type is handed over to be saved. -/
  | saved (id : TypeId)
  /-- A type is to be exported that is marked already. -/
  | again (id : TypeId)
  /-- Visits nest as deep as the bound allows. -/
  | bound
  deriving DecidableEq, Repr

abbrev Noted (α : Type) := Action (Session × List Note) α

namespace Noted

def plain {α : Type} (a : Generation α) : Noted α := a.within Prod.fst fun s x => (s, x.2)

def note (n : Note) : Noted Unit := modify fun x => (x.1, n :: x.2)

abbrev Visit := Bool → TypeId → Noted Unit

def mark (id : TypeId) (t : TypeNode) : Noted Bool := do
  let fresh ← plain (Session.mark id t)
  if !fresh then note (.again id)
  return fresh

def saveTypeUnit (id : TypeId) (t : TypeNode) (code : Code) : Noted Unit := do
  note (.saved id)
  plain (Session.saveTypeUnit t code)

def visitSome (visit : Visit) : Option TypeId → Noted Unit
  | some id => visit true id
  | none => return ()

mutual

def exportDependencies (visit : Visit) : Property → Noted Unit
  | ⟨_, kind, _, _, ref, inner, value, _, _, _⟩ => do
    visitSome visit (if kind = .struct ∨ kind = .enum then ref else none)
    exportElementDependencies visit inner
    exportElementDependencies visit value

def exportElementDependencies (visit : Visit) : Option Property → Noted Unit
  | some p => exportDependencies visit p
  | none => return ()

end

def exportInterfaces (visit : Visit) (own : String) :
    List String → List TypeId → Noted (List String)
  | imports, [] => return imports
  | imports, id :: rest => do
    visit true id
    let space ← plain (spaceOf (← plain (typeAt id)))
    exportInterfaces visit own
      (if space = own ∨ imports.contains space then imports else imports ++ [space]) rest

def exportInterface (id : TypeId) : Noted Unit := do
  let t ← plain (typeAt id)
  if ← mark id t then
    let unit ← plain (interfaceUnit t)
    saveTypeUnit id t unit.code

def classUnit (visit : Visit) (id : TypeId) (t : TypeNode) : Noted ClassUnit := do
  visitSome visit t.super
  let space ← plain (spaceOf t)
  let interfaces := implementedInterfaces (← plain get).store t
  let imports ← exportInterfaces visit space [] interfaces
  let base ← plain (superClassName t)
  let bases ← plain (interfaces.mapM qualifiedName)
  let properties ← plain (exportedProperties id)
  let (functions, events) ← plain (exportedFunctions t)
  properties.forM (exportDependencies visit)
  (functions ++ events).forM fun f => f.params.forM (exportDependencies visit)
  let (construction, shown, called, stubs) ←
    plain (classMembers id t properties functions events)
  return {
    imports, space, construction
    header := {
      kind := "class", name := scriptLabel t, base, interfaces := bases
      isAbstract := t.has .abstract }
    properties := shown
    functions := called
    events := stubs }

def exportClass (visit : Visit) (id : TypeId) : Noted Unit := do
  let t ← plain (typeAt id)
  if ← mark id t then
    if !t.isClass then throw .missingPart
    let unit ← classUnit visit id t
    saveTypeUnit id t unit.code

def exportStruct (visit : Visit) (id : TypeId) : Noted Unit := do
  let t ← plain (typeAt id)
  if ← mark id t then
    let properties ← plain (exportedProperties id)
    properties.forM (exportDependencies visit)
    let unit ← plain (structUnit id t properties)
    saveTypeUnit id t unit.code

def exportEnum (id : TypeId) : Noted Unit := do
  let t ← plain (typeAt id)
  if ← mark id t then
    let unit ← plain (enumUnit t)
    saveTypeUnit id t unit.code

def dispatch (visit : Visit) (force : Bool) (id : TypeId) (t : TypeNode) : Noted Unit := do
  match t.body with
  | .plainClass _ | .interface _ =>
    let _ ← plain (register t.home)
    let s ← plain get
    if isInterface s.store id then exportInterface id
    else if force || s.shouldExportClass id then exportClass visit id
  | .struct _ => if force || (← plain get).shouldExportStruct id then exportStruct visit id
  | .enum _ _ => if force || (← plain get).shouldExportEnum id then exportEnum id

def visitWithin : Nat → Visit
  | 0, _, _ => do
    note .bound
    throw .tooDeep
  | fuel + 1, force, id => do
    if (← plain get).exported.contains id then return ()
    let t ← plain (typeAt id)
    if ← Action.ofExcept (shouldSkip t) then plain (noteSkipped t)
    else dispatch (visitWithin fuel) force id t

def visit (force : Bool) (id : TypeId) : Noted Unit := do
  visitWithin ((← plain get).store.size + 2) force id

def visitRef (force : Bool) : Option TypeId → Noted Unit
  | some id => visit force id
  | none => throw .missingPart

def generate (forced types : List (Option TypeId)) : Noted Unit := do
  forced.forM (visitRef true)
  types.forM (visitRef false)
  plain saveModuleUnits

def batch (forced types : List (Option TypeId)) : Noted Unit := do
  try generate forced types
  catch fault =>
    plain (onWorkspace Workspace.discard)
    throw fault
  plain do
    let committed ← onWorkspace Workspace.commit
    tell .info .session ("  " ++ toString committed ++ " files updated")
    tellDiagnostics

def start (g : Option Graph) : Noted Unit := do
  plain (tell .info .session "=== Generating C# glue:")
  plain (modify fun s => { s with graph := g })
  match g with
  | none => throw .missingPart
  | some g =>
    let store := (← plain get).store
    let forced := [interfaceClass, objectClass].filterMap (g.find? store)
    batch (forced.map some) (g.members.map some)

def moduleLoaded (data : Value) : Noted (List TypeId) := do
  let added ← plain (merge data)
  plain (tell .info .session ("=== Module loaded: " ++ toString added.length ++ " new types"))
  batch [] (added.map some)
  return added

/-- With notes or without, the run has the same outcome and leaves the same session. A loose bound
may be another one, as long as visits do not nest as deep. -/
def Follows {α : Type} (loose : Prop) (n : Noted α) (a : Generation α) : Prop :=
  ∀ s notes, ∃ r t more, n (s, notes) = (r, (t, more ++ notes)) ∧
    (loose ∧ .bound ∈ more ∨ a s = (r, t))

namespace Follows
variable {loose : Prop} {α β : Type} {n : Noted α} {a : Generation α} {k : α → Noted β}
  {f : α → Generation β}

theorem plain (a : Generation α) : Follows loose (plain a) a :=
  fun s _ => ⟨(a s).1, (a s).2, [], rfl, .inr rfl⟩

theorem pure (x : α) : Follows loose (Pure.pure x) (Pure.pure x) :=
  fun s _ => ⟨.ok x, s, [], rfl, .inr rfl⟩

theorem throw (e : Fault) : Follows loose (MonadExcept.throw e : Noted α) (MonadExcept.throw e) :=
  fun s _ => ⟨.error e, s, [], rfl, .inr rfl⟩

theorem ofExcept (r : Except Fault α) : Follows loose (Action.ofExcept r) (Action.ofExcept r) :=
  fun s _ => ⟨r, s, [], rfl, .inr rfl⟩

theorem bind (h : Follows loose n a) (g : ∀ x, Follows loose (k x) (f x)) :
    Follows loose (n >>= k) (a >>= f) := by
  intro s notes
  obtain ⟨e | x, t, more, run, same⟩ := h s notes
  · exact ⟨.error e, t, more, bind_of_error run _, same.imp_right fun same => bind_of_error same _⟩
  · obtain ⟨r, u, later, run', same'⟩ := g x t (more ++ notes)
    refine ⟨r, u, later ++ more, ?_, ?_⟩
    · rw [bind_of_ok run, run', List.append_assoc]
    · obtain ⟨may, reached⟩ | same := same
      · exact .inl ⟨may, List.mem_append_right _ reached⟩
      · rw [bind_of_ok same]
        exact same'.imp_left fun ⟨may, reached⟩ => ⟨may, List.mem_append_left _ reached⟩

theorem note {n : Noted α} (e : Note) (h : Follows loose n a) :
    Follows loose (Noted.note e >>= fun _ => n) a := by
  intro s notes
  obtain ⟨r, t, more, run, same⟩ := h s (e :: notes)
  refine ⟨r, t, more ++ [e], ?_, same.imp_left fun ⟨may, reached⟩ =>
    ⟨may, List.mem_append_left _ reached⟩⟩
  rw [List.append_assoc]
  exact run

theorem ite {c : Prop} [Decidable c] {n' : Noted α} {a' : Generation α} (h : Follows loose n a)
    (h' : Follows loose n' a') : Follows loose (if c then n else n') (if c then a else a') := by
  split
  · exact h
  · exact h'

theorem forM {g : α → Noted PUnit} {f : α → Generation PUnit}
    (h : ∀ x, Follows loose (g x) (f x)) (xs : List α) :
    Follows loose (xs.forM g) (xs.forM f) := by
  induction xs with
  | nil => exact pure _
  | cons x xs ih => exact (h x).bind fun _ => ih

theorem tryCatch {handle : Fault → Noted α} {handle' : Fault → Generation α} (h : Follows loose n a)
    (g : ∀ e, Follows loose (handle e) (handle' e)) :
    Follows loose (MonadExcept.tryCatch n handle) (MonadExcept.tryCatch a handle') := by
  intro s notes
  obtain ⟨e | x, t, more, run, same⟩ := h s notes
  · obtain ⟨r, u, later, run', same'⟩ := g e t (more ++ notes)
    refine ⟨r, u, later ++ more, ?_, ?_⟩
    · rw [tryCatch_apply, run, List.append_assoc]
      exact run'
    · obtain ⟨may, reached⟩ | same := same
      · exact .inl ⟨may, List.mem_append_right _ reached⟩
      · rw [tryCatch_apply, same]
        exact same'.imp_left fun ⟨may, reached⟩ => ⟨may, List.mem_append_left _ reached⟩
  · refine ⟨.ok x, t, more, ?_, same.imp_right fun same => ?_⟩
    · rw [tryCatch_apply, run]
    · rw [tryCatch_apply, same]

theorem meets {I : Session → Prop} {J : Fault → Session → Prop} {good : α → Prop}
    (h : Follows False n a) (meets : Meets (fun x => I x.1) (fun e x => J e x.1) n good) :
    Meets I J a good where
  result {s t x} hs run := by
    obtain ⟨r, u, more, noted, no | same⟩ := h s []
    · exact no.1.elim
    · obtain ⟨rfl, rfl⟩ := Prod.mk.inj (run.symm.trans same)
      exact meets.result (s := (s, [])) hs noted
  fault {s t e} hs run := by
    obtain ⟨r, u, more, noted, no | same⟩ := h s []
    · exact no.1.elim
    · obtain ⟨rfl, rfl⟩ := Prod.mk.inj (run.symm.trans same)
      exact meets.fault (s := (s, [])) hs noted

end Follows

variable {loose : Prop}

theorem follows_mark (id : TypeId) (t : TypeNode) : Follows loose (mark id t) (Session.mark id t) := by
  rw [← bind_pure (Session.mark id t)]
  refine (Follows.plain _).bind fun fresh => ?_
  cases fresh with
  | false => exact .note _ (.pure _)
  | true => exact .pure _

theorem follows_save (id : TypeId) (t : TypeNode) (code : Code) :
    Follows loose (saveTypeUnit id t code) (Session.saveTypeUnit t code) := .note _ (.plain _)

theorem follows_marking (id : TypeId) {body : TypeNode → Noted Unit} {body' : TypeNode → Generation Unit}
    (h : ∀ t, Follows loose (body t) (body' t)) :
    Follows loose (do
      let t ← plain (typeAt id)
      if ← mark id t then body t) (do
      let t ← typeAt id
      if ← Session.mark id t then body' t) :=
  (Follows.plain _).bind fun t => (follows_mark id t).bind fun _ => .ite (h t) (.pure _)

theorem follows_interface (id : TypeId) : Follows loose (exportInterface id) (Session.exportInterface id) :=
  follows_marking id fun t => (Follows.plain _).bind fun unit => follows_save id t unit.code

theorem follows_enum (id : TypeId) : Follows loose (exportEnum id) (Session.exportEnum id) :=
  follows_marking id fun t => (Follows.plain _).bind fun unit => follows_save id t unit.code

section
variable {visit : Visit} {visit' : Session.Visit}
  (visits : ∀ force id, Follows loose (visit force id) (visit' force id))
include visits

theorem follows_visitSome (ref : Option TypeId) :
    Follows loose (visitSome visit ref) (Session.visitSome visit' ref) := by
  cases ref with
  | none => exact .pure _
  | some id => exact visits true id

omit visits in
mutual

theorem follows_dependencies
    (visits : ∀ force id, Follows loose (visit force id) (visit' force id)) : ∀ p : Property,
    Follows loose (exportDependencies visit p) (Session.exportDependencies visit' p)
  | ⟨_, kind, _, _, ref, inner, value, _, _, _⟩ => by
    unfold exportDependencies Session.exportDependencies
    exact (follows_visitSome visits _).bind fun _ =>
      (follows_elementDependencies visits inner).bind fun _ =>
        follows_elementDependencies visits value

theorem follows_elementDependencies
    (visits : ∀ force id, Follows loose (visit force id) (visit' force id)) : ∀ p : Option Property,
    Follows loose (exportElementDependencies visit p) (Session.exportElementDependencies visit' p)
  | some p => follows_dependencies visits p
  | none => .pure _

end

theorem follows_interfaces (own : String) (imports : List String) (ids : List TypeId) :
    Follows loose (exportInterfaces visit own imports ids)
      (Session.exportInterfaces visit' own imports ids) := by
  induction ids generalizing imports with
  | nil => exact .pure _
  | cons id rest ih =>
    exact (visits true id).bind fun _ => (Follows.plain _).bind fun _ =>
      (Follows.plain _).bind fun _ => ih _

theorem follows_classUnit (id : TypeId) (t : TypeNode) :
    Follows loose (classUnit visit id t) (Session.classUnit visit' id t) :=
  (follows_visitSome visits _).bind fun _ => (Follows.plain _).bind fun _ =>
    (Follows.plain _).bind fun _ => (follows_interfaces visits _ _ _).bind fun _ =>
      (Follows.plain _).bind fun _ => (Follows.plain _).bind fun _ => (Follows.plain _).bind fun _ =>
        (Follows.plain _).bind fun _ => (Follows.forM (follows_dependencies visits) _).bind fun _ =>
          (Follows.forM (fun _ => .forM (follows_dependencies visits) _) _).bind fun _ =>
            (Follows.plain _).bind fun _ => .pure _

theorem follows_class (id : TypeId) :
    Follows loose (exportClass visit id) (Session.exportClass visit' id) := by
  refine follows_marking id fun t => ?_
  have made : Follows loose (do
      let unit ← classUnit visit id t
      saveTypeUnit id t unit.code) (do
      let unit ← Session.classUnit visit' id t
      Session.saveTypeUnit t unit.code) :=
    (follows_classUnit visits id t).bind fun unit => follows_save id t unit.code
  exact .ite ((Follows.throw _).bind fun _ => made) made

theorem follows_struct (id : TypeId) :
    Follows loose (exportStruct visit id) (Session.exportStruct visit' id) :=
  follows_marking id fun t => (Follows.plain _).bind fun _ =>
    (Follows.forM (follows_dependencies visits) _).bind fun _ => (Follows.plain _).bind fun unit =>
      follows_save id t unit.code

theorem follows_dispatch (force : Bool) (id : TypeId) (t : TypeNode) :
    Follows loose (dispatch visit force id t) (Session.dispatch visit' force id t) := by
  have asClass : Follows loose (do
      let _ ← plain (register t.home)
      let s ← plain get
      if isInterface s.store id then exportInterface id
      else if force || s.shouldExportClass id then exportClass visit id) (do
      let _ ← register t.home
      let s ← get
      if isInterface s.store id then Session.exportInterface id
      else if force || s.shouldExportClass id then Session.exportClass visit' id) :=
    (Follows.plain _).bind fun _ => (Follows.plain _).bind fun _ =>
      .ite (follows_interface id) (.ite (follows_class visits id) (.pure _))
  unfold dispatch Session.dispatch
  cases t.body with
  | plainClass | interface => exact asClass
  | struct => exact (Follows.plain _).bind fun _ => .ite (follows_struct visits id) (.pure _)
  | enum => exact (Follows.plain _).bind fun _ => .ite (follows_enum id) (.pure _)

end

theorem follows_visitWithin {bound fuel : Nat} (enough : bound = fuel ∨ loose ∧ bound ≤ fuel)
    (force : Bool) (id : TypeId) :
    Follows loose (visitWithin bound force id) (Session.visitWithin fuel force id) := by
  induction bound generalizing fuel force id with
  | zero =>
    obtain rfl | ⟨may, -⟩ := enough
    · exact .note _ (.throw _)
    · exact fun s notes => ⟨_, _, [.bound], rfl, .inl ⟨may, List.mem_singleton_self _⟩⟩
  | succ bound ih =>
    have positive : bound + 1 ≤ fuel := enough.elim Nat.le_of_eq And.right
    obtain ⟨fuel, rfl⟩ : ∃ n, fuel = n + 1 := ⟨fuel - 1, by omega⟩
    have enough : bound = fuel ∨ loose ∧ bound ≤ fuel :=
      enough.imp Nat.succ.inj (And.imp_right Nat.le_of_succ_le_succ)
    have entered : Follows loose (do
        let t ← plain (typeAt id)
        if ← Action.ofExcept (shouldSkip t) then plain (noteSkipped t)
        else dispatch (visitWithin bound) force id t) (do
        let t ← typeAt id
        if ← Action.ofExcept (shouldSkip t) then noteSkipped t
        else Session.dispatch (Session.visitWithin fuel) force id t) :=
      (Follows.plain _).bind fun t => (Follows.ofExcept _).bind fun _ =>
        .ite (.plain _) (follows_dispatch (ih enough) force id t)
    exact (Follows.plain _).bind fun _ => .ite (.pure _) entered

theorem follows_visit (force : Bool) (id : TypeId) :
    Follows loose (visit force id) (Session.visit force id) :=
  (Follows.plain _).bind fun _ => follows_visitWithin (.inl rfl) force id

theorem follows_visitRef (force : Bool) (ref : Option TypeId) :
    Follows loose (visitRef force ref) (Session.visitRef force ref) := by
  cases ref with
  | none => exact .throw _
  | some id => exact follows_visit force id

theorem follows_generate (forced types : List (Option TypeId)) :
    Follows loose (generate forced types) (Session.generate forced types) :=
  (Follows.forM (follows_visitRef true) _).bind fun _ =>
    (Follows.forM (follows_visitRef false) _).bind fun _ => .plain _

theorem follows_batch (forced types : List (Option TypeId)) :
    Follows loose (batch forced types) (Session.batch forced types) :=
  ((follows_generate forced types).tryCatch fun _ => (Follows.plain _).bind fun _ => .throw _).bind
    fun _ => .plain _

theorem follows_start (g : Option Graph) : Follows loose (start g) (Session.start g) := by
  refine (Follows.plain _).bind fun _ => (Follows.plain _).bind fun _ => ?_
  cases g with
  | none => exact .throw _
  | some g => exact (Follows.plain _).bind fun _ => follows_batch _ _

theorem follows_moduleLoaded (data : Value) :
    Follows loose (moduleLoaded data) (Session.moduleLoaded data) :=
  (Follows.plain _).bind fun _ => (Follows.plain _).bind fun _ =>
    (follows_batch _ _).bind fun _ => .pure _

end Noted

end ScriptGlue.Session
