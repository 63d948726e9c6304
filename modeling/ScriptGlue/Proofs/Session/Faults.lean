import ScriptGlue.Proofs.Session.Steady
import ScriptGlue.Session.Trigger

/-! # Generations that may fault

A generation makes the parts of units, marks types, notes those it passes over, collects extension
methods, and saves. An invariant that these changes keep is kept by the whole generation, however
far it comes before a fault. The module of a type is registered before the first of its extension
methods is collected, so an invariant may count on that.
-/
namespace ScriptGlue.Session
open ScriptGlue.Action

/-- An invariant that the makers of the members of a type keep, who also collect its extension
methods. -/
structure Collecting (H : NativeModule → Prop) (id : TypeId) (I J : Session → Prop) : Prop
    extends Steady H I J where
  extended : ∀ s e, e.library = id → I s → I { s with extensions := s.extensions ++ [e] }

namespace Collecting
variable {H : NativeModule → Prop} {id : TypeId} {I J : Session → Prop} (h : Collecting H id I J)
include h

theorem addExtension (f : Function) : Keeps I J (addExtension id f) := by
  refine Keeps.bind (Keeps.get.bind fun _ => .pure _) fun t => ?_
  split
  · exact .pure _
  · exact (Keeps.modify fun s hs => h.extended s _ rfl hs).bind fun _ => h.tell _ _ _

theorem wrappers (owner : Name) (isLibrary : Bool) (fs : List Function) :
    Keeps I J (wrappers id owner isLibrary fs) := by
  induction fs with
  | nil => exact .pure _
  | cons f rest ih =>
    have others (shown : Wrapper) : Keeps I J (do
        let others ← Session.wrappers id owner isLibrary rest
        return shown :: others) := ih.bind fun _ => .pure _
    refine (h.wrapper f owner).bind fun shown => .ite ?_ ?_
    · exact (h.addExtension f).bind fun _ => others shown
    · exact others shown

theorem classMembers (t : TypeNode) (ps : List Property) (functions events : List Function) :
    Keeps I J (classMembers id t ps functions events) :=
  (Keeps.forM fun _ _ => (Keeps.ofExcept h.faulted _).bind fun _ => .pure _).bind fun _ =>
    (h.wrapperProperties _ _ _).bind fun _ => Keeps.get.bind fun _ => (h.wrappers _ _ _).bind fun _ =>
      (Keeps.mapM fun f _ => h.eventStub f _).bind fun _ => .pure _

end Collecting

/-- An invariant that the makers of units keep whatever modules are registered, and the saves of
units. -/
structure Saving (I J : Session → Prop) : Prop extends Steady (fun _ => True) I J where
  saved : ∀ m filename text, Keeps I J (saveUnit m filename text)

theorem keeps_saveUnit {I J : Session → Prop} (faulted : ∀ s, I s → J s)
    (files : ∀ s w, I s → I { s with workspace := w }) (m : OutputModule) (filename text : String) :
    Keeps I J (saveUnit m filename text) := by
  unfold saveUnit
  split
  · have onFiles {α : Type} (a : Action Workspace α) : Keeps I J (onWorkspace a) :=
      ⟨fun hs he => (Prod.mk.inj he).2 ▸ files _ _ hs,
        fun hs he => (Prod.mk.inj he).2 ▸ faulted _ (files _ _ hs)⟩
    exact (onFiles _).bind fun _ => .ite ((onFiles _).bind fun _ => .ite (onFiles _) (.pure _)) (.pure _)
  · exact .throw faulted _

namespace Saving
variable {I J : Session → Prop} (h : Saving I J)
include h

theorem saveTypeUnit (t : TypeNode) (code : Code) : Keeps I J (saveTypeUnit t code) :=
  (h.register trivial).bind fun _ => Keeps.get.bind fun _ => h.saved _ _ _

theorem saveExtensions (name : Name) : Keeps I J (saveExtensions name) :=
  (h.registerByName fun _ _ => .inr trivial).bind fun _ => Keeps.get.bind fun _ =>
    (h.extensionUnit _ _).bind fun _ => h.saved _ _ _

theorem saveModuleUnits : Keeps I J saveModuleUnits :=
  Keeps.get.bind fun _ => .forM fun name _ => h.saveExtensions name

end Saving

/-- An invariant that every step of a generation keeps. `H` holds of the modules that are registered,
and `E id` of the sessions in which the extension methods of a type are collected. -/
structure Sustained (H : NativeModule → Prop) (E : TypeId → Session → Prop) (I J : Session → Prop) :
    Prop extends Steady H I J where
  marked : ∀ s id, I s → I { s with exported := id :: s.exported }
  passedOver : ∀ s v, I s → I { s with skipped := v :: s.skipped }
  typeUnit : ∀ s id code, I s → Keeps I J (saveTypeUnit (s.store.type id) code)
  moduleUnits : Keeps I J saveModuleUnits
  entered : ∀ s id, I s → ∀ {t x u}, I t → spaceOf (s.store.type id) t = (.ok x, u) → E id u
  stays : ∀ id fuel force d, Keeps (E id) (E id) (visitWithin fuel force d)
  collecting : ∀ id, Collecting H id (fun s => I s ∧ E id s) J

namespace Sustained
variable {H : NativeModule → Prop} {E : TypeId → Session → Prop} {I J : Session → Prop}
  (h : Sustained H E I J)
include h

theorem mark (id : TypeId) (t : TypeNode) : Keeps I J (mark id t) := by
  have marking : Keeps I J (do
      modify fun s : Session => { s with exported := id :: s.exported }
      return true) := (Keeps.modify fun s hs => h.marked s id hs).bind fun _ => .pure _
  exact Keeps.get.bind fun _ => .ite ((h.tell _ _ _).bind fun _ => .pure _) marking

theorem marking (id : TypeId) {body : TypeNode → Generation Unit}
    (hbody : ∀ s, I s → H (s.store.type id).home → Keeps I J (body (s.store.type id))) :
    Keeps I J (do
      let t ← Session.typeAt id
      if ← Session.mark id t then body t) :=
  h.typeAt_bind fun s hs housed => (h.mark id _).bind fun _ => .ite (hbody s hs housed) (.pure _)

theorem exportInterface (id : TypeId) : Keeps I J (exportInterface id) :=
  h.marking id fun s hs housed => (h.interfaceUnit housed).bind fun _ => h.typeUnit s id _ hs

theorem exportEnum (id : TypeId) : Keeps I J (exportEnum id) :=
  h.marking id fun s hs housed => (h.enumUnit housed).bind fun _ => h.typeUnit s id _ hs

section
variable {visit : Visit} (visits : ∀ force id, Keeps I J (visit force id))
include visits

theorem exportStruct (id : TypeId) : Keeps I J (exportStruct visit id) :=
  h.marking id fun s hs housed => (h.exportedProperties id).bind fun _ =>
    (Keeps.forM fun p _ => keeps_exportDependencies visits p).bind fun _ =>
      (h.structUnit id housed _).bind fun _ => h.typeUnit s id _ hs

variable (stays : ∀ id force d, Keeps (E id) (E id) (visit force d))
include stays

/-- From the registration of its module on a class may collect extension methods. -/
theorem classUnit (id : TypeId) {t : TypeNode} (ht : H t.home)
    (entered : ∀ {s x u}, I s → Session.spaceOf t s = (.ok x, u) → E id u) :
    Keeps I J (classUnit visit id t) := by
  have members := h.collecting id
  have visits' (force : Bool) (d : TypeId) : Keeps (fun s => I s ∧ E id s) J (visit force d) :=
    (visits force d).and (stays id force d)
  refine (keeps_visitSome visits _).bind fun _ =>
    (h.spaceOf ht).bind_gain (P := fun _ => E id) entered fun _ => ?_
  exact Keeps.get.bind fun _ => (members.exportInterfaces visits' _ _ _).bind fun _ =>
    (members.superClassName t).bind fun _ => (Keeps.mapM fun d _ => members.qualifiedName d).bind fun _ =>
      (members.exportedProperties id).bind fun _ => (members.exportedFunctions t).bind fun _ =>
        (Keeps.forM fun p _ => keeps_exportDependencies visits' p).bind fun _ =>
          (Keeps.forM fun _ _ => .forM fun p _ => keeps_exportDependencies visits' p).bind fun _ =>
            (members.classMembers _ _ _ _).bind fun _ => .pure _

theorem exportClass (id : TypeId) : Keeps I J (exportClass visit id) := by
  refine h.marking id fun s hs housed => ?_
  have made : Keeps I J (do
      let unit ← Session.classUnit visit id (s.store.type id)
      Session.saveTypeUnit (s.store.type id) unit.code) :=
    (h.classUnit visits stays id housed (h.entered s id hs)).bind fun _ => h.typeUnit s id _ hs
  exact .ite ((Keeps.throw h.faulted _).bind fun _ => made) made

theorem dispatch (force : Bool) (id : TypeId) {t : TypeNode} (ht : H t.home) :
    Keeps I J (dispatch visit force id t) := by
  have asClass : Keeps I J (do
      let _ ← Session.register t.home
      let s ← get
      if isInterface s.store id then Session.exportInterface id
      else if force || s.shouldExportClass id then Session.exportClass visit id) :=
    (h.register ht).bind fun _ => Keeps.get.bind fun _ =>
      .ite (h.exportInterface id) (.ite (h.exportClass visits stays id) (.pure _))
  unfold Session.dispatch
  split
  · exact asClass
  · exact asClass
  · exact Keeps.get.bind fun _ => .ite (h.exportStruct visits id) (.pure _)
  · exact Keeps.get.bind fun _ => .ite (h.exportEnum id) (.pure _)

end

theorem visitWithin (fuel : Nat) (force : Bool) (id : TypeId) :
    Keeps I J (visitWithin fuel force id) := by
  induction fuel generalizing force id with
  | zero => exact .throw h.faulted _
  | succ fuel ih =>
    have noted (t : TypeNode) : Keeps I J (noteSkipped t) :=
      (Keeps.modify fun s hs => h.passedOver s _ hs).bind fun _ => h.tell _ _ _
    have entered : Keeps I J (do
        let t ← Session.typeAt id
        if ← Action.ofExcept (shouldSkip t) then noteSkipped t
        else Session.dispatch (Session.visitWithin fuel) force id t) :=
      h.typeAt_bind fun _ _ housed => (Keeps.ofExcept h.faulted _).bind fun _ =>
        .ite (noted _) (h.dispatch ih (fun id => h.stays id fuel) force id housed)
    exact Keeps.get.bind fun _ => .ite (.pure _) entered

theorem visit (force : Bool) (id : TypeId) : Keeps I J (visit force id) :=
  Keeps.get.bind fun _ => h.visitWithin _ force id

theorem visitRef (force : Bool) (ref : Option TypeId) : Keeps I J (visitRef force ref) := by
  cases ref with
  | none => exact .throw h.faulted _
  | some id => exact h.visit force id

theorem exportAs (form : ExportForm) (id : TypeId) : Keeps I J (exportAs form id) := by
  cases form with
  | plainClass =>
    exact h.exportClass h.visit (fun id _ _ => Keeps.get.bind fun _ => h.stays id _ _ _) id
  | struct => exact h.exportStruct h.visit id
  | enum => exact h.exportEnum id
  | interface => exact h.exportInterface id

theorem generate (forced types : List (Option TypeId)) : Keeps I J (generate forced types) :=
  (Keeps.forM fun ref _ => h.visitRef true ref).bind fun _ =>
    (Keeps.forM fun ref _ => h.visitRef false ref).bind fun _ => h.moduleUnits

end Sustained

/-- An invariant that every step of a generation keeps whatever modules are registered. -/
structure Lasting (I J : Session → Prop) : Prop extends Saving I J where
  extended : ∀ s e, I s → I { s with extensions := s.extensions ++ [e] }
  marked : ∀ s id, I s → I { s with exported := id :: s.exported }
  passedOver : ∀ s v, I s → I { s with skipped := v :: s.skipped }

namespace Lasting
variable {I J : Session → Prop} (h : Lasting I J)
include h

omit h in
theorem typeAt (id : TypeId) : Keeps I J (typeAt id) := Keeps.get.bind fun _ => .pure _

theorem collecting (id : TypeId) : Collecting (fun _ => True) id I J where
  toSteady := h.toSteady
  extended s e _ := h.extended s e

theorem sustained : Sustained (fun _ => True) (fun _ _ => True) I J where
  toSteady := h.toSteady
  marked := h.marked
  passedOver := h.passedOver
  typeUnit _ _ code _ := h.saveTypeUnit _ code
  moduleUnits := h.saveModuleUnits
  entered _ _ _ _ _ _ _ _ := trivial
  stays _ _ _ _ := .of_outcome fun _ _ => trivial
  collecting _ :=
    { toSteady := h.toSteady.and
        (inert_of_registry (P := fun _ _ => True) fun _ _ _ _ => trivial).steady
      extended := fun s e _ hs => ⟨h.extended s e hs.1, trivial⟩ }

theorem classUnit {visit : Visit} (visits : ∀ force id, Keeps I J (visit force id)) (id : TypeId)
    (t : TypeNode) : Keeps I J (classUnit visit id t) :=
  h.sustained.classUnit visits (fun _ _ _ => .of_outcome fun _ _ => trivial) id trivial
    fun _ _ => trivial

theorem visitWithin (fuel : Nat) (force : Bool) (id : TypeId) :
    Keeps I J (visitWithin fuel force id) := h.sustained.visitWithin fuel force id

theorem visit (force : Bool) (id : TypeId) : Keeps I J (visit force id) := h.sustained.visit force id

theorem exportAs (form : ExportForm) (id : TypeId) : Keeps I J (exportAs form id) :=
  h.sustained.exportAs form id

theorem generate (forced types : List (Option TypeId)) : Keeps I J (generate forced types) :=
  h.sustained.generate forced types

end Lasting

/-- What is said of the types and the modules registered outlives a generation too. -/
theorem lasting_of_registry {P : TypeStore → Registry → Prop}
    (grown : ∀ σ r m, P σ r → P σ (r ++ [m])) :
    Lasting (fun s => P s.store s.registry) fun s => P s.store s.registry where
  toSteady := (inert_of_registry grown).steady
  saved := keeps_saveUnit (fun _ h => h) fun _ _ h => h
  extended _ _ h := h
  marked _ _ h := h
  passedOver _ _ h := h

end ScriptGlue.Session
