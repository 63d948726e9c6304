import ScriptGlue.Proofs.Session.SpelledUnits
import ScriptGlue.Proofs.Session.Vetted

/-! # Generations that nest

A generation makes a unit for each type that it exports and for each module with extension methods,
and saves its text. Wherever the names of the types stay on their lines, the code of all of these
units nests.
-/
namespace ScriptGlue
open ScriptGlue.Action Text Code

namespace Session

/-- The code of a unit that is made for a type of the store, or of the extension methods of a
module. -/
inductive UnitCode (σ : TypeStore) : Code → Prop
  | ofClass {visit : Visit} {id : TypeId} {s t : Session} {unit : ClassUnit}
      (made : classUnit visit id (σ.type id) s = (.ok unit, t)) : UnitCode σ unit.code
  | ofInterface {id : TypeId} {s t : Session} {unit : InterfaceUnit}
      (made : interfaceUnit (σ.type id) s = (.ok unit, t)) : UnitCode σ unit.code
  | ofStruct {id : TypeId} {ps : List Property} {s t : Session} {unit : StructUnit}
      (made : structUnit id (σ.type id) ps s = (.ok unit, t)) : UnitCode σ unit.code
  | ofEnum {id : TypeId} {s t : Session} {unit : EnumUnit}
      (made : enumUnit (σ.type id) s = (.ok unit, t)) : UnitCode σ unit.code
  | ofExtensions {m : OutputModule} {methods : List ExtensionMethod} {s t : Session}
      {unit : ExtensionUnit} (made : extensionUnit m methods s = (.ok unit, t)) :
      UnitCode σ unit.code

/-- A careful invariant that every step of a generation keeps. Units nest where names are clean. -/
structure Composing (clean exact : Prop) (σ : TypeStore) (I : Session → Prop)
    (J : Fault → Session → Prop) : Prop extends Careful False σ I J where
  spelled : clean → σ.Spelled exact
  world : clean → ∀ s m, I s → s.findModule? worldModule = some m → Inline m.name.plain
  marked : ∀ s id, I s → I { s with exported := id :: s.exported }
  passedOver : ∀ s v, I s → I { s with skipped := v :: s.skipped }
  extended : ∀ s m, MethodFits σ m → OnWorld m → I s →
    I { s with extensions := s.extensions ++ [m] }
  methods : ∀ s, I s → ∀ m ∈ s.extensions, MethodFits σ m ∧ OnWorld m
  saved : ∀ m filename code, UnitCode σ code → (clean → Nested exact code) →
    Tame I J (saveUnit m filename code.text)

namespace Composing
variable {clean exact : Prop} {σ : TypeStore} {I : Session → Prop} {J : Fault → Session → Prop}
  (h : Composing clean exact σ I J)
include h

theorem legible (holds : clean) : Legible exact σ I J :=
  ⟨h.toCareful, h.spelled holds, h.world holds⟩

omit h in
theorem cleanly {α : Type} {a : Generation α} {Q : α → Prop} (tame : Tame I J a)
    (spelled : clean → Meets I J a Q) : Meets I J a fun x => clean → Q x := by
  by_cases holds : clean
  · exact (spelled holds).imp fun _ good _ => good
  · exact tame.imp fun _ _ clean => absurd clean holds

omit h in
theorem saving {α : Type} {a : Generation α} {code : α → Code} {save : Code → Generation Unit}
    (made : Meets I J a fun unit => clean → Nested exact (code unit))
    (unit : ∀ s x t, a s = (.ok x, t) → UnitCode σ (code x))
    (saved : ∀ code, UnitCode σ code → (clean → Nested exact code) → Tame I J (save code)) :
    Tame I J (a >>= fun x => save (code x)) :=
  (made.and (made.ensures unit)).bind fun _ both => saved _ both.2 both.1

theorem saveTypeUnit (id : TypeId) (code : Code) (unit : UnitCode σ code)
    (nested : clean → Nested exact code) : Tame I J (saveTypeUnit (σ.type id) code) :=
  (h.toCareful.register False.elim).bind fun _ _ => .get_bind fun _ _ =>
    h.saved _ _ code unit nested

theorem registerByName {name : Name} (inline : clean → Inline name.plain) :
    Meets I J (registerByName name) fun m => clean → Inline m.label := by
  refine cleanly ((h.toCareful.registerByName False.elim).imp fun _ _ => trivial) fun holds => ?_
  refine ((h.legible holds).given _).bind fun x found => (h.legible holds).register ?_
  unfold Value.named at found
  split at found <;> cases found
  exact inline holds

theorem saveModuleUnits : Tame I J saveModuleUnits := by
  refine .get_bind fun s hs => .forM fun name hname => ?_
  have inline (holds : clean) : Inline name.plain := by
    obtain ⟨m, -, rfl⟩ := List.mem_map.1 (Value.mem_of_mem_distinct hname)
    rw [h.store s hs]
    exact ((h.spelled holds).inline m.library).home
  refine (h.registerByName inline).bind fun m label => .get_bind fun t ht => ?_
  have fits : ∀ x ∈ t.extensionsOf name, MethodFits σ x ∧ OnWorld x := fun x hx =>
    h.methods t ht x (List.mem_of_mem_filter hx)
  exact saving (cleanly (h.toCareful.extensionUnit m fun x hx => (fits x hx).1) fun holds =>
      ((h.legible holds).extensionUnit (label holds) fits).imp fun _ printed => printed.nested)
    (fun _ _ _ made => .ofExtensions made) fun code unit nested => h.saved m _ code unit nested

theorem addExtension {id : TypeId} {f : Function} (declared : f ∈ (σ.type id).functions)
    (good : DeclaredPassable σ f) : Tame I J (addExtension id f) := by
  refine (h.typeAt id).bind fun t _ => ?_
  split
  · exact .pure trivial
  · next receiver resolved =>
    exact (Meets.modify fun s hs => h.extended s _
      ⟨declared, good.passable, Receiver.exists_param_of_resolve resolved⟩
      (onWorld_of_resolve resolved) hs).bind fun _ _ => h.tell _ _ _

theorem wrappers {id : TypeId} {owner : Name} (isLibrary : Bool) {fs : List Function}
    (good : ∀ f ∈ fs, f ∈ (σ.type id).functions ∧ DeclaredPassable σ f) :
    Meets I J (wrappers id owner isLibrary fs) fun shown =>
      clean → ∀ w ∈ shown, w.Printed exact := by
  refine (each_wrapper (Q := fun w => clean → w.Printed exact) (fun f hf => ?_)
    (fun f hf => h.addExtension (good f hf).1 (good f hf).2) isLibrary).imp
      fun _ printed holds w hw => printed w hw holds
  obtain ⟨-, passable⟩ := good f hf
  have tame : Tame I J (wrapper f owner) := h.toCareful.wrapper passable False.elim
  exact cleanly tame fun holds => (h.legible holds).wrapper passable owner

structure MembersPrinted (exact : Prop) (members : Option StaticConstructor × List WrapperProperty ×
    List Wrapper × List EventStub) : Prop where
  construction : ∀ c ∈ members.1, c.Printed exact
  properties : ∀ p ∈ members.2.1, p.Printed
  functions : ∀ w ∈ members.2.2.1, w.Printed exact
  events : ∀ e ∈ members.2.2.2, e.Printed exact

theorem classMembers {id : TypeId} {ps : List Property} {functions events : List Function}
    (passed : PassedOf σ id ps)
    (own : ∀ f ∈ functions, f ∈ (σ.type id).functions ∧ DeclaredPassable σ f)
    (all : ∀ f ∈ events, DeclaredPassable σ f ∧ TakesValues f) :
    Meets I J (classMembers id (σ.type id) ps functions events) fun members =>
      clean → MembersPrinted exact members := by
  have good := h.toCareful.passed_names passed
  have constructed (holds : clean) : ∀ c ∈ staticConstructor (σ.type id) ps functions events,
      c.Printed exact := by
    have legible := h.legible holds
    refine printed_staticConstructor (fun p hp => ?_) (legible.spelled.inline id).label
      fun f hf => ?_
    · obtain ⟨-, names, firm⟩ := legible.spelled_properties passed p hp
      exact ⟨names.label, fun exactly => (firm exactly).flush⟩
    · have spelled := legible.spelled_function ((List.mem_append.1 hf).elim
        (fun hf => (own f hf).2) fun hf => (all f hf).1)
      exact ⟨spelled.names, spelled.flush⟩
  have named : Tame I J (ps.forM fun p => do
      let _ ← Action.ofExcept (propertyName p (scriptName (σ.type id)))) := Meets.forM fun p hp =>
    (h.toCareful.propertyName False.elim (good p hp).2).bind fun _ _ => .pure trivial
  have shown := cleanly (h.toCareful.wrapperProperties (t := σ.type id) False.elim []
      fun p hp => ⟨(good p hp).1.toFits, (good p hp).2⟩) fun holds =>
    (h.legible holds).wrapperProperties (σ.type id) [] fun p hp =>
      ⟨(good p hp).1.toFits, ((h.legible holds).spelled_properties passed p hp).2.1⟩
  have stubs : Meets I J (events.mapM fun f => eventStub f (scriptName (σ.type id))) fun stubs =>
      clean → ∀ e ∈ stubs, e.Printed exact :=
    cleanly ((Meets.mapM fun f hf => h.toCareful.eventStub (all f hf).1 False.elim).imp
      fun _ _ => trivial) fun holds =>
        Meets.mapM fun f hf => (h.legible holds).eventStub (all f hf).1 (all f hf).2 _
  exact named.bind fun _ _ => shown.bind fun _ properties => .get_bind fun _ _ =>
    (h.wrappers _ own).bind fun _ called => stubs.bind fun _ events => .pure fun holds =>
      ⟨constructed holds, properties holds, called holds, events holds⟩

theorem mark (id : TypeId) (t : TypeNode) : Tame I J (mark id t) :=
  .get_bind fun _ _ => .ite (fun _ => (h.tell _ _ _).bind fun _ _ => .pure trivial)
    fun _ => (Meets.modify fun s hs => h.marked s id hs).bind fun _ _ => .pure trivial

theorem marking (id : TypeId) {body : TypeNode → Generation Unit}
    (hbody : Tame I J (body (σ.type id))) : Tame I J (do
      let t ← Session.typeAt id
      if ← Session.mark id t then body t) := by
  refine (h.typeAt id).bind ?_
  rintro t rfl
  exact (h.mark id _).bind fun _ _ => .ite (fun _ => hbody) fun _ => .pure trivial

theorem exportInterface (id : TypeId) : Tame I J (exportInterface id) :=
  h.marking id (saving (cleanly (h.toCareful.interfaceUnit False.elim False.elim False.elim)
    fun holds => ((h.legible holds).interfaceUnit id).imp fun _ printed => printed.nested)
    (fun _ _ _ made => .ofInterface made) (h.saveTypeUnit id))

theorem exportEnum (id : TypeId) : Tame I J (exportEnum id) :=
  h.marking id (saving (cleanly (h.toCareful.enumUnit False.elim False.elim False.elim)
    fun holds => ((h.legible holds).enumUnit id).imp fun _ printed => printed.nested)
    (fun _ _ _ made => .ofEnum made) (h.saveTypeUnit id))

theorem spaceOf (id : TypeId) : Meets I J (spaceOf (σ.type id)) fun space => clean → Inline space :=
  cleanly (h.toCareful.spaceOf False.elim) fun holds =>
    ((h.legible holds).spaceOf id).imp fun _ opens => opens.inline

section
variable {visit : Visit} (visits : ∀ force id, (False → id < σ.size) → Tame I J (visit force id))
include visits

omit h in
theorem dependencies (ps : List Property) : Tame I J (ps.forM (exportDependencies visit)) :=
  .forM fun p _ => tame_exportDependencies visits p False.elim

theorem exportStruct (id : TypeId) : Tame I J (exportStruct visit id) :=
  h.marking id ((h.toCareful.exportedProperties False.elim).bind fun _ passed =>
    (dependencies visits _).bind fun _ _ =>
      saving (cleanly (h.toCareful.structUnit passed) fun holds =>
          ((h.legible holds).structUnit passed).imp fun _ printed => printed.nested)
        (fun _ _ _ made => .ofStruct made) (h.saveTypeUnit id))

theorem exportInterfaces (own : String) {imports : List String} (ids : List TypeId)
    (inline : clean → ∀ space ∈ imports, Inline space) :
    Meets I J (exportInterfaces visit own imports ids) fun imports =>
      clean → ∀ space ∈ imports, Inline space := by
  induction ids generalizing imports with
  | nil => exact .pure inline
  | cons id rest ih =>
    refine (visits true id False.elim).bind fun _ _ => (h.typeAt id).bind ?_
    rintro t rfl
    refine (h.spaceOf id).bind fun space named => ih fun holds => ?_
    split
    · exact inline holds
    · exact List.forall_mem_append.2 ⟨inline holds, List.forall_mem_singleton.2 (named holds)⟩

theorem classUnit (id : TypeId) : Meets I J (classUnit visit id (σ.type id)) fun unit =>
    clean → unit.Printed exact := by
  have base := cleanly (h.toCareful.superClassName (σ.type id)) fun holds =>
    (h.legible holds).superClassName (σ.type id)
  have bases (ids : List TypeId) : Meets I J (ids.mapM qualifiedName) fun names =>
      clean → ∀ name ∈ names, Inline name :=
    cleanly ((Meets.mapM fun d _ => h.toCareful.qualifiedName d).imp fun _ _ => trivial)
      fun holds => Meets.mapM fun d _ =>
        ((h.legible holds).qualifiedName d).imp fun _ opens => opens.inline
  refine (tame_visitSome visits False.elim).bind fun _ _ => (h.spaceOf id).bind fun space inline =>
    .get_bind fun s _ => ?_
  have none : clean → ∀ space ∈ ([] : List String), Inline space :=
    fun _ _ hs => absurd hs List.not_mem_nil
  have imported := h.exportInterfaces visits space
    (implementedInterfaces s.store (σ.type id)) none
  refine imported.bind fun _ imports => base.bind fun _ base => (bases _).bind fun _ bases =>
    (h.toCareful.exportedProperties False.elim).bind fun _ passed =>
      (h.toCareful.splitFunctions id).bind fun split good => ?_
  refine (dependencies visits _).bind fun _ _ =>
    (Meets.forM fun f _ => dependencies visits f.params).bind fun _ _ =>
      (h.classMembers passed good.1 good.2).bind fun _ members => .pure fun holds => ?_
  have printed := members holds
  exact {
    imports := imports holds
    space := inline holds
    header := ⟨(by decide : Inline "class"),
      inline_scriptLabel (((h.legible holds).spelled).inline id).label, base holds, bases holds⟩
    construction := printed.construction
    properties := printed.properties
    functions := printed.functions
    events := printed.events }

theorem exportClass (id : TypeId) : Tame I J (exportClass visit id) := by
  have made : Tame I J (do
      let unit ← Session.classUnit visit id (σ.type id)
      Session.saveTypeUnit (σ.type id) unit.code) :=
    saving ((h.classUnit visits id).imp fun _ printed holds => (printed holds).nested)
      (fun _ _ _ made => .ofClass made) (h.saveTypeUnit id)
  refine h.marking id (.ite (fun _ => ?_) fun _ => made)
  exact Meets.bind (Q := fun _ => True) (.throw fun s hs => h.faulted s _ hs False.elim)
    fun _ _ => made

theorem dispatch (force : Bool) (id : TypeId) : Tame I J (dispatch visit force id (σ.type id)) := by
  have asClass : Tame I J (do
      let _ ← Session.register (σ.type id).home
      let s ← get
      if isInterface s.store id then Session.exportInterface id
      else if force || s.shouldExportClass id then Session.exportClass visit id) :=
    (h.toCareful.register False.elim).bind fun _ _ => .get_bind fun _ _ =>
      .ite (fun _ => h.exportInterface id) fun _ =>
        .ite (fun _ => h.exportClass visits id) fun _ => .pure trivial
  unfold Session.dispatch
  split
  · exact asClass
  · exact asClass
  · exact .get_bind fun _ _ => .ite (fun _ => h.exportStruct visits id) fun _ => .pure trivial
  · exact .get_bind fun _ _ => .ite (fun _ => h.exportEnum id) fun _ => .pure trivial

end

theorem visitWithin (fuel : Nat) (force : Bool) (id : TypeId) :
    Tame I J (visitWithin fuel force id) := by
  induction fuel generalizing force id with
  | zero => exact h.mild rfl
  | succ fuel ih =>
    refine .get_bind fun s _ => .ite (fun _ => .pure trivial) fun _ => (h.typeAt id).bind ?_
    rintro t rfl
    exact Meets.bind (Q := fun _ => True) (h.ofExcept False.elim) fun _ _ =>
      .ite (fun _ => (Meets.modify fun s hs => h.passedOver s _ hs).bind fun _ _ => h.tell _ _ _)
        fun _ => h.dispatch (fun force id _ => ih force id) force id

theorem visit (force : Bool) (id : TypeId) : Tame I J (visit force id) :=
  .get_bind fun _ _ => h.visitWithin _ force id

theorem visitRef (force : Bool) (ref : Option TypeId) : Tame I J (visitRef force ref) := by
  cases ref with
  | none => exact .throw fun s hs => h.faulted s _ hs False.elim
  | some id => exact h.visit force id

theorem generate (forced types : List (Option TypeId)) : Tame I J (generate forced types) :=
  (Meets.forM fun ref _ => h.visitRef true ref).bind fun _ _ =>
    (Meets.forM fun ref _ => h.visitRef false ref).bind fun _ _ => h.saveModuleUnits

theorem exportAs (form : ExportForm) (id : TypeId) : Tame I J (exportAs form id) := by
  have visits (force : Bool) (id : TypeId) (_ : False → id < σ.size) := h.visit force id
  cases form with
  | plainClass => exact h.exportClass visits id
  | struct => exact h.exportStruct visits id
  | enum => exact h.exportEnum id
  | interface => exact h.exportInterface id

end Composing

end Session

end ScriptGlue
