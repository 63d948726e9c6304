import ScriptGlue.Proofs.Session.Careful
import ScriptGlue.Proofs.Session.Progress
import ScriptGlue.Session.Trigger

/-! # Exports of members that fit

Units are made of members that passed their gates, so a generation asks nothing of what is not
there. What may still go wrong is a file, a directory that is none, or a value that is looked up by
and cannot be: the category of a function, or what an enum says of its values.
-/
namespace ScriptGlue
open ScriptGlue.Action

namespace Workspace

abbrev Mild {α : Type} (a : Action Workspace α) : Prop :=
  Meets (fun _ => True) (fun e _ => e.isUnsound = false) a fun _ => True

theorem mild_onTree (operation : FileTree → Except FileFault FileTree) : Mild (onTree operation) where
  result _ _ := ⟨trivial, trivial⟩
  fault _ he := by
    unfold onTree at he
    split at he <;> cases he
    rfl

theorem mild_held (path : String) : Mild (held path) where
  result _ _ := ⟨trivial, trivial⟩
  fault _ he := by
    unfold held at he
    split at he <;> cases he
    rfl

theorem mild_modify (f : Workspace → Workspace) : Mild (modify f) := .modify fun _ _ => trivial

theorem mild_ensureDirectory (path : String) : Mild (ensureDirectory path) := by
  refine .get_bind fun w _ => ?_
  refine Meets.bind (Q := fun _ => True) ⟨fun _ _ => ⟨trivial, trivial⟩, fun _ he => by cases he⟩
    fun _ _ => ?_
  split
  · exact .pure trivial
  · exact .throw fun _ _ => rfl
  · exact .throw fun _ _ => rfl
  · exact (mild_modify _).bind fun _ _ => .pure trivial

theorem mild_stage (path text : String) : Mild (stage path text) := by
  refine (mild_held path).bind fun held _ => ?_
  split
  · exact (mild_onTree _).bind fun _ _ => .throw fun _ _ => rfl
  · exact .ite (fun _ => .pure trivial) fun _ => (mild_onTree _).bind fun _ _ =>
      (mild_modify _).bind fun _ _ => (mild_modify _).bind fun _ _ => .pure trivial

theorem mild_moveIntoPlace (path : String) : Mild (moveIntoPlace path) := by
  refine .get_bind fun _ _ => (mild_onTree _).bind fun _ _ => ?_
  split
  · exact mild_modify _
  · exact .pure trivial

theorem mild_commit : Mild commit :=
  .get_bind fun _ _ => (Meets.forM fun path _ => mild_moveIntoPlace path).bind fun _ _ =>
    (mild_modify _).bind fun _ _ => .pure trivial

theorem mild_remove (path : String) : Mild (remove path) := by
  refine .get_bind fun _ _ => (mild_onTree _).bind fun _ _ => ?_
  split
  · exact mild_modify _
  · exact .pure trivial

theorem mild_dropStaged (path : String) : Mild (dropStaged path) := by
  have attempted := (mild_remove (stagedPath path)).bind fun r _ =>
    Meets.pure (Q := fun _ => True) (x := (Except.ok r : Except Unit Unit)) trivial
  refine Meets.bind (Q := fun _ => True) (attempted.tryCatch (fun _ _ => ⟨trivial, trivial⟩) ?_)
    fun e _ => ?_
  · intro e s t e' sound he
    split at he <;> cases he
    exact sound
  · cases e <;> exact .pure trivial

theorem mild_discard : Mild discard :=
  .get_bind fun _ _ => (Meets.forM fun path _ => mild_dropStaged path).bind fun _ _ => mild_modify _

end Workspace

theorem TypeNode.properties?_of_isClass {t : TypeNode} (h : t.isClass) : t.properties?.isSome := by
  unfold isClass classBody? at h
  unfold properties?
  split at h <;> simp_all

namespace Session

/-- The function of the method is declared by its library, has parameters that fit, and has one at
the receiver's position. -/
structure MethodFits (σ : TypeStore) (m : ExtensionMethod) : Prop where
  declared : m.function ∈ (σ.type m.library).functions
  passable : m.function.Passable σ
  receiver : ∃ p, m.function.params[m.receiver.position]? = some p

theorem MethodFits.grow {σ τ : TypeStore} (linked : σ.Linked)
    (same : ∀ id < σ.size, τ.type id = σ.type id) {m : ExtensionMethod} (h : MethodFits σ m) :
    MethodFits τ m := by
  have inside := TypeStore.lt_size_of_mem_functions h.declared
  refine ⟨(same m.library inside).symm ▸ h.declared, fun p hp => ?_, h.receiver⟩
  obtain ⟨fits, single⟩ := h.passable p hp
  exact ⟨fits.grow same (linked.param inside h.declared hp), single⟩

theorem PassedOf.grow {σ τ : TypeStore} {id : TypeId} {ps : List Property} (linked : σ.Linked)
    (same : ∀ id < σ.size, τ.type id = σ.type id) (h : PassedOf σ id ps) : PassedOf τ id ps := by
  obtain ⟨declared, hdeclared, all⟩ := h
  have inside := TypeStore.lt_size_of_properties? hdeclared
  refine ⟨declared, (same id inside).symm ▸ hdeclared, fun p hp => ?_⟩
  obtain ⟨mem, passable⟩ := all p hp
  exact ⟨mem, passable.toFits.grow same (linked.property inside (by simpa [hdeclared] using mem)),
    passable.fixed⟩

section
variable {I : Session → Prop} {J : Fault → Session → Prop} {t : TypeNode} {ps : List Property}

theorem each_wrapperProperty {Q : WrapperProperty → Prop}
    (told : ∀ level source text, Tame I J (tell level source text))
    (named : ∀ p ∈ ps, Tame I J (Action.ofExcept (propertyName p (scriptName t)) : Generation Name))
    (made : ∀ p ∈ ps, ∀ name, propertyName p (scriptName t) = .ok name → ∀ relaxed forced,
      Meets I J (wrapperProperty p name.plain relaxed forced) Q) (taken : List Name) :
    Meets I J (wrapperProperties t taken ps) fun ws => ∀ w ∈ ws, Q w := by
  induction ps generalizing taken with
  | nil => exact .pure fun _ hw => absurd hw List.not_mem_nil
  | cons p rest ih =>
    obtain ⟨first, made⟩ := List.forall_mem_cons.1 made
    obtain ⟨name, named⟩ := List.forall_mem_cons.1 named
    refine (name.ensures fun _ _ _ found => (ofExcept_eq_ok.1 found).1).bind fun name found =>
      .ite (fun _ => ?_) fun _ => ?_
    · exact (told _ _ _).bind fun _ _ => ih named made taken
    · exact .get_bind fun _ _ => (first name found _ _).bind fun _ shown =>
        (ih named made _).bind fun _ others => .pure (List.forall_mem_cons.2 ⟨shown, others⟩)

theorem each_structMember {Q : StructMember → Prop}
    (told : ∀ level source text, Tame I J (tell level source text))
    (named : ∀ p ∈ ps, Tame I J (Action.ofExcept (propertyName p (scriptName t)) : Generation Name))
    (handles : ∀ p ∈ ps, Q (.handles (propertyFields p true)))
    (made : ∀ p ∈ ps, ∀ name, propertyName p (scriptName t) = .ok name → ∀ relaxed,
      Meets I J (mirrorField p name.plain relaxed) fun field => Q (.mirror field))
    (blittable : Bool) (taken : List Name) :
    Meets I J (structMembers t blittable taken ps) fun ms =>
      (∀ m ∈ ms, Q m) ∧ ∀ p ∈ ps, ∃ name, propertyName p (scriptName t) = .ok name := by
  induction ps generalizing taken with
  | nil => exact .pure ⟨fun _ hm => absurd hm List.not_mem_nil, fun _ hp => absurd hp List.not_mem_nil⟩
  | cons p rest ih =>
    obtain ⟨first, made⟩ := List.forall_mem_cons.1 made
    obtain ⟨name, named⟩ := List.forall_mem_cons.1 named
    obtain ⟨handle, handles⟩ := List.forall_mem_cons.1 handles
    have own : ∀ m ∈ if blittable then [] else [StructMember.handles (propertyFields p true)],
        Q m := by
      split
      · exact fun _ hm => absurd hm List.not_mem_nil
      · exact List.forall_mem_singleton.2 handle
    refine (name.ensures fun _ _ _ found => (ofExcept_eq_ok.1 found).1).bind fun name found =>
      .ite (fun _ => ?_) fun _ => ?_
    · exact (told _ _ _).bind fun _ _ => (ih named handles made taken).bind fun _ others =>
        .pure ⟨List.forall_mem_append.2 ⟨own, others.1⟩,
          List.forall_mem_cons.2 ⟨⟨name, found⟩, others.2⟩⟩
    · exact .get_bind fun _ _ => (first name found _).bind fun _ shown =>
        (ih named handles made _).bind fun _ others =>
          .pure ⟨List.forall_mem_append.2 ⟨own, List.forall_mem_cons.2 ⟨shown, others.1⟩⟩,
            List.forall_mem_cons.2 ⟨⟨name, found⟩, others.2⟩⟩

theorem each_wrapper {id : TypeId} {owner : Name} {Q : Wrapper → Prop} {fs : List Function}
    (made : ∀ f ∈ fs, Meets I J (wrapper f owner) Q)
    (extended : ∀ f ∈ fs, Tame I J (addExtension id f)) (isLibrary : Bool) :
    Meets I J (wrappers id owner isLibrary fs) fun ws => ∀ w ∈ ws, Q w := by
  induction fs with
  | nil => exact .pure fun _ hw => absurd hw List.not_mem_nil
  | cons f rest ih =>
    obtain ⟨first, made⟩ := List.forall_mem_cons.1 made
    obtain ⟨extension, extended⟩ := List.forall_mem_cons.1 extended
    have remaining {shown : Wrapper} (good : Q shown) : Meets I J (do
        let others ← wrappers id owner isLibrary rest
        return shown :: others) fun ws => ∀ w ∈ ws, Q w :=
      (ih made extended).bind fun _ later => .pure (List.forall_mem_cons.2 ⟨good, later⟩)
    exact first.bind fun _ good => .ite
      (fun _ => extension.bind fun _ _ => remaining good) fun _ => remaining good

end

namespace Careful
variable {strict : Prop} {σ : TypeStore} {I : Session → Prop} {J : Fault → Session → Prop}
  (h : Careful strict σ I J)
include h

theorem propertyName {t : TypeNode} {p : Property} (ht : strict → t.name.isText)
    (hp : strict → p.name.isText) :
    Tame I J (Action.ofExcept (propertyName p (scriptName t)) : Generation Name) :=
  h.ofExcept fun hstrict =>
    Naming.property_ok (hp hstrict) p.kind (isText_scriptName (ht hstrict))

theorem wrapperProperties {t : TypeNode} (ht : strict → t.name.isText) (taken : List Name)
    {ps : List Property} (good : ∀ p ∈ ps, p.Fits σ ∧ (strict → p.name.isText)) :
    Tame I J (wrapperProperties t taken ps) :=
  (each_wrapperProperty h.tell (fun p hp => h.propertyName ht (good p hp).2)
    (fun p hp _ _ => h.wrapperProperty (good p hp).1 _) taken).imp fun _ _ => trivial

theorem superClassName (t : TypeNode) : Tame I J (superClassName t) := by
  unfold Session.superClassName
  split
  · exact h.qualifiedName _
  · exact .pure trivial

theorem structMembers {t : TypeNode} (ht : strict → t.name.isText) (blittable : Bool)
    (taken : List Name) {ps : List Property}
    (good : ∀ p ∈ ps, p.Passable σ ∧ (strict → p.name.isText)) :
    Tame I J (structMembers t blittable taken ps) :=
  (each_structMember (Q := fun _ => True) h.tell (fun p hp => h.propertyName ht (good p hp).2)
    (fun _ _ => trivial) (fun p hp _ _ => h.mirrorField (good p hp).1 _) blittable taken).imp
      fun _ _ => trivial

theorem mirroring (t : TypeNode) {ps : List Property} (good : ∀ p ∈ ps, p.Fits σ) :
    Tame I J (mirroring t ps) :=
  (Meets.mapM fun p hp => h.readInto (good p hp) _ _ _ _ _).bind fun _ _ =>
    (Meets.mapM fun p hp => h.writeFrom (good p hp) _ _ _ _ _).bind fun _ _ => .pure trivial

theorem name {id : TypeId} (inside : strict → id < σ.size) (hstrict : strict) :
    (σ.type id).name.isText := (h.named hstrict id (inside hstrict)).name

theorem passed_names {id : TypeId} {ps : List Property} (passed : PassedOf σ id ps) :
    ∀ p ∈ ps, p.Passable σ ∧ (strict → p.name.isText) := by
  obtain ⟨declared, hdeclared, all⟩ := passed
  exact fun p hp => ⟨(all p hp).2, fun hstrict =>
    (h.named hstrict).property hdeclared (all p hp).1⟩

theorem structUnit {id : TypeId} {ps : List Property} (passed : PassedOf σ id ps) :
    Tame I J (structUnit id (σ.type id) ps) := by
  have good := h.passed_names passed
  obtain ⟨declared, hdeclared, -⟩ := passed
  have inside := TypeStore.lt_size_of_properties? hdeclared
  refine (h.spaceOf (h.home id)).bind fun _ _ =>
    (h.measured id (by simp [hdeclared])).bind fun _ _ =>
      (h.structMembers (h.name fun _ => inside) _ [] good).bind fun _ _ => ?_
  exact .ite (fun _ => Meets.bind (Q := fun _ => True) (.pure trivial) fun _ _ => .pure trivial)
    fun _ => Meets.bind (Q := fun _ => True)
      ((h.mirroring _ fun p hp => (good p hp).1.toFits).map fun _ _ => trivial)
      fun _ _ => .pure trivial

theorem overrideType (className : Name) : Tame I J (overrideType className) := by
  refine .get_bind fun s hs => ?_
  split
  · exact h.qualifiedName _
  · dsimp only
    split
    · next m declared =>
      exact Meets.bind (Q := fun _ => True) ((h.register fun hstrict =>
        h.declared hstrict s _ m hs declared).map fun _ _ => trivial) fun _ _ => .pure trivial
    · exact Meets.bind (Q := fun _ => True) (.pure trivial) fun _ _ => .pure trivial

section
variable {m : ExtensionMethod} (fits : MethodFits σ m)
include fits

theorem receiverType : Tame I J (receiverType m) := by
  unfold Session.receiverType
  split
  · exact h.overrideType _
  · obtain ⟨p, hp⟩ := fits.receiver
    rw [hp]
    exact h.scriptType (fits.passable p (List.mem_of_getElem? hp)).1

theorem forwarder : Tame I J (forwarder m) := by
  have good : DeclaredPassable σ m.function := ⟨⟨m.library, fits.declared⟩, fits.passable⟩
  have inside := TypeStore.lt_size_of_mem_functions fits.declared
  have others : Tame I J ((m.function.argumentsBut m.receiver.position).mapM Session.parameter) :=
    (Meets.mapM fun p hp => h.parameter (fits.passable p (Function.mem_params_of_argumentsBut hp)).1
      (h.param_text good (Function.mem_params_of_argumentsBut hp))).imp fun _ _ => trivial
  refine (h.typeAt m.library).bind ?_
  rintro t rfl
  exact (h.functionName good fun hstrict =>
    isText_scriptName (h.name (fun _ => inside) hstrict)).bind fun _ _ =>
      (h.receiverType fits).bind fun _ _ => others.bind fun _ _ =>
        (h.qualifiedName _).bind fun _ _ => (h.returnType good).bind fun _ _ => .pure trivial

end

theorem extensionUnit (m : OutputModule) {methods : List ExtensionMethod}
    (fits : ∀ x ∈ methods, MethodFits σ x) : Tame I J (extensionUnit m methods) :=
  (Meets.mapM fun x hx => h.forwarder (fits x hx)).bind fun _ _ => .pure trivial

section
variable (plain : strict → σ.Plain)
include plain

omit h plain in
theorem enumValuesFrom_ok (policy : Policy) (enum : Name) {entries : List Value}
    (texts : ∀ e ∈ entries, e.isText) (count i : Nat) :
    ∃ values, enumValuesFrom policy enum count i entries = .ok values := by
  induction entries generalizing i with
  | nil => exact ⟨[], rfl⟩
  | cons entry rest ih =>
    obtain ⟨text, others⟩ := List.forall_mem_cons.1 texts
    obtain ⟨word, rfl⟩ := Value.eq_text_of_isText text
    obtain ⟨values, hvalues⟩ := ih others (i + 1)
    simp only [enumValuesFrom, Value.keyed_text, hvalues, Naming.enumEntry, Bind.bind, Except.bind]
    split
    · exact ⟨_, rfl⟩
    · exact ⟨_, rfl⟩

omit h plain in
theorem underlyingType_ok {underlying : Value} (keyed : underlying.isKey) :
    ∃ type, underlyingType underlying = .ok type := by
  unfold underlyingType
  split
  case h_9 => exact ⟨_, if_pos keyed⟩
  all_goals exact ⟨_, rfl⟩

theorem enumUnit {id : TypeId} (inside : strict → id < σ.size) (there : strict → (σ.type id).isEnum) :
    Tame I J (enumUnit (σ.type id)) := by
  refine (h.spaceOf (h.home id)).bind fun _ _ => ?_
  split
  · next entries underlying body =>
    have values (hstrict : strict) := (plain hstrict id (inside hstrict)).enum entries underlying body
    exact (h.ofExcept fun hstrict => underlyingType_ok (values hstrict).1).bind fun _ _ =>
      .get_bind fun _ _ => (h.ofExcept fun hstrict =>
        enumValuesFrom_ok _ _ (values hstrict).2 _ _).bind fun _ _ => .pure trivial
  · next other =>
    refine .throw fun s hs => h.faulted s _ hs fun hstrict => ?_
    have enum := there hstrict
    unfold TypeNode.isEnum TypeNode.variant at enum
    split at enum <;> simp_all

theorem interfaceMethods (t : TypeNode) (ht : strict → t.name.isText) {fs : List Function}
    (declared : ∀ f ∈ fs, ∃ d, f ∈ (σ.type d).functions) :
    Tame I J (interfaceMethods t fs) := by
  induction fs with
  | nil => exact .pure trivial
  | cons f rest ih =>
    obtain ⟨hf, others⟩ := List.forall_mem_cons.1 declared
    have asked : Meets I J (Session.canExportFunction t f) fun passed =>
        passed = true → DeclaredPassable σ f := by
      have tame := h.canExportFunction plain t hf
      refine ⟨fun {s u passed} hs he => ⟨?_, (tame.result hs he).2⟩, tame.fault⟩
      rintro rfl
      rw [← h.store s hs] at hf ⊢
      exact ⟨hf, passable_of_passesFunction (canExportFunction_ok he).1.symm⟩
    have shown (passed : Bool) (good : passed = true → DeclaredPassable σ f) :
        Tame I J (if passed then (do
          let shown ← Session.interfaceMethod f (scriptName t)
          let others ← Session.interfaceMethods t rest
          return shown :: others) else Session.interfaceMethods t rest) :=
      .ite (fun holds => (h.interfaceMethod (good holds) fun hstrict =>
        isText_scriptName (ht hstrict)).bind fun _ _ => (ih others).bind fun _ _ => .pure trivial)
        fun _ => ih others
    exact .ite (fun _ => asked.bind shown) fun _ => Meets.bind (.pure (by simp)) shown

theorem interfaceUnit {id : TypeId} (inside : strict → id < σ.size)
    (there : strict → (σ.type id).isClass) : Tame I J (interfaceUnit (σ.type id)) := by
  refine (h.spaceOf (h.home id)).bind fun _ _ => ?_
  split
  · next none =>
    refine .throw fun s hs => h.faulted s _ hs fun hstrict => ?_
    have someBody := there hstrict
    rw [TypeNode.isClass, none] at someBody
    cases someBody
  · next body hbody =>
    refine (h.interfaceMethods plain _ (h.name inside) fun f hf => ⟨id, ?_⟩).bind fun _ _ =>
      .pure trivial
    simpa [TypeNode.functions, hbody] using hf

end

end Careful

section
variable {strict : Prop} {σ : TypeStore} {I : Session → Prop} {J : Fault → Session → Prop}
  {visit : Visit} (visits : ∀ force id, (strict → id < σ.size) → Tame I J (visit force id))
include visits

theorem tame_visitSome {ref : Option TypeId} (inside : strict → ∀ d ∈ ref, d < σ.size) :
    Tame I J (visitSome visit ref) := by
  cases ref with
  | none => exact .pure trivial
  | some id => exact visits true id fun hstrict => inside hstrict id rfl

omit visits in
mutual

theorem tame_exportDependencies
    (visits : ∀ force id, (strict → id < σ.size) → Tame I J (visit force id)) :
    ∀ p : Property, (strict → p.Inside σ) → Tame I J (exportDependencies visit p)
  | ⟨_, kind, _, _, ref, inner, value, _, _, _⟩, inside => by
    unfold Session.exportDependencies
    have parts (hstrict : strict) := Property.inside_mk.1 (inside hstrict)
    refine (tame_visitSome visits fun hstrict d hd => ?_).bind fun _ _ =>
      (tame_exportElementDependencies visits inner fun hstrict => (parts hstrict).2.1).bind fun _ _ =>
        tame_exportElementDependencies visits value fun hstrict => (parts hstrict).2.2
    split at hd
    · exact (parts hstrict).1 d hd
    · cases hd

theorem tame_exportElementDependencies
    (visits : ∀ force id, (strict → id < σ.size) → Tame I J (visit force id)) :
    ∀ p : Option Property, (strict → ∀ d ∈ elementTargets p, d < σ.size) →
      Tame I J (exportElementDependencies visit p)
  | some p, inside => tame_exportDependencies visits p inside
  | none, _ => .pure trivial

end

end

/-- A careful invariant that every step of a generation keeps. -/
structure Attentive (strict : Prop) (σ : TypeStore) (I : Session → Prop)
    (J : Fault → Session → Prop) : Prop extends Careful strict σ I J where
  linked : strict → σ.Linked
  marked : ∀ s id, I s → I { s with exported := id :: s.exported }
  passedOver : ∀ s v, I s → I { s with skipped := v :: s.skipped }
  extended : ∀ s m, MethodFits σ m → I s → I { s with extensions := s.extensions ++ [m] }
  methods : ∀ s, I s → ∀ m ∈ s.extensions, MethodFits σ m
  files : ∀ s w, I s → I { s with workspace := w }

namespace Attentive
variable {strict : Prop} {σ : TypeStore} {I : Session → Prop} {J : Fault → Session → Prop}
  (h : Attentive strict σ I J)
include h

theorem onWorkspace {α : Type} {a : Action Workspace α} (mild : Workspace.Mild a) :
    Tame I J (onWorkspace a) where
  result := by
    intro s t x hs he
    rw [Session.onWorkspace, Action.within] at he
    rcases run : a s.workspace with ⟨r, w⟩
    rw [run] at he
    cases he
    exact ⟨trivial, h.files _ _ hs⟩
  fault := by
    intro s t e hs he
    rw [Session.onWorkspace, Action.within] at he
    rcases run : a s.workspace with ⟨r, w⟩
    rw [run] at he
    cases he
    exact h.faulted _ _ (h.files _ _ hs) fun _ => mild.fault trivial run

theorem saveUnit {m : OutputModule} (text : strict → m.directory.isText) (filename unit : String) :
    Tame I J (saveUnit m filename unit) := by
  rw [saveUnit_eq]
  split
  · exact h.onWorkspace ((Workspace.mild_ensureDirectory _).bind fun _ _ =>
      .ite (fun _ => (Workspace.mild_stage _ _).bind fun _ _ =>
        .ite (fun _ => Workspace.mild_modify _) fun _ => .pure trivial) fun _ => .pure trivial)
  · next none =>
    refine .throw fun s hs => h.faulted s _ hs fun hstrict => ?_
    obtain ⟨directory, hdirectory⟩ := Value.eq_text_of_isText (text hstrict)
    simp [target?, hdirectory] at none

theorem saveTypeUnit (id : TypeId) (code : Code) :
    Tame I J (saveTypeUnit (σ.type id) code) :=
  (h.register (h.home id)).bind fun _ text => .get_bind fun _ _ => h.saveUnit text _ _

theorem saveModuleUnits : Tame I J saveModuleUnits := by
  refine .get_bind fun s hs => .forM fun name hname => ?_
  have text : strict → name.isText := by
    intro hstrict
    obtain ⟨m, hm, rfl⟩ := List.mem_map.1 (Value.mem_of_mem_distinct hname)
    rw [h.store s hs]
    have inside := TypeStore.lt_size_of_mem_functions (h.methods s hs m hm).declared
    exact (h.named hstrict m.library inside).home
  refine (h.registerByName text).bind fun m directory => .get_bind fun t ht => ?_
  have fits : ∀ x ∈ t.extensionsOf name, MethodFits σ x := fun x hx =>
    h.methods t ht x (List.mem_of_mem_filter hx)
  exact (h.extensionUnit m fits).bind fun _ _ => h.saveUnit directory _ _

theorem mark (id : TypeId) (t : TypeNode) : Tame I J (mark id t) :=
  .get_bind fun _ _ => .ite (fun _ => (h.tell _ _ _).bind fun _ _ => .pure trivial)
    fun _ => (Meets.modify fun s hs => h.marked s id hs).bind fun _ _ => .pure trivial

theorem addExtension {id : TypeId} {f : Function} (declared : f ∈ (σ.type id).functions)
    (good : DeclaredPassable σ f) : Tame I J (addExtension id f) := by
  refine (h.typeAt id).bind fun t _ => ?_
  split
  · exact .pure trivial
  · next receiver resolved =>
    exact (Meets.modify fun s hs =>
      h.extended s _ ⟨declared, good.passable, Receiver.exists_param_of_resolve resolved⟩ hs).bind
        fun _ _ => h.tell _ _ _

theorem wrappers {id : TypeId} {owner : Name} (text : strict → owner.isText) (isLibrary : Bool)
    {fs : List Function} (good : ∀ f ∈ fs, f ∈ (σ.type id).functions ∧ DeclaredPassable σ f) :
    Tame I J (wrappers id owner isLibrary fs) :=
  (each_wrapper (fun f hf => h.wrapper (good f hf).2 text)
    (fun f hf => h.addExtension (good f hf).1 (good f hf).2) isLibrary).imp fun _ _ => trivial

theorem classMembers {id : TypeId} (inside : strict → id < σ.size) {ps : List Property}
    {functions events : List Function} (passed : PassedOf σ id ps)
    (own : ∀ f ∈ functions, f ∈ (σ.type id).functions ∧ DeclaredPassable σ f)
    (all : ∀ f ∈ events, DeclaredPassable σ f) :
    Tame I J (classMembers id (σ.type id) ps functions events) := by
  have good := h.passed_names passed
  have owner (hstrict : strict) := isText_scriptName (h.name inside hstrict)
  refine (Meets.forM fun p hp =>
    (h.propertyName (h.name inside) (good p hp).2).bind fun _ _ => .pure trivial).bind fun _ _ => ?_
  exact (h.wrapperProperties (h.name inside) [] fun p hp =>
    ⟨(good p hp).1.toFits, (good p hp).2⟩).bind fun _ _ => .get_bind fun _ _ =>
      (h.wrappers owner _ own).bind fun _ _ =>
        (Meets.mapM fun f hf => h.eventStub (all f hf) owner).bind fun _ _ => .pure trivial

theorem marking (id : TypeId) {body : TypeNode → Generation Unit} (hbody : Tame I J (body (σ.type id))) :
    Tame I J (do
      let t ← Session.typeAt id
      if ← Session.mark id t then body t) := by
  refine (h.typeAt id).bind ?_
  rintro t rfl
  exact (h.mark id _).bind fun _ _ => .ite (fun _ => hbody) fun _ => .pure trivial

section
variable (plain : strict → σ.Plain)
include plain

theorem exportInterface {id : TypeId} (inside : strict → id < σ.size)
    (there : strict → (σ.type id).isClass) : Tame I J (exportInterface id) :=
  h.marking id ((h.interfaceUnit plain inside there).bind fun _ _ => h.saveTypeUnit id _)

theorem exportEnum {id : TypeId} (inside : strict → id < σ.size)
    (there : strict → (σ.type id).isEnum) : Tame I J (exportEnum id) :=
  h.marking id ((h.enumUnit plain inside there).bind fun _ _ => h.saveTypeUnit id _)

end

section
variable {visit : Visit} (visits : ∀ force id, (strict → id < σ.size) → Tame I J (visit force id))
include visits

theorem passedDependencies {id : TypeId} {ps : List Property} (passed : PassedOf σ id ps) :
    Tame I J (ps.forM (exportDependencies visit)) := by
  obtain ⟨declared, hdeclared, all⟩ := passed
  refine .forM fun p hp => tame_exportDependencies visits p fun hstrict => ?_
  exact (h.linked hstrict).property (TypeStore.lt_size_of_properties? hdeclared)
    (by simpa [hdeclared] using (all p hp).1)

theorem exportInterfaces (own : String) (imports : List String) {ids : List TypeId}
    (inside : strict → ∀ d ∈ ids, d < σ.size) :
    Tame I J (exportInterfaces visit own imports ids) := by
  induction ids generalizing imports with
  | nil => exact .pure trivial
  | cons id rest ih =>
    refine (visits true id fun hstrict => inside hstrict id List.mem_cons_self).bind fun _ _ =>
      (h.typeAt id).bind ?_
    rintro t rfl
    exact (h.spaceOf (h.home id)).bind fun _ _ =>
      ih _ fun hstrict d hd => inside hstrict d (List.mem_cons_of_mem _ hd)

theorem exportStruct {id : TypeId} (there : strict → (σ.type id).properties?.isSome) :
    Tame I J (exportStruct visit id) :=
  h.marking id ((h.exportedProperties there).bind fun _ passed =>
    (h.passedDependencies visits passed).bind fun _ _ =>
      (h.structUnit passed).bind fun _ _ => h.saveTypeUnit id _)

variable (plain : strict → σ.Plain)
include plain

theorem classUnit {id : TypeId} (inside : strict → id < σ.size)
    (there : strict → (σ.type id).properties?.isSome) : Tame I J (classUnit visit id (σ.type id)) := by
  have held {f : Function} (good : DeclaredPassable σ f) :
      Tame I J (f.params.forM (exportDependencies visit)) := by
    obtain ⟨d, hd⟩ := good.declared
    exact .forM fun p hp => tame_exportDependencies visits p fun hstrict =>
      (h.linked hstrict).param (TypeStore.lt_size_of_mem_functions hd) hd hp
  refine (tame_visitSome visits fun hstrict d hd =>
    (h.linked hstrict).super (inside hstrict) hd).bind fun _ _ =>
      (h.spaceOf (h.home id)).bind fun space _ => .get_bind fun s hs => ?_
  refine (h.exportInterfaces visits space [] fun hstrict d hd => ?_).bind fun _ _ =>
    (h.superClassName _).bind fun _ _ =>
      (Meets.mapM fun d _ => h.qualifiedName d).bind fun _ _ =>
        (h.exportedProperties there).bind fun _ passed =>
          (h.exportedFunctions plain id).bind fun split good => ?_
  · rw [h.store s hs] at hd
    exact (h.linked hstrict).interfaces (inside hstrict) (List.mem_of_mem_filter hd)
  · exact (h.passedDependencies visits passed).bind fun _ _ =>
      (Meets.forM fun f hf => held ((List.mem_append.1 hf).elim (fun hf => (good.1 f hf).2)
        (good.2 f))).bind fun _ _ =>
          (h.classMembers inside passed good.1 good.2).bind fun _ _ => .pure trivial

theorem exportClass {id : TypeId} (inside : strict → id < σ.size)
    (there : strict → (σ.type id).isClass) : Tame I J (exportClass visit id) := by
  have made : Tame I J (do
      let unit ← Session.classUnit visit id (σ.type id)
      Session.saveTypeUnit (σ.type id) unit.code) :=
    (h.classUnit visits plain inside fun hstrict =>
      TypeNode.properties?_of_isClass (there hstrict)).bind fun _ _ => h.saveTypeUnit id _
  refine h.marking id (.ite (fun other => ?_) fun _ => made)
  refine Meets.bind (Q := fun _ => True) (.throw fun s hs => ?_) fun _ _ => made
  exact h.faulted s _ hs fun hstrict => by simp [there hstrict] at other

theorem dispatch (force : Bool) {id : TypeId} (inside : strict → id < σ.size) :
    Tame I J (dispatch visit force id (σ.type id)) := by
  have asClass (isClass : (σ.type id).isClass) : Tame I J (do
      let _ ← Session.register (σ.type id).home
      let s ← get
      if isInterface s.store id then Session.exportInterface id
      else if force || s.shouldExportClass id then Session.exportClass visit id) :=
    (h.register (h.home id)).bind fun _ _ => .get_bind fun _ _ =>
      .ite (fun _ => h.exportInterface plain inside fun _ => isClass) fun _ =>
        .ite (fun _ => h.exportClass visits plain inside fun _ => isClass) fun _ => .pure trivial
  unfold Session.dispatch
  split
  · next body hbody => exact asClass (by simp [TypeNode.isClass, TypeNode.classBody?, hbody])
  · next body hbody => exact asClass (by simp [TypeNode.isClass, TypeNode.classBody?, hbody])
  · next ps body =>
    exact .get_bind fun _ _ => .ite (fun _ => h.exportStruct visits fun _ => by
      simp [TypeNode.properties?, body]) fun _ => .pure trivial
  · next entries underlying body =>
    exact .get_bind fun _ _ => .ite (fun _ => h.exportEnum plain inside fun _ => by
      simp [TypeNode.isEnum, TypeNode.variant, body]) fun _ => .pure trivial

end

variable (plain : strict → σ.Plain)
include plain

theorem visitWithin (fuel : Nat) (force : Bool) (id : TypeId) (inside : strict → id < σ.size) :
    Tame I J (visitWithin fuel force id) := by
  induction fuel generalizing force id with
  | zero => exact h.mild rfl
  | succ fuel ih =>
    refine .get_bind fun s _ => .ite (fun _ => .pure trivial) fun _ => (h.typeAt id).bind ?_
    rintro t rfl
    refine Meets.bind (Q := fun _ => True) (h.ofExcept fun hstrict => ?_) fun _ _ =>
      .ite (fun _ => ?_) fun _ => h.dispatch ih plain force inside
    · obtain ⟨word, hword⟩ := Value.eq_text_of_isText (h.name inside hstrict)
      unfold shouldSkip
      rw [hword]
      split
      · exact ⟨true, rfl⟩
      · exact ⟨_, rfl⟩
    · exact (Meets.modify fun s hs => h.passedOver s _ hs).bind fun _ _ => h.tell _ _ _

theorem visit (force : Bool) (id : TypeId) (inside : strict → id < σ.size) :
    Tame I J (visit force id) := .get_bind fun _ _ => h.visitWithin plain _ force id inside

theorem visitRef (force : Bool) {ref : Option TypeId}
    (inside : strict → ∃ id, ref = some id ∧ id < σ.size) : Tame I J (visitRef force ref) := by
  cases ref with
  | none =>
    refine .throw fun s hs => h.faulted s _ hs fun hstrict => ?_
    obtain ⟨id, hid, -⟩ := inside hstrict
    cases hid
  | some id =>
    refine h.visit plain force id fun hstrict => ?_
    obtain ⟨d, hd, hinside⟩ := inside hstrict
    cases hd
    exact hinside

theorem generate {forced types : List (Option TypeId)}
    (inside : strict → ∀ ref ∈ forced ++ types, ∃ id, ref = some id ∧ id < σ.size) :
    Tame I J (generate forced types) :=
  (Meets.forM fun ref hr => h.visitRef plain true fun hstrict =>
      inside hstrict ref (List.mem_append_left _ hr)).bind fun _ _ =>
    (Meets.forM fun ref hr => h.visitRef plain false fun hstrict =>
      inside hstrict ref (List.mem_append_right _ hr)).bind fun _ _ => h.saveModuleUnits

end Attentive

end Session

end ScriptGlue
