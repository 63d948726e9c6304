import ScriptGlue.Proofs.Graph.Growth
import ScriptGlue.Proofs.Session.Events
import ScriptGlue.Proofs.Session.SpelledParts

/-! # Units that spell names

The units of classes, interfaces, structs and enums and those of the extension methods of modules
are made of parts that spell names, and print a few names of their own. Events, whose result types
stand first on a line, take and return no delegates.
-/
namespace ScriptGlue
open ScriptGlue.Action Text Code

variable {exact : Prop} {σ : TypeStore}

namespace Session

/-- The types of the parameters are all there is to know where one has to begin a line. -/
def TakesValues (f : Function) : Prop := ∀ p ∈ f.params, p.kind.isDelegate = false

section
variable {s : Session} {owner t : TypeNode} {f : Function}

theorem takesValues_of_passesFunction (passes : s.passesFunction owner f)
    (event : f.has .blueprintEvent) : TakesValues f := by
  intro p hp
  simp only [passesFunction, event, Bool.and_eq_true, List.all_eq_true] at passes
  have role := passes.2 p hp
  have overridable (kind : PropertyKind) : (kind.supports .overridableParameter ∨
      kind.supports .overridableReturnValue) → kind.isDelegate = false := by
    cases kind <;> decide
  refine overridable p.kind ?_
  simp only [canPassAs, parameterRole, Bool.and_eq_true] at role
  cases returned : p.isReturn <;> simp only [returned] at role
  · exact .inl role.1.2
  · exact .inr role.1.2

theorem takesValues_of_ownEvent (hf : f ∈ s.ownEvents t) : TakesValues f := by
  obtain ⟨-, passes⟩ := List.mem_filter.1 hf
  obtain ⟨passes, event⟩ := Bool.and_eq_true_iff.1 passes
  exact takesValues_of_passesFunction passes event

theorem takesValues_of_event (hf : f ∈ s.passedEvents t) : TakesValues f := by
  obtain ⟨joined, all, takes⟩ := joinEvents_takesUp (s := s) (implementedInterfaces s.store t)
    (s.ownEvents t)
  rw [passedEvents, all] at hf
  obtain own | hf := List.mem_append.1 hf
  · exact takesValues_of_ownEvent own
  · obtain ⟨id, -, own⟩ := List.mem_flatMap.1 (takes.sublist.subset hf)
    exact takesValues_of_ownEvent own

end

/-- The functions and events that passed the gate are declared and passable, and events take
values. -/
theorem Careful.splitFunctions {I : Session → Prop} {J : Fault → Session → Prop}
    (h : Careful False σ I J) (id : TypeId) :
    Meets I J (Session.exportedFunctions (σ.type id)) fun split =>
      (∀ f ∈ split.1, f ∈ (σ.type id).functions ∧ DeclaredPassable σ f) ∧
        ∀ f ∈ split.2, DeclaredPassable σ f ∧ TakesValues f := by
  have gated := h.exportedFunctions False.elim id
  have values : Meets I J (Session.exportedFunctions (σ.type id)) fun split =>
      ∀ f ∈ split.2, TakesValues f := gated.ensures fun s split t ran => by
    obtain ⟨rfl, -⟩ := exportedFunctions_ok ran
    exact fun f => takesValues_of_event
  exact (gated.and values).imp fun _ both =>
    ⟨both.1.1, fun f hf => ⟨both.1.2 f hf, both.2 f hf⟩⟩

theorem inline_underlyingType {underlying : Value} {type : String}
    (found : underlyingType underlying = .ok type) : Inline type := by
  unfold underlyingType at found
  split at found
  case h_9 =>
    split at found <;> cases found
    decide
  all_goals
    cases found
    decide

theorem enumValuesFrom_spelled {policy : Policy} {enum : Name} {count i : Nat}
    {entries : List Value} {values : List (String × Nat)} (inline : ∀ e ∈ entries, Inline e.plain)
    (flush : exact → ∀ e ∈ entries, Flush (textOf (Naming.enumEntry e)))
    (found : enumValuesFrom policy enum count i entries = .ok values) :
    ∀ v ∈ values, Inline v.1 ∧ (exact → Flush v.1) := by
  induction entries generalizing i values with
  | nil =>
    cases found
    exact fun _ hv => absurd hv List.not_mem_nil
  | cons entry rest ih =>
    obtain ⟨first, others⟩ := List.forall_mem_cons.1 inline
    have later exactly := (List.forall_mem_cons.1 (flush exactly)).2
    unfold enumValuesFrom at found
    obtain ⟨key, hkey, found⟩ := except_bind_eq_ok.1 found
    obtain rfl : entry = key := by
      unfold Value.keyed at hkey
      split at hkey <;> cases hkey
      rfl
    split at found
    · exact ih others later found
    · obtain ⟨name, hname, found⟩ := except_bind_eq_ok.1 found
      obtain ⟨more, hmore, found⟩ := except_bind_eq_ok.1 found
      have shown : Inline name.plain ∧ (exact → Flush name.plain) := by
        refine ⟨?_, fun exactly => ?_⟩
        · cases entry <;> cases hname
          exact Naming.inline_withoutScope first
        · have begins := (List.forall_mem_cons.1 (flush exactly)).1
          rwa [hname] at begins
      split at found <;> cases found
      · exact ih others later hmore
      · exact List.forall_mem_cons.2 ⟨shown, ih others later hmore⟩

def OnWorld (m : ExtensionMethod) : Prop :=
  ∀ className, m.receiver.override = some className → className = Receiver.worldClass

theorem onWorld_of_resolve {f : Function} {receiver : Receiver} {library : TypeId}
    (resolved : Receiver.resolve (some Receiver.worldClass) f = some receiver) :
    OnWorld { function := f, receiver, library } := by
  obtain ⟨p, -, -, override⟩ := Receiver.resolve_eq_some resolved
  intro className stands
  rw [show receiver.override = some className from stands] at override
  split at override <;> cases override
  rfl

namespace Legible
variable {I : Session → Prop} {J : Fault → Session → Prop} (h : Legible exact σ I J)
include h

theorem spelled_properties {id : TypeId} {ps : List Property} (passed : PassedOf σ id ps) :
    ∀ p ∈ ps, p.Passable σ ∧ p.InlineNames ∧ (exact → Firm p.label) := by
  obtain ⟨declared, hdeclared, all⟩ := passed
  exact fun p hp => ⟨(all p hp).2,
    (h.spelled.inline id).properties declared hdeclared p (all p hp).1,
    fun exactly => (h.spelled.flush exactly id).properties declared hdeclared p (all p hp).1⟩

theorem wrapperProperties (t : TypeNode) (taken : List Name) {ps : List Property}
    (good : ∀ p ∈ ps, p.Fits σ ∧ p.InlineNames) :
    Meets I J (wrapperProperties t taken ps) fun shown => ∀ x ∈ shown, x.Printed := by
  refine each_wrapperProperty h.tell (fun p hp => (h.given _).imp fun _ _ => trivial)
    (fun p hp name named => ?_) taken
  obtain ⟨fits, names⟩ := good p hp
  exact h.wrapperProperty fits names (Naming.stable_inline.property names.label named)

theorem superClassName (t : TypeNode) : Meets I J (superClassName t) Inline := by
  unfold Session.superClassName
  split
  · exact (h.qualifiedName _).imp fun _ opens => opens.inline
  · exact .pure (by decide)

theorem interfaceMethods (t : TypeNode) {fs : List Function}
    (declared : ∀ f ∈ fs, ∃ d, f ∈ (σ.type d).functions) :
    Meets I J (interfaceMethods t fs) fun methods => ∀ m ∈ methods, m.Printed := by
  induction fs with
  | nil => exact .pure fun _ hm => absurd hm List.not_mem_nil
  | cons f rest ih =>
    obtain ⟨hf, others⟩ := List.forall_mem_cons.1 declared
    have asked (event : f.has .blueprintEvent) :
        Meets I J (Session.canExportFunction t f) fun passed =>
          passed = true → DeclaredPassable σ f ∧ TakesValues f := by
      have tame := h.toCareful.canExportFunction False.elim t hf
      refine ⟨fun {s u passed} hs he => ⟨?_, (tame.result hs he).2⟩, tame.fault⟩
      rintro rfl
      have passes := (canExportFunction_ok he).1.symm
      rw [← h.store s hs] at hf ⊢
      exact ⟨⟨hf, passable_of_passesFunction passes⟩, takesValues_of_passesFunction passes event⟩
    have shown (passed : Bool) (good : passed = true → DeclaredPassable σ f ∧ TakesValues f) :
        Meets I J (if passed then (do
          let shown ← Session.interfaceMethod f (scriptName t)
          let others ← Session.interfaceMethods t rest
          return shown :: others) else Session.interfaceMethods t rest)
          fun methods => ∀ m ∈ methods, m.Printed :=
      .ite (fun holds => (h.interfaceMethod (good holds).1 (good holds).2 _).bind fun _ first =>
        (ih others).bind fun _ later => .pure (List.forall_mem_cons.2 ⟨first, later⟩))
        fun _ => ih others
    exact .ite (fun event => (asked event).bind shown) fun _ => Meets.bind (.pure (by simp)) shown

theorem interfaceUnit (id : TypeId) :
    Meets I J (interfaceUnit (σ.type id)) InterfaceUnit.Printed := by
  refine (h.spaceOf id).bind fun _ space => ?_
  split
  · exact h.fails
  · next body hbody =>
    refine (h.interfaceMethods _ fun f hf => ⟨id, ?_⟩).bind fun _ methods =>
      .pure ⟨space.inline, inline_scriptLabel (h.spelled.inline id).label, methods⟩
    simpa [TypeNode.functions, hbody] using hf

theorem structMembers (t : TypeNode) (blittable : Bool) (taken : List Name) {ps : List Property}
    (good : ∀ p ∈ ps, p.Passable σ ∧ p.InlineNames) :
    Meets I J (structMembers t blittable taken ps) fun members =>
      (∀ m ∈ members, m.Printed) ∧ ∀ p ∈ ps, ∃ name, propertyName p (scriptName t) = .ok name := by
  refine each_structMember h.tell (fun p hp => (h.given _).imp fun _ _ => trivial)
    (fun p hp => inline_propertyFields (good p hp).2.label) (fun p hp name named => ?_) blittable taken
  obtain ⟨passable, names⟩ := good p hp
  exact h.mirrorField passable names (Naming.stable_inline.property names.label named)

section
variable {id : TypeId} {ps : List Property} (passed : PassedOf σ id ps)
include passed

theorem mirroring (named : ∀ p ∈ ps, ∃ name, propertyName p (scriptName (σ.type id)) = .ok name) :
    Meets I J (mirroring (σ.type id) ps) (Mirroring.Printed exact) := by
  have good := h.spelled_properties passed
  have offset {p : Property} (hp : p ∈ ps) :
      Inline (Displacement.handle (.offset p.label)).text :=
    Handle.inline_text (good p hp).2.1.label
  have constructed := printed_staticConstructor
    (fun p hp => ⟨(good p hp).2.1.label, fun exactly => ((good p hp).2.2 exactly).flush⟩)
    (h.spelled.inline id).label fun f (hf : f ∈ ([] ++ [] : List Function)) => by cases hf
  refine (Meets.mapM fun p hp => ?_).bind fun _ inputs => (Meets.mapM fun p hp => ?_).bind
    fun _ outputs => .pure ⟨constructed, inputs, outputs⟩
  · obtain ⟨passable, names, firm⟩ := good p hp
    obtain ⟨name, hname⟩ := named p hp
    exact h.readInto passable.toFits names names.label (by decide) (by decide) (offset hp)
      (inline_append.2 ⟨inline_propertyText names.label, by decide⟩)
      fun exactly => (firm_propertyText (firm exactly) hname).append _
  · obtain ⟨passable, names, -⟩ := good p hp
    exact h.writeFrom passable.toFits names names.label (by decide) (by decide) (offset hp)
      (inline_propertyText names.label)

theorem structUnit : Meets I J (structUnit id (σ.type id) ps) (StructUnit.Printed exact) := by
  have good := h.spelled_properties passed
  have measured := h.measured id (by
    obtain ⟨declared, hdeclared, -⟩ := passed
    simp [hdeclared])
  have name := inline_scriptLabel (h.spelled.inline id).label
  refine (h.spaceOf id).bind fun _ space => measured.bind fun _ _ =>
    (h.structMembers _ _ [] fun p hp => ⟨(good p hp).1, (good p hp).2.1⟩).bind fun _ members =>
      .optional (h.mirroring passed members.2) fun _ printed =>
        .pure ⟨space.inline, name, members.1, printed⟩

end

theorem enumUnit (id : TypeId) : Meets I J (enumUnit (σ.type id)) (EnumUnit.Printed exact) := by
  refine (h.spaceOf id).bind fun _ space => ?_
  split
  · next entries underlying body =>
    have known : (σ.type id).entries = entries := by rw [TypeNode.entries, body]
    have inline := (h.spelled.inline id).entries
    have flush exactly := (h.spelled.flush exactly id).entries
    rw [known] at inline flush
    exact (h.given _).bind fun _ type => .get_bind fun _ _ => (h.given _).bind fun _ values =>
      .pure ⟨space.inline, inline_scriptLabel (h.spelled.inline id).label,
        inline_underlyingType type, enumValuesFrom_spelled inline flush values⟩
  · exact h.fails

/-- The class that stands for a receiver is in the graph, or is named with the namespace of
worlds. -/
theorem overrideType {className : Name} (name : Inline className.plain) :
    Meets I J (overrideType className) Inline := by
  refine .get_bind fun s hs => ?_
  split
  · exact (h.qualifiedName _).imp fun _ opens => opens.inline
  · have named {space : String} (inline : Inline space) :
        Inline (space ++ "." ++ className.plain) :=
      inline_append.2 ⟨inline_append.2 ⟨inline, by decide⟩, name⟩
    dsimp only
    split
    · next m declared =>
      exact Meets.bind (Q := Inline) ((h.register (h.world s m hs declared)).map fun _ label =>
        (opens_space label).inline) fun _ space => .pure (named space)
    · refine Meets.bind (Q := Inline) (.pure ?_) fun _ space => .pure (named space)
      unfold Registry.spaceOf
      split
      · next m found =>
        unfold Registry.find? at found
        have same : m.name.alike worldModule := by simpa using List.find?_some found
        have world : Inline worldModule.plain := by decide
        exact (opens_space (Value.inline_of_alike rfl same world)).inline
      · decide

section
variable {m : ExtensionMethod} (fits : MethodFits σ m) (world : OnWorld m)
include fits world

theorem receiverType : Meets I J (receiverType m) Inline := by
  unfold Session.receiverType
  split
  · next className stands =>
    rw [world className stands]
    exact h.overrideType (by decide)
  · obtain ⟨p, hp⟩ := fits.receiver
    rw [hp]
    have mem := List.mem_of_getElem? hp
    have spelled := h.spelled.function ⟨m.library, fits.declared⟩
    have typed := h.scriptType (fits.passable p mem).1 (spelled.names.params p mem)
    exact typed.imp fun _ type => type.1

theorem forwarder : Meets I J (forwarder m) Forwarder.Printed := by
  have good : DeclaredPassable σ m.function := ⟨⟨m.library, fits.declared⟩, fits.passable⟩
  have spelled := h.spelled_function good
  have arguments : ∀ a ∈ m.function.positioned.map fun x => forwarded m x.1 x.2, Inline a := by
    intro a ha
    obtain ⟨x, hx, rfl⟩ := List.mem_map.1 ha
    have mem : x.1 ∈ m.function.params := List.fst_mem_of_mem_zipIdx (List.mem_of_mem_filter hx)
    exact inline_ite (by decide)
      (inline_append.2 ⟨Parameter.inline_passing _, h.inline_parameterOf good mem⟩)
  refine (h.typeAt m.library).bind fun library _ => (h.functionName good _).bind fun _ name =>
    (h.receiverType fits world).bind fun _ receiver =>
      (h.parameters good fun _ => Function.mem_params_of_argumentsBut).bind fun _ shown =>
        (h.qualifiedName _).bind fun _ target => (h.returnType good).bind fun _ type =>
          .pure ⟨name.1, type.1, receiver, shown.1, target.inline, target.led, arguments⟩

end

theorem extensionUnit {m : OutputModule} (label : Inline m.label) {methods : List ExtensionMethod}
    (fits : ∀ x ∈ methods, MethodFits σ x ∧ OnWorld x) :
    Meets I J (extensionUnit m methods) ExtensionUnit.Printed :=
  (Meets.mapM fun x hx => h.forwarder (fits x hx).1 (fits x hx).2).bind fun _ forwarders =>
    .pure ⟨(opens_space label).inline, label, forwarders⟩

end Legible

end Session

end ScriptGlue
