import ScriptGlue.Proofs.Agreement
import ScriptGlue.Proofs.Session.MovedParts
import ScriptGlue.Proofs.Session.Progress

/-! # Twin sessions

Two sessions with one policy over the same types at other positions, in which the modules that may be
registered are known by their names. In the course of batches that began in them the makers of parts
agree: they give the same texts for the same parts, whatever was met and registered before.
-/
namespace ScriptGlue.Session
open ScriptGlue.Action

/-- Sessions that make the same units of the same types. -/
structure Twins (f : TypeId → TypeId) (C : Setting) (s s' : Session) : Prop
    extends Mirrors f s s' where
  exact : C.exact
  packaging : s'.packaging = s.packaging
  knows : Knows C s
  knows' : Knows C s'
  /-- A module is known by its name. -/
  named : ∀ m, C.modules m → ∀ m', C.modules m' → m.name.alike m'.name → m = m'

variable {f : TypeId → TypeId} {C : Setting} {s s' t u : Session}

/-- In the course of two batches the computations give the same result. -/
abbrev Same (C : Setting) (s s' : Session) {α : Type} (a b : Generation α) : Prop :=
  Agree (During C s) (During C s') Eq a b

theorem register_during (exact : C.exact)
    (named : ∀ m, C.modules m → ∀ m', C.modules m' → m.name.alike m'.name → m = m')
    {m : NativeModule} (hm : C.modules m) (ht : During C s t) {known : OutputModule}
    (h : register m t = (.ok known, u)) :
    known.name = m.name ∧ s.packaging.directory m = .ok known.directory := by
  rw [register_apply] at h
  split at h
  · split at h
    · next found =>
      cases h
      obtain ⟨home, hhome, name, directory⟩ := ht.registry exact _ (List.mem_of_find?_eq_some found)
      have alike : known.name.alike m.name := by simpa using List.find?_some found
      rw [← name] at alike
      obtain rfl := named home hhome m hm alike
      exact ⟨name.symm, directory⟩
    · split at h
      · cases h
      · next directory found =>
        split at h
        · cases h
          exact ⟨rfl, ht.packaging ▸ found⟩
        · cases h
  · cases h

namespace Twins
variable (h : Twins f C s s')
include h

theorem register {m : NativeModule} (hm : C.modules m) :
    Same C s s' (register m) (register m) := by
  constructor
  intro t t' x y u u' ht ht' hx hy
  have name := register_during h.exact h.named hm ht hx
  have name' := register_during h.exact h.named hm ht' hy
  refine ⟨((steady_during h.knows).register hm).result ht hx,
    ((steady_during h.knows').register hm).result ht' hy, ?_⟩
  rw [h.packaging, name.2] at name'
  obtain ⟨xname, xdirectory⟩ := x
  obtain ⟨yname, ydirectory⟩ := y
  cases name.1.trans name'.1.symm
  cases name'.2
  rfl

theorem tell (level : Level) (source : Source) (text text' : String) :
    Same C s s' (tell level source text) (tell level source text') :=
  .of_keeps ((steady_during h.knows).tell ..) ((steady_during h.knows').tell ..) fun _ _ => rfl

theorem typeAt_bind {α : Type} {R : α → α → Prop} {id : TypeId} (hid : id < s.store.size)
    {a b : TypeNode → Generation α}
    (hab : Agree (During C s) (During C s') R (a (s.store.type id))
      (b ((s.store.type id).relocate f))) :
    Agree (During C s) (During C s') R (typeAt id >>= a) (typeAt (f id) >>= b) := by
  constructor
  intro t t' x y u u' ht ht' hx hy
  change a (t.store.type id) t = _ at hx
  change b (t'.store.type (f id)) t' = _ at hy
  rw [ht.rules.2] at hx
  rw [ht'.rules.2, h.embeds.node id hid] at hy
  exact hab.results ht ht' hx hy

theorem exportedProperties {id : TypeId} (hid : id < s.store.size) :
    Agree (During C s) (During C s')
      (fun ps qs => ps = s.passedProperties id ∧ qs = ps.map (Property.relocate f))
      (exportedProperties id) (exportedProperties (f id)) := by
  constructor
  intro t t' ps qs u u' ht ht' hps hqs
  refine ⟨((steady_during h.knows).exportedProperties id).result ht hps,
    ((steady_during h.knows').exportedProperties _).result ht' hqs, ?_⟩
  obtain ⟨-, rfl⟩ := exportedProperties_ok (ht.remembers h.exact).accepted hps
  obtain ⟨-, rfl⟩ := exportedProperties_ok (ht'.remembers h.exact).accepted hqs
  rw [ht.rules.passedProperties, ht'.rules.passedProperties, h.passedProperties hid]
  exact ⟨rfl, rfl⟩

theorem exportedFunctions {id : TypeId} (hid : id < s.store.size) :
    Agree (During C s) (During C s')
      (fun a b => a = (s.passedFunctions (s.store.type id), s.passedEvents (s.store.type id)) ∧
        b = (a.1.map (Function.relocate f), a.2.map (Function.relocate f)))
      (exportedFunctions (s.store.type id)) (exportedFunctions ((s.store.type id).relocate f)) := by
  constructor
  intro t t' a b u u' ht ht' ha hb
  refine ⟨((steady_during h.knows).exportedFunctions _).result ht ha,
    ((steady_during h.knows').exportedFunctions _).result ht' hb, ?_⟩
  obtain ⟨rfl, -⟩ := exportedFunctions_ok ha
  obtain ⟨rfl, -⟩ := exportedFunctions_ok hb
  rw [ht.rules.passedFunctions, ht.rules.passedEvents, ht'.rules.passedFunctions,
    ht'.rules.passedEvents, ← h.embeds.node id hid, h.passedFunctions hid, h.passedEvents hid]
  exact ⟨rfl, rfl⟩

theorem canExportFunction (owner : TypeNode) {g : Function}
    (hg : ∀ p ∈ g.params, p.Inside s.store) :
    Same C s s' (canExportFunction owner g) (canExportFunction (owner.relocate f) (g.relocate f)) := by
  constructor
  intro t t' a b u u' ht ht' ha hb
  refine ⟨((steady_during h.knows).canExportFunction ..).result ht ha,
    ((steady_during h.knows').canExportFunction ..).result ht' hb, ?_⟩
  obtain ⟨rfl, -⟩ := canExportFunction_ok ha
  obtain ⟨rfl, -⟩ := canExportFunction_ok hb
  rw [ht.rules.passesFunction, ht'.rules.passesFunction, h.passesFunction owner hg]

theorem isStructBlittable {ref : Option TypeId} (hd : ∀ d ∈ ref, d < s.store.size) :
    Same C s s' (isStructBlittable ref) (isStructBlittable (ref.map f)) := by
  constructor
  intro t t' a b u u' ht ht' ha hb
  refine ⟨((steady_during h.knows).measured ref).result ht ha,
    ((steady_during h.knows').measured _).result ht' hb, ?_⟩
  have native := (isStructBlittable_remembers (ht.remembers h.exact) ha).1
  have native' := (isStructBlittable_remembers (ht'.remembers h.exact) hb).1
  exact Bool.eq_iff_iff.2 (native.trans ((h.refersNative hd).symm.trans native'.symm))

theorem spaceOf {n : TypeNode} (hn : C.modules n.home) :
    Same C s s' (spaceOf n) (spaceOf (n.relocate f)) :=
  (h.register hn).andThen fun _ => .pure rfl

theorem qualifiedName {id : TypeId} (hid : id < s.store.size) :
    Same C s s' (qualifiedName id) (qualifiedName (f id)) :=
  h.typeAt_bind hid ((h.spaceOf (h.knows.home id)).andThen fun _ => .pure rfl)

theorem qualifiedRef {ref : Option TypeId} (hd : ∀ d ∈ ref, d < s.store.size) :
    Same C s s' (qualifiedRef ref) (qualifiedRef (ref.map f)) := by
  cases ref with
  | none => exact .throw_left _ _
  | some id => exact h.qualifiedName (hd id rfl)

theorem simpleType (kind : PropertyKind) (refName : Value) {ref : Option TypeId}
    (hd : ∀ d ∈ ref, d < s.store.size) :
    Same C s s' (simpleType kind refName ref) (simpleType kind refName (ref.map f)) := by
  unfold Session.simpleType
  cases kind
  all_goals first
    | exact .pure rfl
    | exact (h.qualifiedRef hd).andThen fun _ => .pure rfl

omit h in
theorem typeArguments (types : List Name) :
    Same C s s' (typeArguments types) (typeArguments types) := by
  unfold Session.typeArguments
  split
  · exact .pure rfl
  · exact .throw_left _ _

omit h in
mutual

theorem typeName (h : Twins f C s s') : ∀ p : Property, p.Inside s.store →
    Same C s s' (typeName p) (typeName (p.relocate f))
  | ⟨_, kind, _, refName, ref, inner, value, _, _, _⟩, hp => by
    obtain ⟨href, hinner, hvalue⟩ := Property.inside_mk.1 hp
    simp only [Property.relocate, Session.typeName]
    cases kind
    case array | set =>
      exact (elementTypeName h inner hinner).andThen fun _ => (typeArguments _).andThen
        fun _ => .pure rfl
    case map =>
      exact (elementTypeName h inner hinner).andThen fun _ => (elementTypeName h value hvalue).andThen
        fun _ => (typeArguments _).andThen fun _ => .pure rfl
    all_goals exact h.simpleType _ _ href

theorem elementTypeName (h : Twins f C s s') : ∀ p : Option Property,
    (∀ d ∈ elementTargets p, d < s.store.size) →
    Same C s s' (elementTypeName p) (elementTypeName (relocateElement f p))
  | some p, hp => typeName h p hp
  | none, _ => .throw_left _ _

end

theorem scriptType {p : Property} (hp : p.Inside s.store) :
    Same C s s' (scriptType p) (scriptType (p.relocate f)) :=
  (h.typeName p hp).andThen fun _ => .pure rfl

theorem simpleMarshaller (kind : PropertyKind) (refName : Value) {ref : Option TypeId}
    (hd : ∀ d ∈ ref, d < s.store.size) :
    Same C s s' (simpleMarshaller kind refName ref) (simpleMarshaller kind refName (ref.map f)) := by
  unfold Session.simpleMarshaller
  cases kind
  all_goals first
    | exact .pure rfl
    | exact (h.qualifiedRef hd).andThen fun _ => .pure rfl
    | exact (h.isStructBlittable hd).andThen fun _ => (h.qualifiedRef hd).andThen fun _ => .pure rfl

theorem elementTypes {l : List (Option Property)}
    (hl : ∀ e ∈ l, ∀ d ∈ elementTargets e, d < s.store.size) :
    Same C s s' (elementTypes l) (elementTypes (l.map (relocateElement f))) :=
  (Agree.mapM fun e he => h.elementTypeName e (hl e he)).andThen fun _ => typeArguments _

omit h in
mutual

theorem marshallerAt (h : Twins f C s s') : ∀ (p : Property) (slot : String), p.Inside s.store →
    Same C s s' (marshallerAt p slot) (marshallerAt (p.relocate f) slot)
  | ⟨_, kind, _, refName, ref, inner, value, _, _, _⟩, slot, hp => by
    obtain ⟨href, hinner, hvalue⟩ := Property.inside_mk.1 hp
    simp only [Property.relocate, Session.marshallerAt]
    cases kind
    case array | set =>
      exact (elementMarshaller h inner hinner).andThen fun _ =>
        (h.elementTypes (l := [inner]) (by simpa using hinner)).andThen fun _ => .pure rfl
    case map =>
      exact (elementMarshaller h inner hinner).andThen fun _ =>
        (elementMarshaller h value hvalue).andThen fun _ =>
          (h.elementTypes (l := [inner, value]) (by simpa using ⟨hinner, hvalue⟩)).andThen
            fun _ => .pure rfl
    all_goals exact h.simpleMarshaller _ _ href

theorem elementMarshaller (h : Twins f C s s') : ∀ p : Option Property,
    (∀ d ∈ elementTargets p, d < s.store.size) →
    Same C s s' (elementMarshaller p) (elementMarshaller (relocateElement f p))
  | some p, hp => by
    simp only [Session.elementMarshaller, relocateElement, Property.relocate_name]
    exact marshallerAt h p _ hp
  | none, _ => .throw_left _ _

end

theorem marshaller {p : Property} (slot : String) (hp : p.Inside s.store) :
    Same C s s' (marshaller p slot) (marshaller (p.relocate f) slot) := by
  unfold Session.marshaller
  rw [Property.relocate_label]
  exact h.marshallerAt p _ hp

theorem transfer {p : Property} (slot owner buffer : String) (displacement : Displacement)
    (hp : p.Inside s.store) : Same C s s' (transfer p slot owner buffer displacement)
      (transfer (p.relocate f) slot owner buffer displacement) :=
  (h.marshaller slot hp).andThen fun _ => .pure (by simp)

theorem readInto {p : Property} (slot owner buffer : String) (displacement : Displacement)
    (assignment : String) (hp : p.Inside s.store) :
    Same C s s' (readInto p slot owner buffer displacement assignment)
      (readInto (p.relocate f) slot owner buffer displacement assignment) := by
  refine (h.transfer slot owner buffer displacement hp).andThen fun _ => ?_
  rw [Property.relocate_isFixedArray]
  exact .ite (fun _ => (h.scriptType hp).andThen fun _ => .pure rfl)
    fun _ => (Agree.pure rfl).andThen fun _ => .pure rfl

theorem writeFrom {p : Property} (slot owner buffer : String) (displacement : Displacement)
    (source : String) (hp : p.Inside s.store) :
    Same C s s' (writeFrom p slot owner buffer displacement source)
      (writeFrom (p.relocate f) slot owner buffer displacement source) :=
  (h.transfer slot owner buffer displacement hp).andThen fun _ => .pure rfl

theorem parameter {p : Property} (hp : p.Inside s.store) :
    Same C s s' (parameter p) (parameter (p.relocate f)) := by
  refine (h.scriptType hp).andThen fun _ => ?_
  rw [parameterName_relocate]
  exact (Agree.same_ofExcept _).andThen fun _ => .pure (by simp)

section
variable {g : Function} (hg : ∀ p ∈ g.params, p.Inside s.store)
include hg

omit h in
theorem argument_inside {p : Property} (hp : p ∈ g.arguments) : p.Inside s.store :=
  hg p (List.mem_of_mem_filter hp)

theorem returnType : Same C s s' (returnType g) (returnType (g.relocate f)) := by
  unfold Session.returnType
  rw [Function.relocate_returned?]
  cases returned : g.returned? with
  | none => exact .pure rfl
  | some p => exact h.scriptType (hg p (List.mem_of_find?_eq_some returned))

theorem parameters : Same C s s' (g.arguments.mapM Session.parameter)
    ((g.relocate f).arguments.mapM Session.parameter) := by
  rw [Function.relocate_arguments]
  exact Agree.mapM fun p hp => h.parameter (argument_inside hg hp)

theorem wrapperExchange : Same C s s' (wrapperExchange g) (wrapperExchange (g.relocate f)) := by
  have inside {p : Property} {test : Property → Bool} (hp : p ∈ g.arguments.filter test) :
      p.Inside s.store := argument_inside hg (List.mem_of_mem_filter hp)
  unfold Session.wrapperExchange
  rw [inputsOf_relocate, outputsOf_relocate, Function.relocate_returned?, Option.toList_map]
  refine (Agree.mapM fun p hp => ?_).andThen fun _ => (Agree.mapM fun p hp => ?_).andThen fun _ =>
    (Agree.mapM fun p hp => ?_).andThen fun _ => .pure rfl
  · simpa using h.writeFrom _ _ _ _ _ (inside hp)
  · simpa using h.readInto _ _ _ _ _ (inside hp)
  · simpa using h.readInto _ _ _ _ _ (hg p (List.mem_of_find?_eq_some (Option.mem_toList.1 hp)))

theorem wrapper (owner : Name) : Same C s s' (wrapper g owner) (wrapper (g.relocate f) owner) := by
  unfold Session.wrapper
  refine (Agree.same_ofExcept _).andThen fun _ => (h.returnType hg).andThen fun _ =>
    (h.parameters hg).andThen fun _ => ?_
  rw [Function.relocate_params, List.isEmpty_map]
  exact .ite (fun _ => (Agree.pure rfl).andThen fun _ => .pure (by simp))
    fun _ => ((h.wrapperExchange hg).map some).andThen fun _ => .pure (by simp)

theorem eventInput {p : Property} (hp : p ∈ g.arguments) :
    Same C s s' (eventInput g p) (eventInput (g.relocate f) (p.relocate f)) := by
  have inside := argument_inside hg hp
  refine (h.scriptType inside).andThen fun type => ?_
  simp only [Property.relocate_isPureOut, parameterText_relocate, Function.relocate_label,
    slotOf_relocate, parameterOffset_relocate]
  exact .ite (fun _ => .pure rfl) fun _ => h.readInto _ _ _ _ _ inside

theorem eventStub (owner : Name) :
    Same C s s' (eventStub g owner) (eventStub (g.relocate f) owner) := by
  unfold Session.eventStub
  refine (Agree.same_ofExcept _).andThen fun _ => (h.returnType hg).andThen fun _ =>
    (h.parameters hg).andThen fun _ => ?_
  rw [Function.relocate_arguments, outputsOf_relocate, Function.relocate_returned?,
    Option.toList_map]
  refine (Agree.mapM fun p hp => h.eventInput hg hp).andThen fun _ =>
    (Agree.mapM fun p hp => ?_).andThen fun _ =>
      (Agree.mapM fun p hp => ?_).andThen fun _ => .pure (by simp)
  · simpa using h.writeFrom _ _ _ _ _ (argument_inside hg (List.mem_of_mem_filter hp))
  · simpa using h.writeFrom _ _ _ _ _ (hg p (List.mem_of_find?_eq_some (Option.mem_toList.1 hp)))

theorem interfaceMethod (owner : Name) :
    Same C s s' (interfaceMethod g owner) (interfaceMethod (g.relocate f) owner) :=
  (Agree.same_ofExcept _).andThen fun _ => (h.returnType hg).andThen fun _ =>
    (h.parameters hg).andThen fun _ => .pure rfl

end

theorem wrapperProperty {p : Property} (name : String) (relaxed forced : Bool)
    (hp : p.Inside s.store) : Same C s s' (wrapperProperty p name relaxed forced)
      (wrapperProperty (p.relocate f) name relaxed forced) := by
  refine (h.scriptType hp).andThen fun _ => ?_
  rw [Property.relocate_label]
  exact (h.marshaller _ hp).andThen fun _ => .pure (by simp)

theorem mirrorField {p : Property} (name : String) (relaxed : Bool) (hp : p.Inside s.store) :
    Same C s s' (mirrorField p name relaxed) (mirrorField (p.relocate f) name relaxed) := by
  refine (h.typeName p hp).andThen fun _ => ?_
  rw [Property.relocate_isFixedArray]
  exact (Agree.same_ofExcept _).andThen fun _ => .pure (by simp)

end Twins

end ScriptGlue.Session
