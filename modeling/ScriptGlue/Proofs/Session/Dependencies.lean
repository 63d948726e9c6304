import ScriptGlue.Proofs.Graph.Relocation
import ScriptGlue.Proofs.ReceiverChoice
import ScriptGlue.Proofs.Session.Gate
import ScriptGlue.Session.Export

/-! # Dependencies

What an export of a type leads to, as functions of the policy and the types alone: whether the type
is passed over, whether its own gate admits it, and the types its unit needs. All of it is the same
wherever the types lie.
-/
namespace ScriptGlue

mutual

/-- The structs and enums a property and its elements hold by value. -/
def Property.held : Property → List TypeId
  | ⟨_, kind, _, _, ref, inner, value, _, _, _⟩ =>
    (if kind = .struct ∨ kind = .enum then ref else none).toList ++ heldByElement inner ++
      heldByElement value

def heldByElement : Option Property → List TypeId
  | some p => Property.held p
  | none => []

end

namespace Session

/-- The type is passed over whatever asks for it. -/
def Skips (s : Session) (id : TypeId) : Prop := shouldSkip (s.store.type id) = .ok true

def Stays (s : Session) (id : TypeId) : Prop := shouldSkip (s.store.type id) = .ok false

/-- The type's own gate admits it; interfaces are always admitted. -/
def admits (s : Session) (id : TypeId) : Bool :=
  match (s.store.type id).variant with
  | .plainClass | .interface => isInterface s.store id || s.shouldExportClass id
  | .struct => s.shouldExportStruct id
  | .enum => s.shouldExportEnum id

/-- What the unit of a class needs: its super and interfaces, and what its exported properties,
functions and events hold. -/
def classDependencies (s : Session) (id : TypeId) : List TypeId :=
  let t := s.store.type id
  t.super.toList ++ implementedInterfaces s.store t ++
    (s.passedProperties id).flatMap Property.held ++
    (s.passedFunctions t ++ s.passedEvents t).flatMap fun f => f.params.flatMap Property.held

/-- What the unit of a type needs, in the order in which it is exported. -/
def dependencies (s : Session) (id : TypeId) : List TypeId :=
  match (s.store.type id).variant with
  | .plainClass | .interface => if isInterface s.store id then [] else s.classDependencies id
  | .struct => (s.passedProperties id).flatMap Property.held
  | .enum => []

def methodOf? (library : TypeId) (f : Function) : Option ExtensionMethod :=
  if f.has .static then
    (Receiver.resolve (some Receiver.worldClass) f).map fun receiver =>
      { function := f, receiver, library }
  else none

/-- The extension methods that the export of a type finds: those of a library class. -/
def methodsOf (s : Session) (id : TypeId) : List ExtensionMethod :=
  match (s.store.type id).variant with
  | .plainClass | .interface =>
    if !isInterface s.store id && isChildOf s.store id functionLibraryClass then
      (s.passedFunctions (s.store.type id)).filterMap (methodOf? id)
    else []
  | _ => []

end Session

theorem Session.Stays.not_skips {s : Session} {id : TypeId} (h : Stays s id) : ¬Skips s id := by
  intro skips
  cases h.symm.trans skips

theorem Session.lt_size_of_shouldSkip {s : Session} {id : TypeId} {b : Bool}
    (h : shouldSkip (s.store.type id) = .ok b) : id < s.store.size := by
  by_contra outside
  rw [TypeStore.type_of_size_le (Nat.le_of_not_lt outside)] at h
  cases h

mutual

theorem Property.held_subset_targets : ∀ (p : Property), ∀ d ∈ p.held, d ∈ p.targets
  | ⟨_, kind, _, _, ref, inner, value, _, _, _⟩, d, hd => by
    simp only [Property.held, Property.targets, List.mem_append] at hd ⊢
    obtain (hd | hd) | hd := hd
    · split at hd
      · exact .inl (.inl hd)
      · cases hd
    · exact .inl (.inr (heldByElement_subset_targets inner d hd))
    · exact .inr (heldByElement_subset_targets value d hd)

theorem heldByElement_subset_targets :
    ∀ (p : Option Property), ∀ d ∈ heldByElement p, d ∈ elementTargets p
  | some p, d, hd => Property.held_subset_targets p d hd
  | none, _, hd => hd

end

namespace Session
variable {s : Session} (h : s.store.Linked) {id d : TypeId} (hid : id < s.store.size)
include h hid

theorem implementedInterface_lt (hd : d ∈ implementedInterfaces s.store (s.store.type id)) :
    d < s.store.size :=
  h.interfaces hid (List.mem_of_mem_filter hd)

theorem passedProperty_inside {p : Property} (hp : p ∈ s.passedProperties id) :
    p.Inside s.store :=
  h.property hid (List.mem_of_mem_filter hp)

theorem passedFunction_inside {g : Function} (hg : g ∈ s.passedFunctions (s.store.type id))
    {p : Property} (hp : p ∈ g.params) : p.Inside s.store :=
  h.param hid (List.mem_of_mem_filter hg) hp

omit h hid in
/-- What holds of the events so far and of a new one holds of all that are joined. -/
theorem joinEvent_forall {good : Function → Prop} {interface : TypeNode} {events : List Function}
    {g : Function} (known : ∀ e ∈ events, good e) (hg : good g) :
    ∀ e ∈ s.joinEvent interface events g, good e := by
  unfold joinEvent
  split
  · exact known
  · split
    · simpa [or_imp, forall_and] using ⟨known, hg⟩
    · exact known

theorem passedEvent_inside {g : Function} (hg : g ∈ s.passedEvents (s.store.type id))
    {p : Property} (hp : p ∈ g.params) : p.Inside s.store := by
  let Inside (events : List Function) : Prop := ∀ e ∈ events, ∀ p ∈ e.params, p.Inside s.store
  have own : Inside (s.ownEvents (s.store.type id)) := fun e he p hp =>
    h.param hid (List.mem_of_mem_filter he) hp
  have all : Inside (s.passedEvents (s.store.type id)) := by
    refine List.foldlRecOn (motive := Inside) _ _ own fun events known i hi => ?_
    refine List.foldlRecOn (motive := Inside) _ _ known fun events known e he => ?_
    exact joinEvent_forall known fun p hp => h.param (implementedInterface_lt h hid hi) he hp
  exact all g hg p hp

end Session

theorem Property.Inside.ref {store : TypeStore} {p : Property} (h : p.Inside store) {d : TypeId}
    (hd : p.ref = some d) : d < store.size :=
  h d (by cases p; cases hd; simp [targets])

theorem Property.Inside.element {store : TypeStore} {p e : Property} (h : p.Inside store)
    (he : some e ∈ p.elements) : e.Inside store := by
  intro d hd
  refine h d ?_
  cases p with
  | mk name kind dim refName ref inner value flags metadata owner =>
    have found : inner = some e ∨ value = some e := by
      simp only [elements] at he
      split at he <;> simp_all [eq_comm]
    simp only [targets, List.mem_append]
    obtain rfl | rfl := found
    · exact .inl (.inr hd)
    · exact .inr hd

mutual

theorem Property.held_relocate (f : TypeId → TypeId) :
    ∀ p : Property, (p.relocate f).held = p.held.map f
  | ⟨_, kind, _, _, ref, inner, value, _, _, _⟩ => by
    simp only [Property.relocate, Property.held, heldByElement_relocate f inner,
      heldByElement_relocate f value, List.map_append]
    split <;> cases ref <;> rfl

theorem heldByElement_relocate (f : TypeId → TypeId) :
    ∀ p : Option Property, heldByElement (relocateElement f p) = (heldByElement p).map f
  | some p => Property.held_relocate f p
  | none => rfl

end

namespace Embeds
variable {f : TypeId → TypeId} {σ τ : TypeStore} (h : Embeds f σ τ)
include h

theorem refSatisfies {p : Property} (hp : p.Inside σ) {test : TypeNode → Bool}
    (moved : ∀ t : TypeNode, test (t.relocate f) = test t) :
    (p.relocate f).refSatisfies τ test = p.refSatisfies σ test := by
  unfold Property.refSatisfies
  rw [Property.relocate_ref]
  cases ref : p.ref with
  | none => rfl
  | some d =>
    simp only [Option.map_some, Option.any_some]
    rw [h.node d (hp.ref ref), moved]

theorem isHandledAlone (policy : Policy) {p : Property} (hp : p.Inside σ) :
    (p.relocate f).isHandledAlone policy τ = p.isHandledAlone policy σ := by
  unfold Property.isHandledAlone
  rw [Property.relocate_kind, Property.relocate_refName]
  split <;> first | rfl | exact h.refSatisfies hp fun t => by simp

theorem isHandled (policy : Policy) {p : Property} (hp : p.Inside σ) :
    (p.relocate f).isHandled policy τ = p.isHandled policy σ := by
  unfold Property.isHandled
  rw [Property.relocate_kind, h.isHandledAlone policy hp, Property.relocate_elements,
    List.all_map]
  split
  · rw [Bool.eq_iff_iff, List.all_eq_true, List.all_eq_true]
    refine forall₂_congr fun e he => ?_
    cases e with
    | none => rfl
    | some e =>
      simp [relocateElement, Property.isHandledElement, h.isHandledAlone policy (hp.element he)]
  · rfl

end Embeds

def ExtensionMethod.relocate (f : TypeId → TypeId) (m : ExtensionMethod) : ExtensionMethod :=
  { m with function := m.function.relocate f, library := f m.library }

theorem ExtensionMethod.map_relocate_id (ms : List ExtensionMethod) : ms.map (relocate id) = ms :=
  List.map_id'' (fun m => by rw [relocate, Function.relocate_id]; rfl) ms

theorem Receiver.resolve_relocate (f : TypeId → TypeId) (world : Option Name) (g : Function) :
    Receiver.resolve world (g.relocate f) = Receiver.resolve world g := by
  have names (rule : Rule) (p : Property) :
      rule.names (g.relocate f) (p.relocate f) = rule.names g p := by
    cases rule <;> simp [Rule.names, Function.relocate]
  have find (rule : Rule) :
      rule.find? (g.relocate f) = (rule.find? g).map (Prod.map (Property.relocate f) id) := by
    rw [Rule.find?, Rule.find?, Function.relocate_params, List.zipIdx_map, List.find?_map]
    exact congrArg _ (congrArg (g.params.zipIdx.find? ·) (funext fun a => names rule a.1))
  have candidate :
      candidate? (g.relocate f) = (candidate? g).map (Prod.map (Property.relocate f) id) := by
    simp only [candidate?, rules, List.findSome?_cons, List.findSome?_nil, find]
    cases Rule.find? g .scriptMethod <;> cases Rule.find? g .defaultToSelf <;>
      cases Rule.find? g .worldHint <;> cases Rule.find? g .convention <;> rfl
  rw [resolve_eq, resolve_eq, candidate]
  cases candidate? g with
  | none => rfl
  | some found => simp [ofCandidate, onWorld, Function.relocate]

namespace Session

/-- The same policy over the same types at other positions. -/
structure Mirrors (f : TypeId → TypeId) (s t : Session) : Prop where
  policy : t.policy = s.policy
  embeds : Embeds f s.store t.store

theorem methodOf?_relocate (f : TypeId → TypeId) (library : TypeId) (g : Function) :
    methodOf? (f library) (g.relocate f) = (methodOf? library g).map (ExtensionMethod.relocate f) := by
  unfold methodOf?
  rw [Receiver.resolve_relocate, Function.relocate_has]
  split
  · cases Receiver.resolve (some Receiver.worldClass) g <;> rfl
  · rfl

namespace Mirrors
variable {f : TypeId → TypeId} {s t : Session} (h : Mirrors f s t)
include h

theorem propertyVerdict (owner : TypeNode) {p : Property} (hp : p.Inside s.store) :
    t.propertyVerdict (owner.relocate f) (p.relocate f) = s.propertyVerdict owner p := by
  simp [Session.propertyVerdict, isSupported, isVisible, propertyRole, h.policy,
    h.embeds.isHandled s.policy hp]

theorem passesProperty (owner : TypeNode) {p : Property} (hp : p.Inside s.store) :
    t.passesProperty (owner.relocate f) (p.relocate f) = s.passesProperty owner p := by
  simp only [Session.passesProperty, h.propertyVerdict owner hp]

theorem canPassAs {p : Property} (hp : p.Inside s.store) (role : Role) :
    t.canPassAs (p.relocate f) role = s.canPassAs p role := by
  simp [Session.canPassAs, h.policy, h.embeds.isHandled s.policy hp]

theorem passesFunction (owner : TypeNode) {g : Function}
    (hg : ∀ p ∈ g.params, p.Inside s.store) :
    t.passesFunction (owner.relocate f) (g.relocate f) = s.passesFunction owner g := by
  have admitted : admitsFunction t.policy owner.name (g.relocate f) =
      admitsFunction s.policy owner.name g := by rw [h.policy]; rfl
  have params : (g.relocate f).params.all (fun p =>
        t.canPassAs p (parameterRole (g.has .blueprintEvent) p).1) =
      g.params.all fun p => s.canPassAs p (parameterRole (g.has .blueprintEvent) p).1 := by
    rw [Function.relocate_params, List.all_map, Bool.eq_iff_iff, List.all_eq_true,
      List.all_eq_true]
    refine forall₂_congr fun p hp => ?_
    simp only [Function.comp_apply]
    rw [h.canPassAs (hg p hp)]
    simp [parameterRole]
  simp only [Session.passesFunction, TypeNode.relocate_name, Function.relocate_has, admitted, params]

section
variable {id : TypeId} (hid : id < s.store.size)
include hid

theorem passedProperties :
    t.passedProperties (f id) = (s.passedProperties id).map (Property.relocate f) := by
  unfold Session.passedProperties
  rw [h.embeds.node id hid, TypeNode.relocate_properties?]
  have moved : ((s.store.type id).properties?.map (List.map (Property.relocate f))).getD [] =
      ((s.store.type id).properties?.getD []).map (Property.relocate f) := by
    cases (s.store.type id).properties? <;> rfl
  rw [moved, List.filter_map]
  refine congrArg _ (List.filter_congr fun p hp => ?_)
  exact h.passesProperty _ (h.embeds.linked.property hid hp)

theorem passedFunctions :
    t.passedFunctions (t.store.type (f id)) =
      (s.passedFunctions (s.store.type id)).map (Function.relocate f) := by
  unfold Session.passedFunctions
  rw [h.embeds.node id hid, TypeNode.relocate_functions, List.filter_map]
  refine congrArg _ (List.filter_congr fun g hg => ?_)
  simp only [Function.comp_apply, Function.relocate_has]
  rw [h.passesFunction _ fun p hp => h.embeds.linked.param hid hg hp]

theorem ownEvents :
    t.ownEvents (t.store.type (f id)) =
      (s.ownEvents (s.store.type id)).map (Function.relocate f) := by
  unfold Session.ownEvents
  rw [h.embeds.node id hid, TypeNode.relocate_functions, List.filter_map]
  refine congrArg _ (List.filter_congr fun g hg => ?_)
  simp only [Function.comp_apply, Function.relocate_has]
  rw [h.passesFunction _ fun p hp => h.embeds.linked.param hid hg hp]

theorem joinEvents (events : List Function) :
    t.joinEvents (events.map (Function.relocate f)) (f id) =
      (s.joinEvents events id).map (Function.relocate f) := by
  have inside : ∀ g ∈ (s.store.type id).functions, ∀ p ∈ g.params, p.Inside s.store :=
    fun g hg p hp => h.embeds.linked.param hid hg hp
  unfold Session.joinEvents
  rw [h.embeds.node id hid, TypeNode.relocate_functions]
  generalize (s.store.type id).functions = gs at inside
  induction gs generalizing events with
  | nil => rfl
  | cons g gs ih =>
    have step : t.joinEvent ((s.store.type id).relocate f) (events.map (Function.relocate f))
        (g.relocate f) = (s.joinEvent (s.store.type id) events g).map (Function.relocate f) := by
      have taken : (events.map (Function.relocate f)).any (fun e => e.name.same g.name) =
          events.any fun e => e.name.same g.name := by
        rw [List.any_map]
        rfl
      simp only [joinEvent, Function.relocate_has, Function.relocate_name, taken,
        h.passesFunction _ (inside g List.mem_cons_self)]
      split
      · rfl
      · split <;> simp
    rw [List.map_cons, List.foldl_cons, step]
    exact ih _ fun g hg => inside g (List.mem_cons_of_mem _ hg)

theorem implementedInterfaces :
    implementedInterfaces t.store (t.store.type (f id)) =
      (implementedInterfaces s.store (s.store.type id)).map f := by
  unfold Session.implementedInterfaces
  rw [h.embeds.node id hid, TypeNode.relocate_interfaces, List.filter_map]
  refine congrArg _ (List.filter_congr fun d hd => ?_)
  simp [h.embeds.node d (h.embeds.linked.interfaces hid hd)]

theorem passedEvents :
    t.passedEvents (t.store.type (f id)) =
      (s.passedEvents (s.store.type id)).map (Function.relocate f) := by
  have joined (ids : List TypeId) (inside : ∀ d ∈ ids, d < s.store.size) (events : List Function) :
      (ids.map f).foldl t.joinEvents (events.map (Function.relocate f)) =
        (ids.foldl s.joinEvents events).map (Function.relocate f) := by
    induction ids generalizing events with
    | nil => rfl
    | cons d ids ih =>
      rw [List.map_cons, List.foldl_cons, List.foldl_cons,
        h.joinEvents (inside d List.mem_cons_self)]
      exact ih (fun d hd => inside d (List.mem_cons_of_mem _ hd)) _
  unfold Session.passedEvents
  rw [h.implementedInterfaces hid, h.ownEvents hid]
  exact joined _ (fun d hd => implementedInterface_lt h.embeds.linked hid hd) _

theorem skips : Skips t (f id) ↔ Skips s id := by
  unfold Skips
  rw [h.embeds.node id hid]
  exact Iff.rfl

theorem stays : Stays t (f id) ↔ Stays s id := by
  unfold Stays
  rw [h.embeds.node id hid]
  exact Iff.rfl

theorem shouldExportClass : t.shouldExportClass (f id) = s.shouldExportClass id := by
  simp [Session.shouldExportClass, canDerive, h.policy, h.embeds.node id hid,
    h.embeds.isChildOf hid, h.embeds.any_ancestor hid fun n => n.same subsystemClass]

theorem admits : t.admits (f id) = s.admits id := by
  simp [Session.admits, shouldExportStruct, shouldExportEnum, h.shouldExportClass hid,
    h.embeds.isInterface hid, h.policy, h.embeds.node id hid]

omit h hid in
theorem flatMap_held (ps : List Property) :
    (ps.map (Property.relocate f)).flatMap Property.held = (ps.flatMap Property.held).map f := by
  rw [List.flatMap_map, List.map_flatMap]
  exact congrArg (ps.flatMap ·) (funext (Property.held_relocate f))

theorem classDependencies : t.classDependencies (f id) = (s.classDependencies id).map f := by
  have params (gs : List Function) : (gs.map (Function.relocate f)).flatMap (fun g =>
      g.params.flatMap Property.held) = (gs.flatMap fun g => g.params.flatMap Property.held).map f := by
    rw [List.flatMap_map, List.map_flatMap]
    exact congrArg (gs.flatMap ·) (funext fun g => flatMap_held g.params)
  have super : (t.store.type (f id)).super.toList = (s.store.type id).super.toList.map f := by
    rw [h.embeds.node id hid, TypeNode.relocate_super]
    cases (s.store.type id).super <;> rfl
  simp only [Session.classDependencies, super, h.passedProperties hid, h.passedFunctions hid,
    h.passedEvents hid, h.implementedInterfaces hid, flatMap_held, ← List.map_append, params]

theorem dependencies : t.dependencies (f id) = (s.dependencies id).map f := by
  unfold Session.dependencies
  rw [h.passedProperties hid, flatMap_held, h.classDependencies hid, h.embeds.isInterface hid,
    h.embeds.node id hid, TypeNode.relocate_variant]
  split
  · split <;> rfl
  · split <;> rfl
  · rfl
  · rfl

theorem methodsOf : t.methodsOf (f id) = (s.methodsOf id).map (ExtensionMethod.relocate f) := by
  have found : ((s.passedFunctions (s.store.type id)).map (Function.relocate f)).filterMap
      (methodOf? (f id)) = ((s.passedFunctions (s.store.type id)).filterMap (methodOf? id)).map
        (ExtensionMethod.relocate f) := by
    rw [List.filterMap_map, List.map_filterMap]
    exact congrArg (List.filterMap · _) (funext fun g => methodOf?_relocate f id g)
  unfold Session.methodsOf
  rw [h.passedFunctions hid, found, h.embeds.isInterface hid, h.embeds.isChildOf hid,
    h.embeds.node id hid, TypeNode.relocate_variant]
  split
  · split <;> rfl
  · split <;> rfl
  · rfl

end

end Mirrors

end Session

end ScriptGlue
