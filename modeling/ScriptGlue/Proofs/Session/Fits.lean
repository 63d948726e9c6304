import ScriptGlue.Proofs.Names
import ScriptGlue.Proofs.Session.Dependencies

/-! # Members that fit

What passing a gate says of a member apart from the policy: the reference it needs is there and of
the right variant, its elements are there and are no containers, and it is a single value unless its
kind can live in a fixed-size array. The names of a graph are texts if the document says so.
-/
namespace ScriptGlue

def RefersRight (σ : TypeStore) (kind : PropertyKind) (ref : Option TypeId) : Prop :=
  match kind with
  | .enum => ∃ d, ref = some d ∧ (σ.type d).isEnum
  | .struct => ∃ d, ref = some d ∧ (σ.type d).isPlainStruct
  | .object | .subclass | .softObject | .weakObject | .interface =>
    ∃ d, ref = some d ∧ (σ.type d).isClass
  | _ => True

theorem RefersRight.properties {σ : TypeStore} {ref : Option TypeId}
    (h : RefersRight σ .struct ref) : ∃ d, ref = some d ∧ (σ.type d).properties?.isSome := by
  obtain ⟨d, hd, struct⟩ := h
  refine ⟨d, hd, ?_⟩
  unfold TypeNode.isPlainStruct TypeNode.variant at struct
  unfold TypeNode.properties?
  split <;> simp_all

namespace Property
variable {σ : TypeStore} {p : Property}

/-- An element of a container that is neither a container nor a delegate. -/
structure IsElement (σ : TypeStore) (p : Property) : Prop where
  single : p.kind.isContainer = false
  value : p.kind.isDelegate = false
  refers : RefersRight σ p.kind p.ref

structure Fits (σ : TypeStore) (p : Property) : Prop where
  refers : RefersRight σ p.kind p.ref
  elements : p.kind.isContainer → ∀ e ∈ p.elements, ∃ q, e = some q ∧ q.IsElement σ

theorem IsElement.fits (h : p.IsElement σ) : p.Fits σ where
  refers := h.refers
  elements container := by simp [h.single] at container

/-- What the property needs is there, and if it is an array of fixed size its kind can live in
one. -/
structure Passable (σ : TypeStore) (p : Property) : Prop extends p.Fits σ where
  fixed : p.isFixedArray → p.kind.supports .fixedArray

theorem Passable.value_of_fixed (h : p.Passable σ) (fixed : p.isFixedArray) :
    p.kind.isDelegate = false := by
  have supported := h.fixed fixed
  cases kind : p.kind <;> first | rfl | (rw [kind] at supported; cases supported)

theorem exists_of_refSatisfies {test : TypeNode → Bool} (h : p.refSatisfies σ test) :
    ∃ d, p.ref = some d ∧ test (σ.type d) := by
  unfold refSatisfies at h
  cases ref : p.ref with
  | none => simp [ref] at h
  | some d => exact ⟨d, rfl, by simpa [ref] using h⟩

theorem exists_of_refSatisfies_and {test other : TypeNode → Bool}
    (h : p.refSatisfies σ fun t => test t && other t) : ∃ d, p.ref = some d ∧ test (σ.type d) := by
  obtain ⟨d, hd, both⟩ := exists_of_refSatisfies h
  exact ⟨d, hd, (Bool.and_eq_true_iff.1 both).1⟩

theorem refersRight_of_isHandledAlone {policy : Policy} (h : p.isHandledAlone policy σ) :
    RefersRight σ p.kind p.ref := by
  unfold isHandledAlone at h
  unfold RefersRight
  cases kind : p.kind <;> simp only [kind] at h ⊢
  all_goals first
    | exact exists_of_refSatisfies_and h
    | exact exists_of_refSatisfies h

theorem isElement_of_isHandledElement {policy : Policy} {e : Option Property}
    (h : isHandledElement policy σ e) : ∃ q, e = some q ∧ q.IsElement σ := by
  cases e with
  | none => cases h
  | some q =>
    simp only [isHandledElement, PropertyKind.supports, Bool.and_eq_true, Bool.not_eq_true'] at h
    exact ⟨q, rfl, h.1.1, h.1.2.1, refersRight_of_isHandledAlone h.2⟩

theorem fits_of_isHandled {policy : Policy} (h : p.isHandled policy σ) : p.Fits σ := by
  unfold isHandled at h
  split at h
  · next container =>
    refine ⟨?_, fun _ e he => isElement_of_isHandledElement (List.all_eq_true.1 h e he)⟩
    unfold RefersRight
    cases kind : p.kind <;> first | trivial | simp [kind, PropertyKind.isContainer] at container
  · next single => exact ⟨refersRight_of_isHandledAlone h, fun container => absurd container single⟩

end Property

section
variable {σ τ : TypeStore} (same : ∀ id < σ.size, τ.type id = σ.type id)
include same

theorem RefersRight.grow {kind : PropertyKind} {ref : Option TypeId}
    (inside : ∀ d ∈ ref, d < σ.size) (h : RefersRight σ kind ref) : RefersRight τ kind ref := by
  unfold RefersRight at h ⊢
  split at h
  all_goals
    try
      obtain ⟨d, hd, good⟩ := h
      exact ⟨d, hd, (same d (inside d hd)).symm ▸ good⟩
  all_goals trivial

theorem Property.Fits.grow {p : Property} (inside : p.Inside σ) (h : p.Fits σ) : p.Fits τ where
  refers := h.refers.grow same fun _ hd => inside.ref hd
  elements container e he := by
    obtain ⟨q, rfl, element⟩ := h.elements container e he
    exact ⟨q, rfl, element.single, element.value,
      element.refers.grow same fun _ hd => (inside.element he).ref hd⟩

end

/-- All parameters are single values that have what they need. -/
def Function.Passable (σ : TypeStore) (f : Function) : Prop :=
  ∀ p ∈ f.params, p.Fits σ ∧ p.arrayDim = 1

namespace Session
variable {s : Session} {id : TypeId}

theorem passable_of_passesProperty {owner : TypeNode} {p : Property}
    (h : s.passesProperty owner p) : p.Passable s.store := by
  have supported : s.isSupported owner p := by
    simp only [passesProperty, propertyVerdict] at h
    split at h
    · cases h
    · split at h
      · cases h
      · split at h
        · assumption
        · cases h
  simp only [isSupported, Bool.and_eq_true, Bool.not_eq_true', Bool.and_eq_false_iff] at supported
  refine ⟨Property.fits_of_isHandled supported.2, fun fixed => ?_⟩
  simpa [fixed] using supported.1.2

theorem passable_of_passesFunction {owner : TypeNode} {f : Function}
    (h : s.passesFunction owner f) : f.Passable s.store := by
  intro p hp
  simp only [passesFunction, Bool.and_eq_true] at h
  have passes := List.all_eq_true.1 h.2 p hp
  simp only [canPassAs, Bool.and_eq_true, decide_eq_true_eq] at passes
  exact ⟨Property.fits_of_isHandled passes.2, passes.1.1⟩

def PassedOf (σ : TypeStore) (id : TypeId) (ps : List Property) : Prop :=
  ∃ declared, (σ.type id).properties? = some declared ∧
    ∀ p ∈ ps, p ∈ declared ∧ p.Passable σ

theorem passedOf_passedProperties {declared : List Property}
    (h : (s.store.type id).properties? = some declared) :
    PassedOf s.store id (s.passedProperties id) := by
  refine ⟨declared, h, fun p hp => ?_⟩
  rw [passedProperties, h, Option.getD_some] at hp
  obtain ⟨hp, passes⟩ := List.mem_filter.1 hp
  exact ⟨hp, passable_of_passesProperty passes⟩

/-- A type of the store declares the function, and it is passable. -/
structure DeclaredPassable (σ : TypeStore) (f : Function) : Prop where
  declared : ∃ d, f ∈ (σ.type d).functions
  passable : f.Passable σ

theorem declaredPassable_of_passed {f : Function}
    (hf : f ∈ s.passedFunctions (s.store.type id)) : DeclaredPassable s.store f := by
  obtain ⟨hf, passes⟩ := List.mem_filter.1 hf
  simp only [Bool.and_eq_true] at passes
  exact ⟨⟨id, hf⟩, passable_of_passesFunction passes.1⟩

theorem declaredPassable_of_event {f : Function}
    (hf : f ∈ s.passedEvents (s.store.type id)) : DeclaredPassable s.store f := by
  let Good (events : List Function) : Prop := ∀ e ∈ events, DeclaredPassable s.store e
  have own : Good (s.ownEvents (s.store.type id)) := fun e he => by
    obtain ⟨he, passes⟩ := List.mem_filter.1 he
    simp only [Bool.and_eq_true] at passes
    exact ⟨⟨id, he⟩, passable_of_passesFunction passes.1⟩
  have all : Good (s.passedEvents (s.store.type id)) := by
    refine List.foldlRecOn (motive := Good) _ _ own fun events known i _ => ?_
    refine List.foldlRecOn (motive := Good) _ _ known fun events known e he => ?_
    unfold joinEvent
    split
    · exact known
    · split
      · next passes =>
        exact List.forall_mem_append.2
          ⟨known, List.forall_mem_singleton.2 ⟨⟨i, he⟩, passable_of_passesFunction passes⟩⟩
      · exact known
  exact all f hf

end Session

/-- The names of a type, its module and its members are texts. -/
structure TypeNode.Named (t : TypeNode) : Prop where
  name : t.name.isText
  home : t.home.name.isText
  properties : ∀ ps, t.properties? = some ps → ∀ p ∈ ps, p.name.isText
  functions : ∀ f ∈ t.functions, f.name.isText
  params : ∀ f ∈ t.functions, ∀ p ∈ f.params, p.name.isText

instance (t : TypeNode) : Decidable t.Named :=
  decidable_of_iff (t.name.isText ∧ t.home.name.isText ∧
      (∀ ps ∈ t.properties?, ∀ p ∈ ps, p.name.isText) ∧ (∀ f ∈ t.functions, f.name.isText) ∧
      ∀ f ∈ t.functions, ∀ p ∈ f.params, p.name.isText)
    ⟨fun ⟨name, home, properties, functions, params⟩ => ⟨name, home, properties, functions, params⟩,
      fun h => ⟨h.name, h.home, h.properties, h.functions, h.params⟩⟩

def TypeStore.Named (σ : TypeStore) : Prop := ∀ id < σ.size, (σ.type id).Named

instance (σ : TypeStore) : Decidable σ.Named :=
  inferInstanceAs (Decidable (∀ id < σ.size, (σ.type id).Named))

/-- The categories of functions can be looked up by, and so can what an enum says of its values. -/
structure TypeNode.Plain (t : TypeNode) : Prop where
  categories : ∀ f ∈ t.functions, f.category.isKey
  enum : ∀ entries underlying, t.body = .enum entries underlying →
    underlying.isKey ∧ ∀ e ∈ entries, e.isText

def TypeStore.Plain (σ : TypeStore) : Prop := ∀ id < σ.size, (σ.type id).Plain

theorem TypeStore.lt_size_of_mem_functions {σ : TypeStore} {id : TypeId} {f : Function}
    (h : f ∈ (σ.type id).functions) : id < σ.size := by
  by_contra outside
  rw [type_of_size_le (Nat.le_of_not_lt outside)] at h
  cases h

namespace TypeStore.Named
variable {σ : TypeStore} (h : σ.Named)
include h

theorem property {id : TypeId} {ps : List Property} (hps : (σ.type id).properties? = some ps)
    {p : Property} (hp : p ∈ ps) : p.name.isText :=
  (h id (lt_size_of_properties? hps)).properties ps hps p hp

theorem function {f : Function} (hf : ∃ d, f ∈ (σ.type d).functions) : f.name.isText :=
  let ⟨d, hd⟩ := hf
  (h d (lt_size_of_mem_functions hd)).functions f hd

theorem param {f : Function} (hf : ∃ d, f ∈ (σ.type d).functions) {p : Property}
    (hp : p ∈ f.params) : p.name.isText :=
  let ⟨d, hd⟩ := hf
  (h d (lt_size_of_mem_functions hd)).params f hd p hp

/-- The module of a type can be looked up by; what is no type has one without a name. -/
theorem home (id : TypeId) : (σ.type id).home.name.isKey := by
  by_cases inside : id < σ.size
  · exact Value.isKey_of_isText (h id inside).home
  · rw [type_of_size_le (Nat.le_of_not_lt inside)]
    rfl

end TypeStore.Named

theorem Session.isText_scriptName {t : TypeNode} (h : t.name.isText) : (scriptName t).isText := by
  obtain ⟨word, hword⟩ := Value.eq_text_of_isText h
  rw [scriptName, hword]
  rfl

section
variable {v owner : Name} (h : v.isText)
include h

theorem Naming.property_ok (kind : PropertyKind) (howner : owner.isText) :
    ∃ name, Naming.property kind v owner = .ok name := by
  obtain ⟨word, rfl⟩ := Value.eq_text_of_isText h
  obtain ⟨type, rfl⟩ := Value.eq_text_of_isText howner
  exact ⟨_, property_text kind word type⟩

theorem Naming.function_ok (howner : owner.isText) :
    ∃ name, Naming.function v owner = .ok name := by
  obtain ⟨word, rfl⟩ := Value.eq_text_of_isText h
  obtain ⟨type, rfl⟩ := Value.eq_text_of_isText howner
  exact ⟨_, function_text word type⟩

theorem Naming.parameter_ok (kind : PropertyKind) : ∃ name, Naming.parameter kind v = .ok name := by
  obtain ⟨word, rfl⟩ := Value.eq_text_of_isText h
  exact ⟨_, parameter_text kind word⟩

end

end ScriptGlue
