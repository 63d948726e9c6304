import ScriptGlue.Proofs.Graph.Linking
import ScriptGlue.Proofs.Session.Fits
import ScriptGlue.Proofs.Session.Reachability

/-! # Parts that no gate looks at

The gate of a property looks at the type that the property refers to, and for a container at those
that its elements refer to. A document may hang an inner property or a value on any property,
though, and what those hold is exported like all else that the property holds. So a type that the
policy ignores is a dependency of a unit only by such a stray part: supers and interfaces are
classes.
-/
namespace ScriptGlue
open ScriptGlue.Action

/-- The policy keeps the type out; that is said of structs and enums. -/
def Policy.ignores (policy : Policy) (t : TypeNode) : Bool :=
  match t.variant with
  | .struct => !policy.allowsStruct t.name
  | .enum => !policy.allowsEnum t.name
  | .plainClass | .interface => false

theorem Policy.ignores_of_isClass {policy : Policy} {t : TypeNode} (h : t.isClass) :
    policy.ignores t = false := by
  unfold TypeNode.isClass TypeNode.classBody? at h
  unfold ignores TypeNode.variant
  cases body : t.body <;> simp_all

namespace Property

def heldAlone (p : Property) : List TypeId :=
  (if p.kind = .struct ∨ p.kind = .enum then p.ref else none).toList

def heldBelow (p : Property) : List TypeId := heldByElement p.inner ++ heldByElement p.value

/-- What is held by parts that the gate of the property does not look at: by those of a property
that is no container, by those of the elements of a container, and by the value of a container that
is no map. -/
def strays (p : Property) : List TypeId :=
  if p.kind.isContainer then
    (p.elements.flatMap fun e => e.elim [] heldBelow) ++
      if p.kind = .map then [] else heldByElement p.value
  else p.heldBelow

theorem held_eq (p : Property) : p.held = p.heldAlone ++ p.heldBelow := by
  obtain ⟨_, _, _, _, _, _, _, _, _, _⟩ := p
  rw [held, heldAlone, heldBelow, List.append_assoc]

variable {policy : Policy} {σ : TypeStore} {p : Property} {d : TypeId}

/-- The type that a property refers to is not ignored if the property passes. -/
theorem not_ignored_of_isHandledAlone (h : p.isHandledAlone policy σ) (hd : d ∈ p.heldAlone) :
    policy.ignores (σ.type d) = false := by
  unfold heldAlone at hd
  split at hd
  · next kind =>
    have hd : p.ref = some d := by simpa using hd
    have allowed : ∀ test : TypeNode → Bool, p.refSatisfies σ test → test (σ.type d) := by
      intro test satisfied
      obtain ⟨d', hd', holds⟩ := exists_of_refSatisfies satisfied
      cases hd.symm.trans hd'
      exact holds
    unfold isHandledAlone at h
    obtain kind | kind := kind <;> rw [kind] at h
    · have := allowed _ h
      simp_all [Policy.ignores, TypeNode.isPlainStruct]
    · have := allowed _ h
      simp_all [Policy.ignores, TypeNode.isEnum]
  · cases hd

/-- A container refers to nothing itself: below it are its elements, and a value that may be none of
them. -/
theorem mem_elements_of_container (container : p.kind.isContainer) (hd : d ∈ p.held) :
    (∃ e ∈ p.elements, d ∈ heldByElement e) ∨ p.kind ≠ .map ∧ d ∈ heldByElement p.value := by
  have alone : p.heldAlone = [] := by
    unfold heldAlone
    cases kind : p.kind <;> simp_all [PropertyKind.isContainer]
  rw [held_eq, alone, List.nil_append, heldBelow, List.mem_append] at hd
  unfold elements
  obtain hd | hd := hd
  · exact .inl ⟨p.inner, by split <;> simp, hd⟩
  · by_cases map : p.kind = .map
    · exact .inl ⟨p.value, by simp [map], hd⟩
    · exact .inr ⟨map, hd⟩

/-- What a property that passes holds is not ignored, unless it is held by a stray part. -/
theorem mem_strays_of_ignored (h : p.isHandled policy σ) (hd : d ∈ p.held)
    (ignored : policy.ignores (σ.type d)) : d ∈ p.strays := by
  -- the gate has looked at what the property itself refers to, so an ignored type lies below it
  have below {q : Property} (alone : q.isHandledAlone policy σ) (hd : d ∈ q.held) :
      d ∈ q.heldBelow := by
    rw [held_eq] at hd
    refine (List.mem_append.1 hd).resolve_left fun hd => ?_
    rw [not_ignored_of_isHandledAlone alone hd] at ignored
    cases ignored
  unfold isHandled at h
  unfold strays
  split at h
  · next container =>
    rw [if_pos container, List.mem_append]
    obtain ⟨e, he, hd⟩ | ⟨other, hd⟩ := mem_elements_of_container container hd
    · have element := List.all_eq_true.1 h e he
      cases e with
      | none => cases hd
      | some q =>
        simp only [isHandledElement, Bool.and_eq_true] at element
        exact .inl (List.mem_flatMap.2 ⟨some q, he, below element.2 hd⟩)
    · exact .inr (by rwa [if_neg other])
  · next single =>
    rw [if_neg single]
    exact below h hd

end Property

def TypeStore.LinksClasses (σ : TypeStore) : Prop :=
  ∀ id < σ.size, ∀ d, (σ.type id).super = some d ∨ d ∈ (σ.type id).interfaces → (σ.type d).isClass

theorem TypeNode.Resolved.class_of_link {find : Name → Option TypeId} {isClass : TypeId → Bool}
    {t : TypeNode} (h : t.Resolved find isClass) {d : TypeId}
    (hd : t.super = some d ∨ d ∈ t.interfaces) : isClass d := by
  unfold TypeNode.super TypeNode.interfaces at hd
  cases body : t.classBody? with
  | none => simp [body] at hd
  | some c =>
    have filtered {ref : Option TypeId} (hd : ref.filter isClass = some d) : isClass d :=
      (Option.filter_eq_some_iff.1 hd).2
    simp only [body, Option.bind_some, Option.map_some, Option.getD_some] at hd
    rw [h.super c body, h.interfaces c body, List.mem_filterMap] at hd
    obtain hd | ⟨name, -, hd⟩ := hd
    · exact filtered hd
    · exact filtered hd

theorem TypeStore.LinksClasses.extend {σ : TypeStore} (h : σ.LinksClasses) (linked : σ.Linked)
    {known : Graph} {data : Value} {ext : Graph.Extension} (inside : known.Inside σ)
    (hread : Graph.extend σ known data = .ok ext) : ext.store.LinksClasses := by
  obtain ⟨embeds, -⟩ := Graph.extend_grows linked inside hread
  have old : ∀ id < σ.size, ext.store.type id = σ.type id := fun id hid =>
    (embeds.node id hid).trans (TypeNode.relocate_id _)
  intro id hid d hd
  by_cases before : id < σ.size
  · rw [old id before] at hd
    have hd' : d < σ.size := hd.elim (linked.super before) (linked.interfaces before)
    rw [old d hd']
    exact h id before d hd
  · have resolved := Graph.resolved_of_extend hread (Nat.le_of_not_lt before) hid fun _ _ => rfl
    exact resolved.class_of_link hd

namespace Session

variable {s t : Session} {id d : TypeId}

/-- The properties and parameters by which the unit of a type depends on structs and enums. -/
def passedMembers (s : Session) (id : TypeId) : List Property :=
  match (s.store.type id).variant with
  | .plainClass | .interface =>
    if isInterface s.store id then [] else s.passedProperties id ++
      (s.passedFunctions (s.store.type id) ++ s.passedEvents (s.store.type id)).flatMap
        Function.params
  | .struct => s.passedProperties id
  | .enum => []

theorem isHandled_of_passesFunction {owner : TypeNode} {f : Function}
    (h : s.passesFunction owner f) : ∀ p ∈ f.params, p.isHandled s.policy s.store := by
  unfold passesFunction at h
  intro p hp
  have passes := List.all_eq_true.1 (Bool.and_eq_true_iff.1 h).2 p hp
  exact (Bool.and_eq_true_iff.1 passes).2

theorem isHandled_of_passedEvent {owner : TypeNode} {f : Function} (hf : f ∈ s.passedEvents owner) :
    ∀ p ∈ f.params, p.isHandled s.policy s.store := by
  let Handled (events : List Function) : Prop :=
    ∀ e ∈ events, ∀ p ∈ e.params, p.isHandled s.policy s.store
  have own : Handled (s.ownEvents owner) := fun e he =>
    isHandled_of_passesFunction (Bool.and_eq_true_iff.1 (List.mem_filter.1 he).2).1
  have all : Handled (s.passedEvents owner) := by
    refine List.foldlRecOn (motive := Handled) _ _ own fun events known i _ => ?_
    refine List.foldlRecOn (motive := Handled) _ _ known fun events known e _ => ?_
    unfold joinEvent
    split
    · exact known
    · split
      · next passes =>
        exact List.forall_mem_append.2
          ⟨known, List.forall_mem_singleton.2 (isHandled_of_passesFunction passes)⟩
      · exact known
  exact all f hf

theorem isHandled_of_passedMember {p : Property} (hp : p ∈ s.passedMembers id) :
    p.isHandled s.policy s.store := by
  have property (hp : p ∈ s.passedProperties id) : p.isHandled s.policy s.store := by
    have passes := (List.mem_filter.1 hp).2
    simp only [passesProperty, decide_eq_true_eq] at passes
    unfold propertyVerdict at passes
    split at passes
    · cases passes
    · split at passes
      · cases passes
      · split at passes
        · next supported => exact (Bool.and_eq_true_iff.1 supported).2
        · cases passes
  have ofClass (hp : p ∈ if isInterface s.store id then [] else s.passedProperties id ++
      (s.passedFunctions (s.store.type id) ++ s.passedEvents (s.store.type id)).flatMap
        Function.params) : p.isHandled s.policy s.store := by
    split at hp
    · cases hp
    · obtain hp | hp := List.mem_append.1 hp
      · exact property hp
      · obtain ⟨f, hf, hp⟩ := List.mem_flatMap.1 hp
        obtain hf | hf := List.mem_append.1 hf
        · exact isHandled_of_passesFunction (Bool.and_eq_true_iff.1 (List.mem_filter.1 hf).2).1 p hp
        · exact isHandled_of_passedEvent hf p hp
  unfold passedMembers at hp
  split at hp
  · exact ofClass hp
  · exact ofClass hp
  · exact property hp
  · cases hp

/-- What the unit of a type needs is a super or an interface or is held by a member. -/
theorem mem_dependencies (hd : d ∈ s.dependencies id) :
    ((s.store.type id).super = some d ∨ d ∈ (s.store.type id).interfaces) ∨
      ∃ p ∈ s.passedMembers id, d ∈ p.held := by
  have ofClass (hd : d ∈ if isInterface s.store id then [] else s.classDependencies id) :
      ((s.store.type id).super = some d ∨ d ∈ (s.store.type id).interfaces) ∨
        ∃ p ∈ if isInterface s.store id then [] else s.passedProperties id ++
          (s.passedFunctions (s.store.type id) ++ s.passedEvents (s.store.type id)).flatMap
            Function.params, d ∈ p.held := by
    by_cases inherits : isInterface s.store id
    · simp [inherits] at hd
    simp only [if_neg inherits, classDependencies, List.mem_append, Option.mem_toList] at hd ⊢
    obtain ((hd | hd) | hd) | hd := hd
    · exact .inl (.inl hd)
    · exact .inl (.inr (List.mem_of_mem_filter hd))
    · obtain ⟨p, hp, hd⟩ := List.mem_flatMap.1 hd
      exact .inr ⟨p, .inl hp, hd⟩
    · obtain ⟨f, hf, hd⟩ := List.mem_flatMap.1 hd
      obtain ⟨p, hp, hd⟩ := List.mem_flatMap.1 hd
      exact .inr ⟨p, .inr (List.mem_flatMap.2 ⟨f, hf, hp⟩), hd⟩
  cases variant : (s.store.type id).variant <;>
    simp only [dependencies, passedMembers, variant] at hd ⊢
  case plainClass => exact ofClass hd
  case interface => exact ofClass hd
  case struct =>
    obtain ⟨p, hp, hd⟩ := List.mem_flatMap.1 hd
    exact .inr ⟨p, hp, hd⟩
  case enum => cases hd

/-- The policy of the session keeps the type out. -/
def ignores (s : Session) (id : TypeId) : Bool := s.policy.ignores (s.store.type id)

def StraysFrom (s : Session) (owners : List TypeId) (d : TypeId) : Prop :=
  ∃ owner ∈ owners, ∃ p ∈ s.passedMembers owner, d ∈ p.strays

/-- What the unit of a type needs is ignored only if it strays from the type. -/
theorem straysFrom_of_dependency (classes : s.store.LinksClasses) (hid : id < s.store.size)
    (hd : d ∈ s.dependencies id) (ignored : s.ignores d) : s.StraysFrom [id] d := by
  obtain link | ⟨p, hp, hd⟩ := mem_dependencies hd
  · unfold ignores at ignored
    rw [Policy.ignores_of_isClass (classes id hid d link)] at ignored
    cases ignored
  · exact ⟨id, List.mem_singleton_self id, p, hp,
      Property.mem_strays_of_ignored (isHandled_of_passedMember hp) hd ignored⟩

theorem not_ignored_of_admits (h : s.admits id) : s.ignores id = false := by
  unfold admits at h
  unfold ignores Policy.ignores
  split at h
  all_goals simp only [*]
  · simpa using (Bool.and_eq_true_iff.1 h).1
  · simpa [shouldExportEnum] using h

theorem SameRules.passedMembers (h : SameRules s t) : t.passedMembers = s.passedMembers := by
  funext id
  simp only [Session.passedMembers, h.passedProperties, h.passedFunctions, h.passedEvents, h.2]

theorem SameRules.ignores (h : SameRules s t) : t.ignores = s.ignores := by
  funext id
  rw [Session.ignores, Session.ignores, h.1, h.2]

section
variable (h : Grown s t) (hid : id < s.store.size)
include h hid

theorem Mirrors.passedMembers_eq : t.passedMembers id = s.passedMembers id := by
  have node := h.type_eq hid
  have properties : t.passedProperties id = s.passedProperties id :=
    (h.passedProperties hid).trans (Property.map_relocate_id _)
  have functions : t.passedFunctions (s.store.type id) = s.passedFunctions (s.store.type id) :=
    (congrArg _ node.symm).trans
      ((h.passedFunctions hid).trans (List.map_id'' Function.relocate_id _))
  have events : t.passedEvents (s.store.type id) = s.passedEvents (s.store.type id) :=
    (congrArg _ node.symm).trans
      ((h.passedEvents hid).trans (List.map_id'' Function.relocate_id _))
  have interface : isInterface t.store id = isInterface s.store id := h.embeds.isInterface hid
  simp only [passedMembers, node, properties, functions, events, interface]

theorem Mirrors.ignores_eq : t.ignores id = s.ignores id := by
  rw [ignores, ignores, h.policy, h.type_eq hid]

end

end Session

end ScriptGlue
