import ScriptGlue.Proofs.Session.Operations

/-! # Later moments of a session

In the course of a session types and modules only join, and a memo entry is never revised: what a
table holds at one moment it holds at every later one, although the policy may change in between and
an operation may fault half-way. So a layout that was found out stays the answer.
-/
namespace ScriptGlue.Session
open ScriptGlue.Action

variable {s t u : Session}

/-- A later moment of the session: layouts may have been found out, the passed properties of types
remembered, types and modules may have joined, and all else, the policy too, may have changed. -/
inductive Later (s : Session) : Session → Prop
  | refl : Later s s
  | layout {t : Session} (ref : Option TypeId) (h : Later s t) :
      Later s (isStructBlittable ref t).2
  | properties {t : Session} {id : TypeId} (h : Later s t)
      (new : t.acceptedProperties.lookup id = none) : Later s (t.accepting id)
  | other {t u : Session} (h : Later s t) (layouts : u.blittable = t.blittable)
      (properties : u.acceptedProperties = t.acceptedProperties)
      (size : t.store.size ≤ u.store.size)
      (types : ∀ id < t.store.size, u.store.type id = t.store.type id)
      (registry : t.registry <+: u.registry) : Later s u

theorem Later.trans (h : Later s t) (g : Later t u) : Later s u := by
  induction g with
  | refl => exact h
  | layout ref _ ih => exact ih.layout ref
  | properties _ new ih => exact ih.properties new
  | other _ layouts properties size types registry ih =>
    exact ih.other layouts properties size types registry

theorem Later.same (h : Later s t) (layouts : u.blittable = t.blittable)
    (properties : u.acceptedProperties = t.acceptedProperties) (store : u.store = t.store)
    (registry : u.registry = t.registry) : Later s u :=
  h.other layouts properties (by rw [store]) (fun _ _ => by rw [store])
    (registry ▸ List.prefix_rfl)

theorem stepwise_later (s : Session) : Stepwise (Later s) where
  faulted _ h := h
  refused _ _ h := h.same rfl rfl rfl rfl
  accepted _ _ new _ h := h.properties new
  registered _ _ _ _ _ h := h.other rfl rfl (Nat.le_refl _) (fun _ _ => rfl) (List.prefix_append _ _)
  measured ref := .of_outcome fun _ h => h.layout ref
  marked _ _ h := h.same rfl rfl rfl rfl
  passedOver _ _ h := h.same rfl rfl rfl rfl
  extended _ _ h := h.same rfl rfl rfl rfl
  files _ _ h := h.same rfl rfl rfl rfl
  adopted _ _ _ h := h.same rfl rfl rfl rfl
  read t known data read linked inside hread h := by
    obtain ⟨embeds, -⟩ := Graph.extend_grows linked.store inside hread
    refine h.other rfl rfl embeds.size_le (fun id hid => ?_) List.prefix_rfl
    exact (embeds.node id hid).trans (TypeNode.relocate_id _)

/-- What may happen to a session. -/
inductive Event where
  | run (operation : Operation)
  /-- The policy is edited. -/
  | edit (change : Action Policy Unit)

def Event.apply : Event → Generation Unit
  | .run operation => operation.run
  | .edit change => onPolicy change

/-- The session after some events, those that fault included. -/
def course (s : Session) (events : List Event) : Session :=
  events.foldl (fun s event => (event.apply s).2) s

/-- What endures, and does so whatever becomes of the policy, stays whatever happens to a session. -/
theorem Enduring.course {I : Session → Prop} (h : Enduring I)
    (edited : ∀ s policy, I s → I { s with policy }) (linked : Linked s) (hs : I s)
    (events : List Event) : Linked (s.course events) ∧ I (s.course events) := by
  induction events generalizing s with
  | nil => exact ⟨linked, hs⟩
  | cons event rest ih =>
    have next : Linked (event.apply s).2 ∧ I (event.apply s).2 := by
      cases event with
      | run operation =>
        exact (stepwise_linked.enduring.and h).run (fun _ h => h.1) operation ⟨linked, hs⟩
      | edit change => exact ⟨linked.of_same rfl rfl, edited s _ hs⟩
    exact ih next.1 next.2

theorem later_course (linked : Linked s) (events : List Event) : Later s (s.course events) :=
  ((stepwise_later s).enduring.course (fun _ _ h => h.same rfl rfl rfl rfl) linked .refl events).2

structure Retains (s t : Session) : Prop where
  layouts : ∀ ref b, s.blittable.lookup ref = some b → t.blittable.lookup ref = some b
  properties : ∀ id ps, s.acceptedProperties.lookup id = some ps →
    t.acceptedProperties.lookup id = some ps
  size : s.store.size ≤ t.store.size
  types : ∀ id < s.store.size, t.store.type id = s.store.type id
  registry : s.registry <+: t.registry

namespace Retains

theorem refl (s : Session) : Retains s s :=
  ⟨fun _ _ h => h, fun _ _ h => h, Nat.le_refl _, fun _ _ => rfl, List.prefix_rfl⟩

theorem trans (h : Retains s t) (g : Retains t u) : Retains s u where
  layouts ref b known := g.layouts ref b (h.layouts ref b known)
  properties id ps known := g.properties id ps (h.properties id ps known)
  size := h.size.trans g.size
  types id hid := (g.types id (Nat.lt_of_lt_of_le hid h.size)).trans (h.types id hid)
  registry := h.registry.trans g.registry

theorem of_same (h : Retains s t) (layouts : u.blittable = t.blittable)
    (properties : u.acceptedProperties = t.acceptedProperties) (store : u.store = t.store)
    (registry : u.registry = t.registry) : Retains s u where
  layouts := layouts ▸ h.layouts
  properties := properties ▸ h.properties
  size := store ▸ h.size
  types := store ▸ h.types
  registry := registry ▸ h.registry

theorem accepting {id : TypeId} (h : Retains s t) (new : t.acceptedProperties.lookup id = none) :
    Retains s (t.accepting id) where
  layouts := h.layouts
  properties d ps known := by
    have known := h.properties d ps known
    have other : (d == id) = false := by
      rw [beq_eq_false_iff_ne]
      rintro rfl
      cases new.symm.trans known
    show List.lookup d ((id, t.passedProperties id) :: t.acceptedProperties) = some ps
    rw [List.lookup_cons, other]
    exact known
  size := h.size
  types := h.types
  registry := h.registry

theorem noting {ref : Option TypeId} (h : Retains s t) (new : s.blittable.lookup ref = none)
    (b : Bool) : Retains s { t with blittable := (ref, b) :: t.blittable } where
  layouts d c known := by
    have other : (d == ref) = false := by
      rw [beq_eq_false_iff_ne]
      rintro rfl
      cases new.symm.trans known
    show List.lookup d ((ref, b) :: t.blittable) = some c
    rw [List.lookup_cons, other]
    exact h.layouts d c known
  properties := h.properties
  size := h.size
  types := h.types
  registry := h.registry

end Retains

theorem gated_retains (s : Session) : Gated (Retains s) (Retains s) where
  faulted _ h := h
  refused _ _ h := h.of_same rfl rfl rfl rfl
  accepted _ _ new _ h := h.accepting new

/-- While a layout is being found out no older answer is revised; the one for the struct itself is
new. -/
theorem structBlittableWithin_retains (fuel : Nat) (ref : Option TypeId) (s : Session) :
    Retains s (structBlittableWithin fuel ref s).2 := by
  induction fuel generalizing ref s with
  | zero => exact .refl s
  | succ fuel ih =>
    cases known : s.blittable.lookup ref with
    | some b =>
      rw [structBlittableWithin_known fuel known]
      exact .refl s
    | none =>
      cases ref with
      | none =>
        rw [structBlittableWithin_none fuel known]
        exact (Retains.refl s).noting known false
      | some id =>
        have nested (ref : Option TypeId) :
            Keeps (Retains s) (Retains s) (structBlittableWithin fuel ref) :=
          .of_outcome fun t h => h.trans (ih ref t)
        have measured : Keeps (Retains s) (Retains s) (measureLayout fuel id) :=
          ((gated_retains s).exportedProperties id).bind fun ps =>
            Keeps.allM fun p _ => Asking.isPropertyBlittable nested p
        rw [structBlittableWithin_new fuel known]
        exact (measured.bind fun b => (Keeps.modify fun t h => h.noting known b).bind
          fun _ => .pure b).outcome ((Retains.refl s).noting known false)

theorem isStructBlittable_retains (ref : Option TypeId) (s : Session) :
    Retains s (isStructBlittable ref s).2 := by
  rw [isStructBlittable_apply]
  exact structBlittableWithin_retains _ ref s

theorem Later.retains (h : Later s t) : Retains s t := by
  induction h with
  | refl => exact .refl s
  | layout ref _ ih => exact ih.trans (isStructBlittable_retains ref _)
  | properties _ new ih => exact ih.accepting new
  | other _ layouts properties size types registry ih =>
    refine ih.trans ⟨?_, ?_, size, types, registry⟩
    · exact fun ref b known => by rwa [layouts]
    · exact fun id ps known => by rwa [properties]

theorem isStructBlittable_known {ref : Option TypeId} {b : Bool}
    (known : s.blittable.lookup ref = some b) : isStructBlittable ref s = (.ok b, s) := by
  rw [isStructBlittable_apply]
  exact structBlittableWithin_known _ known

theorem isStructBlittable_remembered {ref : Option TypeId} {b : Bool}
    (h : isStructBlittable ref s = (.ok b, t)) : t.blittable.lookup ref = some b := by
  rw [isStructBlittable_apply] at h
  cases known : s.blittable.lookup ref with
  | some c =>
    rw [structBlittableWithin_known _ known] at h
    cases h
    exact known
  | none =>
    cases ref with
    | none => cases (structBlittableWithin_none _ known).symm.trans h
    | some id =>
      rw [structBlittableWithin_new _ known] at h
      obtain ⟨c, v, -, h⟩ := bind_eq_ok.1 h
      obtain ⟨_, w, hnote, h⟩ := bind_eq_ok.1 h
      obtain rfl := modify_eq_ok.1 hnote
      obtain ⟨rfl, rfl⟩ := pure_eq_ok.1 h
      exact List.lookup_cons_self

theorem isStructBlittable_again {ref : Option TypeId} {b : Bool}
    (h : isStructBlittable ref s = (.ok b, t)) (later : Later t u) :
    isStructBlittable ref u = (.ok b, u) :=
  isStructBlittable_known (later.retains.layouts ref b (isStructBlittable_remembered h))

end ScriptGlue.Session
