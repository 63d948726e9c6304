import ScriptGlue.Proofs.Session.Attended
import ScriptGlue.Proofs.Session.Moments

/-! # What sessions remember of members

The properties that a session remembers as passed were declared by their type and have what they
need, and so have the functions of the extension methods it has found. That holds at every moment of
every session, half-way through a generation too, whatever the packaging and however the policy is
edited.
-/
namespace ScriptGlue.Session
open ScriptGlue.Action

variable {σ τ : TypeStore} {s t : Session}

/-- The properties that passed were declared and fit, and extension methods fit. -/
structure Vetted (σ : TypeStore) (s : Session) : Prop where
  store : s.store = σ
  passed : ∀ id ps, s.acceptedProperties.lookup id = some ps → PassedOf σ id ps
  methods : ∀ m ∈ s.extensions, MethodFits σ m

namespace Vetted

theorem of_same (h : Vetted σ s) (store : t.store = s.store)
    (passed : t.acceptedProperties = s.acceptedProperties)
    (methods : t.extensions = s.extensions) : Vetted σ t where
  store := store ▸ h.store
  passed := passed ▸ h.passed
  methods := methods ▸ h.methods

theorem accepting (h : Vetted σ s) {id : TypeId} (there : (σ.type id).properties?.isSome) :
    Vetted σ (s.accepting id) where
  store := h.store
  passed d ps known := by
    rw [Session.accepting, List.lookup_cons] at known
    split at known
    · next same =>
      cases known
      cases beq_iff_eq.1 same
      obtain ⟨declared, hdeclared⟩ := Option.isSome_iff_exists.1 there
      rw [← h.store] at hdeclared ⊢
      exact passedOf_passedProperties hdeclared
    · exact h.passed d ps known
  methods := h.methods

theorem grow (h : Vetted s.store s) (embeds : Embeds id s.store τ) :
    Vetted τ { s with store := τ } := by
  have same : ∀ id < s.store.size, τ.type id = s.store.type id := fun id hid =>
    (embeds.node id hid).trans (TypeNode.relocate_id _)
  exact {
    store := rfl
    passed := fun id ps known => (h.passed id ps known).grow embeds.linked same
    methods := fun m hm => (h.methods m hm).grow embeds.linked same }

end Vetted

theorem watchful_vetted : Watchful False σ (Vetted σ) fun _ => Vetted σ where
  store _ h := h.store
  faulted _ _ h _ := h
  named := False.elim
  passed _ id ps h := h.passed id ps
  refused _ _ h := h.of_same rfl rfl rfl
  accepted _ _ _ there h := h.accepting there

theorem measures_vetted (ref : Option TypeId) :
    Tame (Vetted σ) (fun _ => Vetted σ) (isStructBlittable ref) :=
  watchful_vetted.isStructBlittable (fun _ _ h => h.of_same rfl rfl rfl) False.elim

/-- Every step of a generation leaves a session whose members are vetted. -/
theorem attentive_vetted : Attentive False σ (Vetted σ) fun _ => Vetted σ where
  toWatchful := watchful_vetted
  textual := False.elim
  placed := False.elim
  declared := False.elim
  recorded _ _ h := h.of_same rfl rfl rfl
  registered _ _ _ _ h := h.of_same rfl rfl rfl
  measured id _ := measures_vetted (some id)
  linked := False.elim
  marked _ _ h := h.of_same rfl rfl rfl
  passedOver _ _ h := h.of_same rfl rfl rfl
  extended _ _ fits h :=
    { h with methods := List.forall_mem_append.2 ⟨h.methods, List.forall_mem_singleton.2 fits⟩ }
  methods _ h := h.methods
  files _ _ h := h.of_same rfl rfl rfl

theorem attended_vetted : Attended (fun _ => True) (fun s => Vetted s.store s)
    fun s => Vetted s.store where
  starts _ h := h
  ends s t h := by rwa [h.store]
  attentive _ _ := attentive_vetted
  layout s ref _ _ h := by
    rcases run : isStructBlittable ref s with ⟨e | b, u⟩
    · have left := (measures_vetted ref).fault h run
      rwa [left.store]
    · have left := ((measures_vetted ref).result h run).2
      rwa [left.store]
  files _ _ h := h.of_same rfl rfl rfl
  adopted _ _ _ h := h.of_same rfl rfl rfl
  fewer _ _ _ _ := trivial
  read _ _ embeds h := h.grow embeds

theorem vetted_course (linked : Linked s) (h : Vetted s.store s) (events : List Event) :
    Linked (s.course events) ∧ Vetted (s.course events).store (s.course events) := by
  have kept := attended_vetted.enduring.course (fun _ _ h here => (h here).of_same rfl rfl rfl)
    linked (fun _ => h) events
  exact ⟨kept.1, kept.2 trivial⟩

theorem vetted_fresh (policy : Policy) (packaging : Packaging) (fileExtension : Value)
    (files : Workspace) :
    Vetted #[] ({ policy, packaging, fileExtension, workspace := files } : Session) where
  store := rfl
  passed _ _ known := by cases known
  methods _ hm := absurd hm List.not_mem_nil

/-- The exported properties of a type pass, now or when they were remembered. -/
theorem passedOf_of_exportedProperties {id : TypeId} {ps : List Property} (vetted : Vetted σ s)
    (h : exportedProperties id s = (.ok ps, t)) : PassedOf σ id ps ∧ Vetted σ t :=
  (attentive_vetted.exportedProperties False.elim).result vetted h

end ScriptGlue.Session
