import ScriptGlue.Proofs.Session.Attended
import ScriptGlue.Proofs.Session.Moments
import ScriptGlue.Proofs.Session.Reachability

/-! # Answers about layouts

Whatever a session went through, asking a struct for its layout comes to an end, and the answer is
that of the least set of structs with the native layout. Each question takes up a type that has no
entry yet, so the number of types bounds how deep questions nest; that what they leave in the table
is right holds although the table counts a struct as not native while that is being found out, and
although other questions and exports may have ended with a fault.
-/
namespace ScriptGlue.Session
open ScriptGlue.Action Relation

variable {s t u : Session} {unfinished : List TypeId}

/-- A question about what has no properties faults, and leaves an entry that does not matter. -/
theorem remembers_isStructBlittable (keyed : Keyed s.store) (ht : Remembers s [] t)
    {ref : Option TypeId} (inside : ∀ id ∈ ref, id < s.store.size) :
    Remembers s [] (isStructBlittable ref t).2 := by
  cases known : t.blittable.lookup ref with
  | some b =>
    rw [isStructBlittable_known known]
    exact ht
  | none =>
    -- without properties the entry that is made first stays, and it says no
    have noted (bare : ¬RefersNative s ref) :
        Remembers s [] { t with blittable := (ref, false) :: t.blittable } :=
      ht.noting (.inr ⟨inside, bare⟩) (by simp)
    cases ref with
    | none =>
      rw [isStructBlittable_apply, structBlittableWithin_none _ known]
      exact noted (by simp [RefersNative])
    | some id =>
      by_cases there : (s.store.type id).properties?.isSome
      · obtain ⟨b, u, run, hu, -⟩ := isStructBlittable_total keyed ht there
        rw [run]
        exact hu
      · have noted := noted (by simp [RefersNative, there])
        rw [isStructBlittable_apply, structBlittableWithin_new _ known, measureLayout,
          Action.bind_assoc]
        rcases run : exportedProperties id
          { t with blittable := (some id, false) :: t.blittable } with ⟨e | ps, u⟩
        · obtain ⟨-, refused, rfl⟩ := exportedProperties_error run
          rw [bind_of_error run]
          exact (gated_remembers s []).refusing noted refused
        · have declared := (exportedProperties_ok noted.accepted run).1
          rw [noted.rules.2] at declared
          exact absurd declared there

/-- The memo tables of a session are right, and its extension methods fit. -/
structure Truthful (s : Session) : Prop where
  coherent : Coherent s
  methods : ∀ m ∈ s.extensions, MethodFits s.store m

/-- A session that was truthful when it had the rules of `s`. -/
structure TruthfulFor (s t : Session) : Prop where
  remembers : Remembers s [] t
  methods : ∀ m ∈ t.extensions, MethodFits s.store m

theorem TruthfulFor.truthful (h : TruthfulFor s t) : Truthful t where
  coherent := h.remembers.coherent
  methods := h.remembers.rules.2 ▸ h.methods

theorem TruthfulFor.of_same (h : TruthfulFor s t) (rules : SameRules t u)
    (accepted : u.acceptedProperties = t.acceptedProperties)
    (layouts : u.blittable = t.blittable) (extensions : u.extensions = t.extensions) :
    TruthfulFor s u where
  remembers := h.remembers.of_same rules layouts (h.remembers.accepted.of_same rules accepted)
  methods := extensions ▸ h.methods

theorem isStructBlittable_extensions (ref : Option TypeId) (t : Session) :
    (isStructBlittable ref t).2.extensions = t.extensions := by
  have keeps : Keeps (fun u : Session => u.extensions = t.extensions)
      (fun u => u.extensions = t.extensions) (isStructBlittable ref) :=
    Gated.isStructBlittable ⟨fun _ h => h, fun _ _ h => h, fun _ _ _ _ h => h⟩ (fun _ _ h => h) ref
  exact keeps.outcome rfl

/-- Every step of a generation leaves the tables right, and a fault leaves them so. -/
theorem attentive_truthful (keyed : Keyed s.store) :
    Attentive False s.store (TruthfulFor s) fun _ => TruthfulFor s where
  store _ h := h.remembers.rules.2
  faulted _ _ h _ := h
  named := False.elim
  textual := False.elim
  placed := False.elim
  declared := False.elim
  linked := False.elim
  passed t id ps h known := by
    obtain ⟨there, rfl⟩ := h.remembers.accepted id ps known
    obtain ⟨declared, hdeclared⟩ := Option.isSome_iff_exists.1 there
    rw [← h.remembers.rules.2]
    exact passedOf_passedProperties hdeclared
  refused _ _ h := h.of_same ⟨rfl, rfl⟩ rfl rfl rfl
  accepted t id new there h := by
    rw [← h.remembers.rules.2] at there
    exact ⟨(gated_remembers s []).accepted t id new there h.remembers, h.methods⟩
  recorded _ _ h := h.of_same ⟨rfl, rfl⟩ rfl rfl rfl
  registered _ _ _ _ h := h.of_same ⟨rfl, rfl⟩ rfl rfl rfl
  marked _ _ h := h.of_same ⟨rfl, rfl⟩ rfl rfl rfl
  passedOver _ _ h := h.of_same ⟨rfl, rfl⟩ rfl rfl rfl
  files _ _ h := h.of_same ⟨rfl, rfl⟩ rfl rfl rfl
  extended t m fits h := ⟨h.remembers.of_same ⟨rfl, rfl⟩ rfl (h.remembers.accepted.of_same ⟨rfl, rfl⟩ rfl),
    fun x hx => (List.mem_append.1 hx).elim (h.methods x) fun hx => List.mem_singleton.1 hx ▸ fits⟩
  methods _ h := h.methods
  measured id there := by
    have total (t : Session) (h : TruthfulFor s t) : ∃ b u,
        isStructBlittable (some id) t = (.ok b, u) ∧ TruthfulFor s u := by
      obtain ⟨b, u, run, hu, -⟩ := isStructBlittable_total keyed h.remembers there
      have same := isStructBlittable_extensions (some id) t
      rw [run] at same
      exact ⟨b, u, run, hu, same ▸ h.methods⟩
    constructor
    · intro t u b h run
      obtain ⟨b', u', run', hu⟩ := total t h
      cases run.symm.trans run'
      exact ⟨trivial, hu⟩
    · intro t u e h run
      obtain ⟨b', u', run', hu⟩ := total t h
      cases run.symm.trans run'

theorem Truthful.grow (h : Truthful s) (grown : Mirrors id s t)
    (accepted : t.acceptedProperties = s.acceptedProperties) (layouts : t.blittable = s.blittable)
    (extensions : t.extensions = s.extensions) : Truthful t := by
  have same : ∀ d < s.store.size, t.store.type d = s.store.type d := fun d hd =>
    (grown.embeds.node d hd).trans (TypeNode.relocate_id _)
  refine ⟨h.coherent.mirror grown accepted layouts, fun m hm => ?_⟩
  rw [extensions] at hm
  exact (h.methods m hm).grow grown.embeds.linked same

theorem Truthful.of_same (h : Truthful s) (rules : SameRules s t)
    (accepted : t.acceptedProperties = s.acceptedProperties) (layouts : t.blittable = s.blittable)
    (extensions : t.extensions = s.extensions) : Truthful t := by
  have start : TruthfulFor s s := ⟨h.coherent, h.methods⟩
  exact (start.of_same rules accepted layouts extensions).truthful

theorem attended_truthful : Attended Keyed Truthful TruthfulFor where
  starts _ hs := ⟨hs.coherent, hs.methods⟩
  ends _ _ h := h.truthful
  attentive _ keyed := attentive_truthful keyed
  layout s ref inside keyed hs := by
    have asked : TruthfulFor s (isStructBlittable ref s).2 :=
      ⟨remembers_isStructBlittable keyed hs.coherent inside,
        (isStructBlittable_extensions ref s).symm ▸ hs.methods⟩
    exact asked.truthful
  files _ _ hs := hs.of_same ⟨rfl, rfl⟩ rfl rfl rfl
  adopted _ _ _ hs := hs.of_same ⟨rfl, rfl⟩ rfl rfl rfl
  fewer σ τ embeds keyed := by
    intro id ps hps
    have same : τ.type id = σ.type id :=
      (embeds.node id (TypeStore.lt_size_of_properties? hps)).trans (TypeNode.relocate_id _)
    exact keyed id ps ((congrArg TypeNode.properties? same).trans hps)
  read s read embeds hs := by
    have grown : Mirrors id s { s with store := read } := ⟨rfl, embeds⟩
    exact hs.grow grown rfl rfl rfl

theorem truthful_fresh (policy : Policy) (packaging : Packaging) (fileExtension : Value)
    (files : Workspace) : Truthful (fresh policy packaging fileExtension files) where
  coherent :=
    { rules := .refl _
      accepted := fun _ _ known => by cases known
      layouts := fun _ _ known => by cases known }
  methods _ hm := absurd hm List.not_mem_nil

theorem truthful_after {policy : Policy} {packaging : Packaging} {fileExtension : Value}
    {files : Workspace} {operations : List Operation}
    (after : s = after (fresh policy packaging fileExtension files) operations)
    (keyed : Keyed s.store) : Truthful s := by
  have start : Linked (fresh policy packaging fileExtension files) ∧
      (Keyed (fresh policy packaging fileExtension files).store →
        Truthful (fresh policy packaging fileExtension files)) :=
    ⟨linked_fresh _ _ _ _, fun _ => truthful_fresh _ _ _ _⟩
  have kept : Linked s ∧ (Keyed s.store → Truthful s) := by
    rw [after]
    exact (stepwise_linked.enduring.and attended_truthful.enduring).after (fun _ h => h.1) start
  exact kept.2 keyed

/-- What reaches a struct that contains itself contains it, and has no native layout. -/
theorem HasNativeLayout.acyclic {id d : TypeId} (h : HasNativeLayout s id)
    (reaches : ReflTransGen (Holds s) id d) : ¬TransGen (Holds s) d d := by
  induction reaches using ReflTransGen.head_induction_on with
  | refl => exact h.not_cyclic
  | head held _ ih => exact ih (h.held held)

/-- Whatever a session went through, faults included, the question whether a type with properties
has the native layout comes to an end. The answer is yes just for the types of the least set, over
the properties that the session gives for a type; so is every answer that the session remembers, and
no type that reaches one that contains itself is among them. -/
theorem isStructBlittable_iff {policy : Policy} {packaging : Packaging} {fileExtension : Value}
    {files : Workspace} {operations : List Operation}
    (after : s = after (fresh policy packaging fileExtension files) operations)
    (keyed : Keyed s.store) :
    (∀ id, (s.store.type id).properties?.isSome →
      (∃ t, exportedProperties id s = (.ok (s.passedProperties id), t)) ∧
      ∃ b t, isStructBlittable (some id) s = (.ok b, t) ∧ (b = true ↔ HasNativeLayout s id)) ∧
    (∀ id b, (s.store.type id).properties?.isSome → s.blittable.lookup (some id) = some b →
      (b = true ↔ HasNativeLayout s id)) ∧
    ∀ id d, (s.store.type id).properties?.isSome → ReflTransGen (Holds s) id d →
      TransGen (Holds s) d d → ∃ t, isStructBlittable (some id) s = (.ok false, t) := by
  have right := (truthful_after after keyed).coherent
  refine ⟨fun id there => ⟨?_, ?_⟩, fun id b there known => ?_, fun id d there reaches cycle => ?_⟩
  · rcases run : exportedProperties id s with ⟨e | ps, t⟩
    · have finding : Finding True s [] (s.vacant.card + 1) s := ⟨right, fun _ => Nat.lt_succ_self _⟩
      exact ((exportedProperties_finding (fun _ => keyed) fun _ => there).fault finding run trivial).elim
    · obtain ⟨-, rfl⟩ := exportedProperties_ok right.accepted run
      exact ⟨t, rfl⟩
  · obtain ⟨b, t, run, -, native⟩ := isStructBlittable_total keyed right there
    exact ⟨b, t, run, native⟩
  · exact (right.layouts (some id) b known).right.trans (refersNative_some there)
  · obtain ⟨b, t, run, -, native⟩ := isStructBlittable_total keyed right there
    cases b with
    | true => exact absurd cycle ((native.1 rfl).acyclic reaches)
    | false => exact ⟨t, run⟩

/-- The ring is asked for its layout before it is exported. -/
def askedRing : Session :=
  after ringSession [.adopt ringDocument, .layout (some 1), .layout none, .visit true 1]

theorem askedRing_holds : Keyed askedRing.store ∧ (askedRing.store.type 1).properties?.isSome ∧
    askedRing.exported = [0, 1] ∧
    (askedRing.passedProperties 1).map (fun p => (p.kind, p.ref)) =
      [(.enum, some 0), (.struct, some 1)] := by
  decide +kernel

theorem isStructBlittable_iff_of_ring : ∃ t, isStructBlittable (some 1) askedRing = (.ok false, t) ∧
    ¬HasNativeLayout askedRing 1 := by
  obtain ⟨keyed, there, -, passed⟩ := askedRing_holds
  have asked : askedRing = after ringSession
      [.adopt ringDocument, .layout (some 1), .layout none, .visit true 1] := rfl
  obtain ⟨answers, -, cyclic⟩ := isStructBlittable_iff asked keyed
  have loops : Holds askedRing 1 1 := by
    have mem : (PropertyKind.struct, some 1) ∈
        (askedRing.passedProperties 1).map fun p => (p.kind, p.ref) := by simp [passed]
    obtain ⟨p, hp, same⟩ := List.mem_map.1 mem
    obtain ⟨struct, held⟩ := Prod.mk.inj same
    exact ⟨p, hp, struct, held⟩
  obtain ⟨t, run⟩ := cyclic 1 1 there .refl (.single loops)
  obtain ⟨-, b, u, run', right⟩ := answers 1 there
  cases run.symm.trans run'
  exact ⟨t, run, fun native => absurd (right.2 native) Bool.false_ne_true⟩

end ScriptGlue.Session
