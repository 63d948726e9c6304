import Mathlib.Algebra.BigOperators.Group.Finset.Basic
import ScriptGlue.Proofs.Session.LayoutAnswers
import ScriptGlue.Proofs.Session.WiderPolicies

/-! # Refusals of properties

A property is refused if it is asked for, but its kind cannot take the role or the array, or it
refers to what is not handled. Its gate counts that once: when the list of its type joins the memo
table. So whatever a session is asked for, and however often and in whatever order, the count of a
kind is the number of the refused properties of that kind that the types in the table declare. Only a
gate that raises half-way counts refusals of a type that does not join.
-/
namespace ScriptGlue.Session
open ScriptGlue.Action

variable {s t : Session} {owner : TypeNode} {p : Property} {id : TypeId}

/-- The policy lets the property through, and its flags or the policy ask for it, but its kind does
not support the role or the array, or it refers to what is not handled. -/
structure Refuses (s : Session) (owner : TypeNode) (p : Property) : Prop where
  allowed : s.policy.allowsProperty owner.name p.name
  asked : isVisible p ∨ s.policy.forcesProperty owner.name p.name
  unsupported : ¬p.kind.supports (propertyRole owner) ∨
    (p.isFixedArray ∧ ¬p.kind.supports .fixedArray) ∨ ¬p.isHandled s.policy s.store

theorem propertyVerdict_eq_refused_iff :
    s.propertyVerdict owner p = .refused ↔ s.Refuses owner p := by
  have unsupported : s.isSupported owner p = false ↔ ¬p.kind.supports (propertyRole owner) ∨
      (p.isFixedArray ∧ ¬p.kind.supports .fixedArray) ∨ ¬p.isHandled s.policy s.store := by
    unfold isSupported
    cases p.kind.supports (propertyRole owner) <;> cases p.isFixedArray <;>
      cases p.kind.supports .fixedArray <;> simp
  have parts : s.Refuses owner p ↔ s.policy.allowsProperty owner.name p.name ∧
      (isVisible p ∨ s.policy.forcesProperty owner.name p.name) ∧ s.isSupported owner p = false :=
    ⟨fun h => ⟨h.allowed, h.asked, unsupported.2 h.unsupported⟩,
      fun h => ⟨h.1, h.2.1, unsupported.1 h.2.2⟩⟩
  rw [parts, propertyVerdict]
  cases s.policy.allowsProperty owner.name p.name <;> cases isVisible p <;>
    cases s.policy.forcesProperty owner.name p.name <;> cases s.isSupported owner p <;> simp

instance (s : Session) (owner : TypeNode) (p : Property) : Decidable (s.Refuses owner p) :=
  decidable_of_iff _ propertyVerdict_eq_refused_iff

def computed (s : Session) : Finset TypeId := (s.acceptedProperties.map Prod.fst).toFinset

theorem lookup_eq_none_iff_notMem {lists : List (TypeId × List Property)} :
    lists.lookup id = none ↔ id ∉ lists.map Prod.fst := by
  rw [List.lookup_eq_none_iff, List.mem_map]
  constructor
  · rintro others ⟨x, hx, rfl⟩
    simpa using others x hx
  · intro unlisted x hx
    simpa using fun same : id = x.1 => unlisted ⟨x, hx, same.symm⟩

def refusals (s : Session) (kind : PropertyKind) (id : TypeId) : Nat :=
  ((s.store.type id).properties?.getD []).countP fun p =>
    p.kind = kind ∧ s.Refuses (s.store.type id) p

theorem count_refusedOf (s : Session) (kind : PropertyKind) (id : TypeId) :
    (s.refusedOf id).count (.properties, kind) = s.refusals kind id := by
  rw [refusedOf, refusedKinds, List.count_reverse, List.count, List.countP_map, List.countP_filter]
  refine List.countP_congr fun p _ => ?_
  simp [propertyVerdict_eq_refused_iff]

theorem refusals_eq (node : t.store.type id = s.store.type id)
    (verdicts : ∀ p ∈ (s.store.type id).properties?.getD [],
      t.propertyVerdict (s.store.type id) p = s.propertyVerdict (s.store.type id) p)
    (kind : PropertyKind) : t.refusals kind id = s.refusals kind id := by
  unfold refusals
  rw [node]
  refine List.countP_congr fun p hp => ?_
  simp only [← propertyVerdict_eq_refused_iff, verdicts p hp]

theorem SameRules.refusals (h : SameRules s t) (kind : PropertyKind) (id : TypeId) :
    t.refusals kind id = s.refusals kind id := by
  obtain ⟨hp, hs⟩ := h
  refine refusals_eq (by rw [hs]) (fun p _ => ?_) kind
  cases s; cases t; cases hp; cases hs
  rfl

theorem Mirrors.refusals (h : Grown s t) (kind : PropertyKind) {d : TypeId}
    (hd : d < s.store.size) : t.refusals kind d = s.refusals kind d := by
  refine refusals_eq (h.type_eq hd) (fun p hp => ?_) kind
  have same := h.propertyVerdict (s.store.type d) (h.embeds.linked.property hd hp)
  rwa [TypeNode.relocate_id, Property.relocate_id] at same

/-- Each refusal of the types in the memo table has been counted once, and no other. -/
structure RefusalsCounted (s : Session) : Prop where
  declared : ∀ id ∈ s.computed, (s.store.type id).properties?.isSome
  counts : ∀ kind, s.rejectionCount .properties kind = ∑ id ∈ s.computed, s.refusals kind id

namespace RefusalsCounted

theorem of_table (h : RefusalsCounted s) (accepted : t.acceptedProperties = s.acceptedProperties)
    (rejections : ∀ kind, t.rejectionCount .properties kind = s.rejectionCount .properties kind)
    (nodes : ∀ id ∈ s.computed, t.store.type id = s.store.type id)
    (refusals : ∀ kind, ∀ id ∈ s.computed, t.refusals kind id = s.refusals kind id) :
    RefusalsCounted t := by
  have computed : t.computed = s.computed := congrArg (fun m => (m.map Prod.fst).toFinset) accepted
  constructor
  · intro id hid
    rw [computed] at hid
    rw [nodes id hid]
    exact h.declared id hid
  · intro kind
    rw [rejections, computed, Finset.sum_congr rfl (refusals kind)]
    exact h.counts kind

theorem of_same (h : RefusalsCounted s) (rules : SameRules s t)
    (accepted : t.acceptedProperties = s.acceptedProperties)
    (rejections : ∀ kind, t.rejectionCount .properties kind = s.rejectionCount .properties kind) :
    RefusalsCounted t :=
  h.of_table accepted rejections (fun _ _ => by rw [rules.2]) fun kind id _ => rules.refusals kind id

theorem grow (h : RefusalsCounted s) (grown : Grown s t)
    (accepted : t.acceptedProperties = s.acceptedProperties)
    (rejections : t.rejections = s.rejections) : RefusalsCounted t := by
  have inside : ∀ id ∈ s.computed, id < s.store.size := fun id hid =>
    TypeStore.lt_size_of_properties? (Option.eq_some_of_isSome (h.declared id hid))
  exact h.of_table accepted (fun kind => by rw [rejectionCount, rejectionCount, rejections])
    (fun id hid => grown.type_eq (inside id hid)) fun kind id hid =>
      grown.refusals kind (inside id hid)

/-- When the list of a new type joins the table its refusals have been counted. -/
theorem accepting (h : RefusalsCounted s) (new : s.acceptedProperties.lookup id = none)
    (there : (s.store.type id).properties?.isSome) :
    RefusalsCounted ((s.refusing (s.refusedOf id)).accepting id) := by
  have joined : ((s.refusing (s.refusedOf id)).accepting id).computed = insert id s.computed :=
    List.toFinset_cons
  have rules : SameRules s ((s.refusing (s.refusedOf id)).accepting id) := ⟨rfl, rfl⟩
  constructor
  · rw [joined]
    exact Finset.forall_mem_insert .. |>.2 ⟨there, h.declared⟩
  · intro kind
    simp only [joined, rules.refusals]
    have apart : id ∉ s.computed :=
      fun mem => lookup_eq_none_iff_notMem.1 new (List.mem_toFinset.1 mem)
    rw [Finset.sum_insert apart, ← h.counts kind, ← count_refusedOf]
    exact List.count_append

end RefusalsCounted

def Askable (σ : TypeStore) (id : TypeId) : Prop :=
  ∀ ps ∈ (σ.type id).properties?, ∀ p ∈ ps, p.name.isKey

instance (σ : TypeStore) (id : TypeId) : Decidable (Askable σ id) :=
  inferInstanceAs (Decidable (∀ ps ∈ (σ.type id).properties?, ∀ p ∈ ps, p.name.isKey))

def Excuses (lists : List (TypeId × List Property)) (σ : TypeStore) : Prop :=
  ∀ id, ¬Askable σ id → id ∈ lists.map Prod.fst

def recalling (s : Session) (lists : List (TypeId × List Property)) : Session :=
  { s with acceptedProperties := s.acceptedProperties ++ lists }

/-- The property gate raises nowhere in the operation. What the gate raises ends the operation, so it
did not raise if there is a result. And nothing but the question for properties looks into the memo
table: if it did not raise, the operation comes to the same fault, and leaves the same, when each type
whose gate would raise has a list already. -/
def Operation.GateReturns (operation : Operation) (s : Session) : Prop :=
  (operation.run s).1.isOk ∨ ∃ lists, Excuses lists (operation.run s).2.store ∧
    operation.run (s.recalling lists) =
      ((operation.run s).1, (operation.run s).2.recalling lists)

/-- The property gate raises in none of the operations. -/
def GateReturns : Session → List Operation → Prop
  | _, [] => True
  | s, operation :: rest => operation.GateReturns s ∧ GateReturns (operation.run s).2 rest

theorem recalling_nil (s : Session) : s.recalling [] = s := by
  rw [recalling, List.append_nil]

theorem Operation.gateReturns_of_keyed {operation : Operation}
    (keyed : Keyed (operation.run s).2.store) : operation.GateReturns s := by
  refine .inr ⟨[], fun id unaskable => absurd (fun ps hps => keyed id ps hps) unaskable, ?_⟩
  rw [recalling_nil, recalling_nil]

theorem Retains.keyed (h : Retains s t) (keyed : Keyed t.store) : Keyed s.store := by
  intro id ps hps
  refine keyed id ps ?_
  rwa [h.types id (TypeStore.lt_size_of_properties? hps)]

theorem gateReturns_of_keyed {operations : List Operation} (linked : Linked s)
    (keyed : Keyed (after s operations).store) : GateReturns s operations := by
  induction operations generalizing s with
  | nil => trivial
  | cons operation rest ih =>
    have next := stepwise_linked.enduring.run (fun _ h => h) operation linked
    have later : Later (operation.run s).2 (after (operation.run s).2 rest) :=
      ((stepwise_linked.enduring.and (stepwise_later _).enduring).after (fun _ h => h.1)
        ⟨next, .refl⟩).2
    exact ⟨Operation.gateReturns_of_keyed (later.retains.keyed keyed), ih next keyed⟩

def excuses (σ : TypeStore) : List (TypeId × List Property) :=
  ((List.range σ.size).filter fun id => ¬Askable σ id).map fun id => (id, [])

theorem mem_excuses {σ : TypeStore} : id ∈ (excuses σ).map Prod.fst ↔ ¬Askable σ id := by
  have inside (unaskable : ¬Askable σ id) : id < σ.size := by
    rw [Askable] at unaskable
    push Not at unaskable
    obtain ⟨ps, hps, -⟩ := unaskable
    exact TypeStore.lt_size_of_properties? hps
  have members : id ∈ (excuses σ).map Prod.fst ↔ id < σ.size ∧ ¬Askable σ id := by simp [excuses]
  exact members.trans (and_iff_right_of_imp inside)

theorem run_properties (s : Session) : (Operation.properties id).run s =
    ((exportedProperties id s).1.map fun _ => (), (exportedProperties id s).2) := by
  rcases asked : exportedProperties id s with ⟨e | ps, t⟩
  · exact bind_of_error asked _
  · exact bind_of_ok asked _

theorem exportedProperties_absent (new : s.acceptedProperties.lookup id = none)
    (absent : (s.store.type id).properties? = none) :
    exportedProperties id s = (.error .missingPart, s) := by
  simp only [exportedProperties, bind_apply, get_apply, new, absent]
  rfl

theorem askable_of_exportedProperties {ps : List Property}
    (new : s.acceptedProperties.lookup id = none) (h : exportedProperties id s = (.ok ps, t)) :
    Askable s.store id := by
  intro declared hdeclared
  simp only [exportedProperties, bind_apply, get_apply, new, Option.mem_def.1 hdeclared] at h
  obtain ⟨passed, u, gated, -⟩ := bind_eq_ok.1 h
  exact gateProperties_returns_iff.1 ⟨passed, u, gated⟩

/-- A type that lists are not for is looked for in the session's own table. -/
theorem lookup_recalling {lists : List (TypeId × List Property)} (h : id ∉ lists.map Prod.fst) :
    (s.recalling lists).acceptedProperties.lookup id = s.acceptedProperties.lookup id := by
  rw [recalling, List.lookup_append, lookup_eq_none_iff_notMem.2 h, Option.or_none]

theorem isSome_lookup_recalling {lists : List (TypeId × List Property)}
    (h : id ∈ lists.map Prod.fst) :
    ((s.recalling lists).acceptedProperties.lookup id).isSome := by
  rw [Option.isSome_iff_ne_none, Ne, lookup_eq_none_iff_notMem, recalling, List.map_append,
    List.mem_append]
  exact fun unlisted => unlisted (.inr h)

/-- Where a type declares nothing the question raises before it comes to the gate. -/
theorem gateReturns_of_absent (new : s.acceptedProperties.lookup id = none)
    (absent : (s.store.type id).properties? = none) : (Operation.properties id).GateReturns s := by
  have unlisted : id ∉ (excuses s.store).map Prod.fst := by simp [mem_excuses, Askable, absent]
  have plain : (Operation.properties id).run s = (.error .missingPart, s) := by
    rw [run_properties, exportedProperties_absent new absent]
    rfl
  refine .inr ⟨excuses s.store, ?_, ?_⟩
  · rw [plain]
    exact fun _ => mem_excuses.2
  · rw [plain, run_properties, exportedProperties_absent ((lookup_recalling unlisted).trans new) absent]
    rfl

theorem askable_of_gateReturns (new : s.acceptedProperties.lookup id = none)
    (h : (Operation.properties id).GateReturns s) : Askable s.store id := by
  rcases asked : exportedProperties id s with ⟨e | ps, t⟩
  · obtain ⟨-, refused, rfl⟩ := exportedProperties_error asked
    rw [Operation.GateReturns, run_properties, asked] at h
    obtain result | ⟨lists, excused, same⟩ := h
    · cases result
    · by_contra unaskable
      obtain ⟨qs, listed⟩ := Option.isSome_iff_exists.1
        (isSome_lookup_recalling (s := s) (excused id unaskable))
      rw [run_properties, exportedProperties_known listed] at same
      cases same
  · exact askable_of_exportedProperties new asked

/-- A question for properties raises in the gate just if the type has no list yet and a property
whose name cannot be looked up. -/
theorem gateReturns_properties_iff : (Operation.properties id).GateReturns s ↔
    (s.acceptedProperties.lookup id).isSome ∨ Askable s.store id := by
  cases known : s.acceptedProperties.lookup id with
  | some ps =>
    refine iff_of_true (.inl ?_) (.inl rfl)
    rw [run_properties, exportedProperties_known known]
    rfl
  | none =>
    refine ⟨fun h => .inr (askable_of_gateReturns known h), fun h => ?_⟩
    have askable : Askable s.store id := h.resolve_left Bool.false_ne_true
    rcases asked : exportedProperties id s with ⟨e | ps, t⟩
    · obtain ⟨absent | ⟨ps, declared, p, hp, unkeyed⟩, -⟩ := exportedProperties_error asked
      · exact gateReturns_of_absent known absent
      · simp [askable ps declared p hp] at unkeyed
    · exact .inl (by rw [run_properties, asked]; rfl)

section
variable {lists : List (TypeId × List Property)}

/-- But for the lists at the end of its table a session has counted each refusal once. -/
def CountedBut (lists : List (TypeId × List Property)) (s : Session) : Prop :=
  ∃ memo, s.acceptedProperties = memo ++ lists ∧
    RefusalsCounted { s with acceptedProperties := memo }

theorem countedBut_recalling : CountedBut lists (s.recalling lists) ↔ RefusalsCounted s := by
  constructor
  · rintro ⟨memo, same, counted⟩
    cases List.append_cancel_right same
    exact counted
  · exact fun counted => ⟨_, rfl, counted⟩

namespace CountedBut

theorem of_same (h : CountedBut lists s) (rules : SameRules s t)
    (accepted : t.acceptedProperties = s.acceptedProperties)
    (rejections : ∀ kind, t.rejectionCount .properties kind = s.rejectionCount .properties kind) :
    CountedBut lists t := by
  obtain ⟨memo, table, counted⟩ := h
  exact ⟨memo, accepted.trans table, counted.of_same rules rfl rejections⟩

theorem reads (h : CountedBut lists s) (linked : Linked s) (read : ReadsGraph s t) :
    CountedBut lists t := by
  obtain ⟨memo, table, counted⟩ := h
  obtain ⟨policy, embeds⟩ := read.mirrors linked
  have kept : t.acceptedProperties = s.acceptedProperties ∧ t.rejections = s.rejections := by
    cases read <;> exact ⟨rfl, rfl⟩
  exact ⟨memo, kept.1.trans table, counted.grow ⟨policy, embeds⟩ rfl kept.2⟩

theorem accepting (h : CountedBut lists s) (new : s.acceptedProperties.lookup id = none)
    (there : (s.store.type id).properties?.isSome) :
    CountedBut lists ((s.refusing (s.refusedOf id)).accepting id) := by
  obtain ⟨memo, table, counted⟩ := h
  have fresh : memo.lookup id = none := by
    rw [table, List.lookup_append, Option.or_eq_none_iff] at new
    exact new.1
  refine ⟨(id, s.passedProperties id) :: memo, ?_,
    (counted.accepting fresh there).of_same ⟨rfl, rfl⟩ rfl fun _ => rfl⟩
  exact congrArg (List.cons _) table

end CountedBut

/-- What a fault leaves where each type whose gate would raise has a list. -/
abbrev ExcusedCount (lists : List (TypeId × List Property)) (s : Session) : Prop :=
  Excuses lists s.store → CountedBut lists s

theorem keeps_exportedProperties (id : TypeId) :
    Keeps (CountedBut lists) (ExcusedCount lists) (exportedProperties id) := by
  constructor
  · intro s t ps hs run
    cases known : s.acceptedProperties.lookup id with
    | some qs =>
      cases (exportedProperties_known known).symm.trans run
      exact hs
    | none =>
      obtain ⟨there, -, rfl⟩ := exportedProperties_new known run
      exact hs.accepting known there
  · intro s t e hs run excused
    cases known : s.acceptedProperties.lookup id with
    | some qs => cases (exportedProperties_known known).symm.trans run
    | none =>
      obtain ⟨-, he⟩ | ⟨e', u, he, ⟨-, rfl⟩ | ⟨ps, declared, gated⟩⟩ :=
        exportedProperties_unknown known <;> cases he.symm.trans run
      · exact hs
      · -- The gate raised, so there was a list for the type.
        obtain ⟨⟨p, hp, unkeyed⟩, refused, rfl⟩ := gateProperties_error gated
        have unaskable : ¬Askable s.store id := fun askable => by
          simp [askable ps declared p hp] at unkeyed
        obtain ⟨memo, table, -⟩ := hs
        have listed := isSome_lookup_recalling (s := { s with acceptedProperties := memo })
          (excused id unaskable)
        rw [recalling, ← table, known] at listed
        cases listed

theorem generating_countedBut : Generating (CountedBut lists) (ExcusedCount lists) := by
  have asking : Asking (CountedBut lists) (ExcusedCount lists) :=
    { faulted := fun _ hs _ => hs
      refused := fun _ _ other hs => hs.of_same ⟨rfl, rfl⟩ rfl fun _ =>
        List.count_cons_of_ne fun same => other (congrArg Prod.fst same)
      exportedProperties := keeps_exportedProperties }
  have lasting : Lasting (CountedBut lists) (ExcusedCount lists) :=
    { toAsking := asking
      recorded := fun _ _ hs => hs.of_same ⟨rfl, rfl⟩ rfl fun _ => rfl
      registered := fun _ _ _ _ _ _ _ _ hs => hs.of_same ⟨rfl, rfl⟩ rfl fun _ => rfl
      measured := asking.isStructBlittable fun _ _ hs => hs.of_same ⟨rfl, rfl⟩ rfl fun _ => rfl
      home := fun _ _ _ => trivial
      declared := fun _ _ _ _ _ => trivial
      saved := keeps_saveUnit asking.faulted fun _ _ hs => hs.of_same ⟨rfl, rfl⟩ rfl fun _ => rfl
      extended := fun _ _ hs => hs.of_same ⟨rfl, rfl⟩ rfl fun _ => rfl
      marked := fun _ _ hs => hs.of_same ⟨rfl, rfl⟩ rfl fun _ => rfl
      passedOver := fun _ _ hs => hs.of_same ⟨rfl, rfl⟩ rfl fun _ => rfl }
  exact lasting.sustained.generating
    (fun _ _ hs => hs.of_same ⟨rfl, rfl⟩ rfl fun _ => rfl)
    fun _ _ hs excused => (hs excused).of_same ⟨rfl, rfl⟩ rfl fun _ => rfl

end

/-- An operation in which the gate raises nowhere counts each refusal once. -/
theorem RefusalsCounted.run {operation : Operation} (h : RefusalsCounted s) (linked : Linked s)
    (returns : operation.GateReturns s) : RefusalsCounted (operation.run s).2 := by
  have leaves (lists : List (TypeId × List Property)) :
      Leaves (CountedBut lists) (ExcusedCount lists) (operation.run (s.recalling lists)) :=
    generating_countedBut.run operation
      ((countedBut_recalling.2 h).reads (linked.of_same rfl rfl) (operation.reads _))
  obtain result | ⟨lists, excused, same⟩ := returns
  · have left := leaves []
    rw [recalling_nil] at left
    rcases outcome : operation.run s with ⟨e | x, t⟩
    · simp [outcome, Except.isOk, Except.toBool] at result
    · rw [outcome] at left
      exact countedBut_recalling.1 (by rwa [recalling_nil])
  · have left := leaves lists
    rw [same] at left
    rcases outcome : operation.run s with ⟨e | x, t⟩ <;> rw [outcome] at left excused
    · exact countedBut_recalling.1 (left excused)
    · exact countedBut_recalling.1 left

theorem refusalsCounted_after {operations : List Operation} (h : RefusalsCounted s)
    (linked : Linked s) (returns : GateReturns s operations) :
    RefusalsCounted (after s operations) := by
  induction operations generalizing s with
  | nil => exact h
  | cons operation rest ih =>
    exact ih (h.run linked returns.1)
      (stepwise_linked.enduring.run (fun _ h => h) operation linked) returns.2

/-- Each refused property is counted once. Whatever a session is asked for, with its policy, while the
property gate raises nowhere: the count of a kind is the number of the properties of that kind that
are refused, over the types whose exported properties have been computed, however often and in
whatever order those and the layouts were asked for. -/
theorem refusals_counted_once {policy : Policy} {packaging : Packaging} {fileExtension : Value}
    {files : Workspace} {operations : List Operation}
    (returns : GateReturns (fresh policy packaging fileExtension files) operations) :
    let s := after (fresh policy packaging fileExtension files) operations
    (∀ id ∈ s.computed, (s.store.type id).properties?.isSome) ∧
      ∀ kind, s.rejectionCount .properties kind = ∑ id ∈ s.computed, s.refusals kind id := by
  have start : RefusalsCounted (fresh policy packaging fileExtension files) :=
    ⟨fun _ hid => absurd hid (Finset.notMem_empty _), fun _ => rfl⟩
  have counted := refusalsCounted_after start (linked_fresh policy packaging fileExtension files)
    returns
  exact ⟨counted.declared, counted.counts⟩

/-- An enum, a struct with a delegate, a class with a delegate for scripts and one that is hidden, and
a struct whose gate raises. -/
def delegatesDocument : Value :=
  .object [("types", .list [
    .object [("kind", .text "enum"), ("name", .text "E"), ("module", .text "M")],
    .object [("kind", .text "struct"), ("name", .text "S"), ("module", .text "M"),
      ("properties", .list [
        .object [("name", .text "d"), ("kind", .text "delegate"),
          ("flags", .list [.text "blueprint_visible"])]])],
    .object [("kind", .text "class"), ("name", .text "C"), ("module", .text "M"),
      ("properties", .list [
        .object [("name", .text "d"), ("kind", .text "delegate"),
          ("flags", .list [.text "blueprint_visible"])],
        .object [("name", .text "h"), ("kind", .text "delegate")],
        .object [("name", .text "s"), ("kind", .text "struct"), ("type", .text "S"),
          ("flags", .list [.text "blueprint_visible"])]])],
    .object [("kind", .text "struct"), ("name", .text "U"), ("module", .text "M"),
      ("properties", .list [.object [("name", .list []), ("kind", .text "bool")]])]])]

def delegatesOperations : List Operation :=
  [.adopt delegatesDocument, .properties 0, .layout (some 1), .properties 1, .visit true 2,
    .exportAs .struct 1, .layout (some 1)]

theorem refusals_counted_once_of_delegates :
    let s := after ringSession delegatesOperations
    GateReturns ringSession delegatesOperations ∧ s.computed = {1, 2} ∧
      s.rejectionCount .properties .delegate = 2 ∧ s.refusals .delegate 1 = 1 ∧
      s.refusals .delegate 2 = 1 ∧
      ∀ kind, s.rejectionCount .properties kind = ∑ id ∈ s.computed, s.refusals kind id := by
  have returns : GateReturns ringSession delegatesOperations :=
    ⟨.inl (by decide +kernel), gateReturns_properties_iff.2 (.inr (by decide +kernel)),
      .inl (by decide +kernel), .inl (by decide +kernel), .inl (by decide +kernel),
      .inl (by decide +kernel), .inl (by decide +kernel), trivial⟩
  exact ⟨returns, by decide +kernel, by decide +kernel, by decide +kernel, by decide +kernel,
    (refusals_counted_once returns).2⟩

end ScriptGlue.Session
