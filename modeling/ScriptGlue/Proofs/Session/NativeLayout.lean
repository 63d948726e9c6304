import Mathlib.Data.Finset.Card
import Mathlib.Data.Finset.Range
import Mathlib.Logic.Relation
import ScriptGlue.Proofs.Session.Fits
import ScriptGlue.Proofs.Session.Steady

/-! # Native layouts

A struct has the native layout if every property that passes is a single value that has it; the
structs with the native layout are the least set of this kind, so none of them contains itself. The
answer of a session is right for whatever it was asked before, although a struct counts as not
having the layout while that is being found out: a struct that meets an unfinished one contains
itself.
-/
namespace ScriptGlue.Session
open ScriptGlue.Action Relation

def isPlainLayout (p : Property) : Bool :=
  p.kind = .enum || p.kind = .name || p.kind.numeric?.isSome

/-- The struct holds the other one in a property that passes. -/
def Holds (s : Session) (id held : TypeId) : Prop :=
  ∃ p ∈ s.passedProperties id, p.kind = .struct ∧ p.ref = some held

/-- The least set of structs whose passed properties are single values, of kinds that have the
native layout or structs of the set. -/
inductive HasNativeLayout (s : Session) : TypeId → Prop
  | intro {id : TypeId} (single : ∀ p ∈ s.passedProperties id, p.arrayDim = 1)
      (plain : ∀ p ∈ s.passedProperties id, p.kind ≠ .struct → isPlainLayout p)
      (resolved : ∀ p ∈ s.passedProperties id, p.kind = .struct → p.ref.isSome)
      (held : ∀ d, Holds s id d → HasNativeLayout s d) : HasNativeLayout s id

theorem HasNativeLayout.held {s : Session} {id d : TypeId} (h : HasNativeLayout s id)
    (hd : Holds s id d) : HasNativeLayout s d := by
  cases h with
  | intro _ _ _ held => exact held d hd

theorem HasNativeLayout.not_cyclic {s : Session} {id : TypeId} (h : HasNativeLayout s id) :
    ¬TransGen (Holds s) id id := by
  induction h with
  | intro _ _ _ _ ih =>
    intro cycle
    obtain ⟨d, hd, rest⟩ := TransGen.head'_iff.1 cycle
    exact ih d hd (TransGen.tail' rest hd)

theorem SameRules.holds {s t : Session} (h : SameRules s t) : Holds t = Holds s := by
  funext id held
  simp only [Holds, h.passedProperties]

theorem SameRules.hasNativeLayout_of {s t : Session} (h : SameRules s t) {id : TypeId}
    (native : HasNativeLayout s id) : HasNativeLayout t id := by
  induction native with
  | @intro id single plain resolved _ ih =>
    rw [← h.passedProperties id] at single plain resolved
    rw [← h.holds] at ih
    exact .intro single plain resolved ih

theorem SameRules.hasNativeLayout {s t : Session} (h : SameRules s t) :
    HasNativeLayout t = HasNativeLayout s := by
  funext id
  exact propext ⟨h.symm.hasNativeLayout_of, h.hasNativeLayout_of⟩

def IsNativeValue (s : Session) (p : Property) : Prop :=
  p.arrayDim = 1 ∧ (p.kind ≠ .struct → isPlainLayout p) ∧
    (p.kind = .struct → ∃ d, p.ref = some d ∧ HasNativeLayout s d)

theorem hasNativeLayout_iff {s : Session} {id : TypeId} :
    HasNativeLayout s id ↔ ∀ p ∈ s.passedProperties id, IsNativeValue s p := by
  constructor
  · rintro ⟨single, plain, resolved, held⟩ p hp
    refine ⟨single p hp, plain p hp, fun struct => ?_⟩
    obtain ⟨d, hd⟩ := Option.isSome_iff_exists.1 (resolved p hp struct)
    exact ⟨d, hd, held d ⟨p, hp, struct, hd⟩⟩
  · intro h
    refine .intro (fun p hp => (h p hp).1) (fun p hp => (h p hp).2.1) ?_ ?_
    · intro p hp struct
      obtain ⟨d, hd, -⟩ := (h p hp).2.2 struct
      simp [hd]
    · rintro d ⟨p, hp, struct, hd⟩
      obtain ⟨d', hd', native⟩ := (h p hp).2.2 struct
      cases hd.symm.trans hd'
      exact native

theorem Holds.lt {s : Session} (linked : s.store.Linked) {id d : TypeId} (hid : id < s.store.size)
    (h : Holds s id d) : d < s.store.size := by
  obtain ⟨p, hp, -, hd⟩ := h
  exact (passedProperty_inside linked hid hp).ref hd

namespace Mirrors
variable {f : TypeId → TypeId} {s t : Session} (h : Mirrors f s t)
include h

theorem holds {id d : TypeId} (hid : id < s.store.size) :
    Holds t (f id) d ↔ ∃ e, Holds s id e ∧ f e = d := by
  simp only [Holds, h.passedProperties hid, List.mem_map]
  constructor
  · rintro ⟨_, ⟨p, hp, rfl⟩, kind, ref⟩
    rw [Property.relocate_ref] at ref
    obtain ⟨e, he, rfl⟩ := Option.map_eq_some_iff.1 ref
    exact ⟨e, ⟨p, hp, by simpa using kind, he⟩, rfl⟩
  · rintro ⟨e, ⟨p, hp, kind, ref⟩, rfl⟩
    exact ⟨_, ⟨p, hp, rfl⟩, by simpa using kind, by simp [ref]⟩

theorem hasNativeLayout_of {id : TypeId} (hid : id < s.store.size) (native : HasNativeLayout s id) :
    HasNativeLayout t (f id) := by
  induction native with
  | @intro id single plain resolved _ ih =>
    have passed := h.passedProperties hid
    refine .intro ?_ ?_ ?_ ?_
    · simpa [passed] using single
    · simpa [passed, isPlainLayout] using plain
    · simpa [passed] using resolved
    · intro d hd
      obtain ⟨e, he, rfl⟩ := (h.holds hid).1 hd
      exact ih e he (he.lt h.embeds.linked hid)

theorem hasNativeLayout {id : TypeId} (hid : id < s.store.size) :
    HasNativeLayout t (f id) ↔ HasNativeLayout s id := by
  refine ⟨fun native => ?_, h.hasNativeLayout_of hid⟩
  generalize moved : f id = x at native
  induction native generalizing id with
  | @intro x single plain resolved _ ih =>
    subst moved
    have passed := h.passedProperties hid
    refine .intro ?_ ?_ ?_ ?_
    · simpa [passed] using single
    · simpa [passed, isPlainLayout] using plain
    · simpa [passed] using resolved
    · intro d hd
      exact ih (f d) ((h.holds hid).2 ⟨d, hd, rfl⟩) (hd.lt h.embeds.linked hid) rfl

end Mirrors

/-- Every property of a type has a name that can be looked up by. -/
def Keyed (σ : TypeStore) : Prop :=
  ∀ id ps, (σ.type id).properties? = some ps → ∀ p ∈ ps, p.name.isKey

instance (σ : TypeStore) : Decidable (Keyed σ) :=
  decidable_of_iff (∀ id < σ.size, ∀ ps ∈ (σ.type id).properties?, ∀ p ∈ ps, p.name.isKey)
    ⟨fun h id ps hps => h id (TypeStore.lt_size_of_properties? hps) ps hps,
      fun h id _ ps hps => h id ps hps⟩

def RefersNative (s : Session) (ref : Option TypeId) : Prop :=
  ∃ id, ref = some id ∧ (s.store.type id).properties?.isSome ∧ HasNativeLayout s id

theorem refersNative_some {s : Session} {id : TypeId} (there : (s.store.type id).properties?.isSome) :
    RefersNative s (some id) ↔ HasNativeLayout s id := by
  simp [RefersNative, there]

theorem SameRules.refersNative {s t : Session} (h : SameRules s t) :
    RefersNative t = RefersNative s := by
  funext ref
  simp only [RefersNative, h.2, h.hasNativeLayout]

theorem Mirrors.refersNative {f : TypeId → TypeId} {s t : Session} (h : Mirrors f s t)
    {ref : Option TypeId} (inside : ∀ id ∈ ref, id < s.store.size) :
    RefersNative t (ref.map f) ↔ RefersNative s ref := by
  cases ref with
  | none => simp [RefersNative]
  | some id =>
    simp [RefersNative, h.embeds.node id (inside id rfl), TypeNode.relocate_properties?,
      h.hasNativeLayout (inside id rfl)]

/-- The answer is right for a reference, up to the structs that are being found out. -/
def Answers (s : Session) (unfinished : List TypeId) (ref : Option TypeId) : Bool → Prop
  | true => RefersNative s ref
  | false => (∃ id ∈ unfinished, ref = some id) ∨
      (∀ id ∈ ref, id < s.store.size) ∧ ¬RefersNative s ref

theorem Answers.right {s : Session} {ref : Option TypeId} {b : Bool} (h : Answers s [] ref b) :
    b = true ↔ RefersNative s ref := by
  cases b with
  | true => exact iff_of_true rfl h
  | false => exact iff_of_false Bool.false_ne_true (h.resolve_left (by simp)).2

/-- The memo tables are right for the rules of `s`, while some structs are being found out. -/
structure Remembers (s : Session) (unfinished : List TypeId) (t : Session) : Prop where
  rules : SameRules s t
  accepted : AcceptedRight t
  layouts : ∀ ref b, t.blittable.lookup ref = some b → Answers s unfinished ref b

namespace Remembers
variable {s t u : Session} {unfinished more : List TypeId}

/-- Nothing that leaves the rules and the table of layouts alone matters, as long as the table of
properties stays right. -/
theorem of_same (h : Remembers s unfinished t) (rules : SameRules t u)
    (layouts : u.blittable = t.blittable) (accepted : AcceptedRight u) :
    Remembers s unfinished u where
  rules := h.rules.trans rules
  accepted := accepted
  layouts := layouts ▸ h.layouts

/-- A right answer may be noted; it changes nothing for other structs. -/
theorem noting (h : Remembers s unfinished t) {ref : Option TypeId} {b : Bool}
    (right : Answers s more ref b) (others : ∀ d ∈ unfinished, ref ≠ some d → d ∈ more) :
    Remembers s more { t with blittable := (ref, b) :: t.blittable } where
  rules := h.rules
  accepted := h.accepted
  layouts other c known := by
    rw [List.lookup_cons] at known
    split at known
    · next same =>
      cases known
      rwa [beq_iff_eq.1 same]
    · next distinct =>
      have answer := h.layouts other c known
      cases c with
      | true => exact answer
      | false =>
        refine answer.imp_left ?_
        rintro ⟨d, hd, rfl⟩
        refine ⟨d, others d hd ?_, rfl⟩
        rintro rfl
        simp at distinct

end Remembers

theorem AcceptedRight.of_same {s t : Session} (h : AcceptedRight s) (rules : SameRules s t)
    (table : t.acceptedProperties = s.acceptedProperties) : AcceptedRight t := by
  intro id ps known
  rw [table] at known
  rw [rules.passedProperties, rules.2]
  exact h id ps known

theorem AcceptedRight.accepting {s : Session} (h : AcceptedRight s) {id : TypeId}
    (there : (s.store.type id).properties?.isSome) : AcceptedRight (s.accepting id) := by
  intro d ps known
  rw [Session.accepting, List.lookup_cons] at known
  split at known
  · next same =>
    cases known
    cases beq_iff_eq.1 same
    exact ⟨there, ((sameRules_accepting s id).passedProperties id).symm⟩
  · obtain ⟨hd, rfl⟩ := h d ps known
    exact ⟨hd, ((sameRules_accepting s id).passedProperties d).symm⟩

theorem gated_remembers (s : Session) (unfinished : List TypeId) :
    Gated (Remembers s unfinished) fun _ => True where
  faulted _ _ := trivial
  refused _ _ h := h.of_same ⟨rfl, rfl⟩ rfl (h.accepted.of_same ⟨rfl, rfl⟩ rfl)
  accepted t id _ there h :=
    h.of_same (sameRules_accepting t id) rfl (h.accepted.accepting there)

def measureLayout (fuel : Nat) (id : TypeId) : Generation Bool := do
  (← exportedProperties id).allM (isPropertyBlittable (structBlittableWithin fuel))

section
variable {s t : Session} {ref : Option TypeId}

theorem structBlittableWithin_known {b : Bool} (fuel : Nat)
    (known : s.blittable.lookup ref = some b) :
    structBlittableWithin (fuel + 1) ref s = (.ok b, s) := by
  simp only [structBlittableWithin, bind_apply, get_apply, known]
  rfl

theorem structBlittableWithin_new {id : TypeId} (fuel : Nat)
    (unknown : s.blittable.lookup (some id) = none) :
    structBlittableWithin (fuel + 1) (some id) s = (do
      let result ← measureLayout fuel id
      modify fun s => { s with blittable := (some id, result) :: s.blittable }
      return result : Generation Bool) { s with blittable := (some id, false) :: s.blittable } := by
  rw [measureLayout, Action.bind_assoc]
  simp only [structBlittableWithin, bind_apply, get_apply, unknown]
  rfl

theorem structBlittableWithin_none (fuel : Nat) (unknown : s.blittable.lookup none = none) :
    structBlittableWithin (fuel + 1) none s =
      (.error .missingPart, { s with blittable := (none, false) :: s.blittable }) := by
  simp only [structBlittableWithin, bind_apply, get_apply, unknown]
  rfl

theorem isStructBlittable_apply (ref : Option TypeId) (s : Session) :
    isStructBlittable ref s = structBlittableWithin (s.store.size + 2) ref s :=
  bind_of_ok (get_apply s) fun s => structBlittableWithin (s.store.size + 2) ref

end

theorem isValueBlittable_plain {struct : Option TypeId → Generation Bool} {p : Property}
    (kind : p.kind ≠ .struct) : isValueBlittable struct p = pure (isPlainLayout p) := by
  unfold isValueBlittable isPlainLayout
  cases hk : p.kind <;> first | exact absurd hk kind | rfl

/-- The answer for a property is right if the answer for the struct it holds is. -/
theorem isPropertyBlittable_meets {s : Session} {I : Session → Prop} {J : Fault → Session → Prop}
    {p : Property} {struct : Option TypeId → Generation Bool}
    (held : p.kind = .struct → Meets I J (struct p.ref) fun b =>
      b = true ↔ ∃ d, p.ref = some d ∧ HasNativeLayout s d) :
    Meets I J (isPropertyBlittable struct p) fun b => b = true ↔ IsNativeValue s p := by
  unfold isPropertyBlittable
  by_cases single : p.arrayDim = 1
  · rw [if_pos single]
    by_cases kind : p.kind = .struct
    · simpa [isValueBlittable, IsNativeValue, single, kind] using held kind
    · rw [isValueBlittable_plain kind]
      exact .pure (by simp [IsNativeValue, single, kind])
  · rw [if_neg single]
    exact .pure (by simp [IsNativeValue, single])

def vacant (t : Session) : Finset TypeId :=
  (Finset.range t.store.size).filter fun d => (t.blittable.lookup (some d)).isNone

theorem mem_vacant {t : Session} {d : TypeId} :
    d ∈ t.vacant ↔ d < t.store.size ∧ t.blittable.lookup (some d) = none := by
  simp [vacant]

theorem card_vacant_le (t : Session) : t.vacant.card ≤ t.store.size :=
  (Finset.card_filter_le _ _).trans (Finset.card_range _).le

theorem vacant_noting (t : Session) (id : TypeId) (b : Bool) :
    vacant { t with blittable := (some id, b) :: t.blittable } = t.vacant.erase id := by
  ext d
  simp only [mem_vacant, Finset.mem_erase, List.lookup_cons]
  by_cases same : d = id
  · simp [same]
  · have other : (some d == some id) = false := by simpa using same
    rw [other]
    simp only [ne_eq, same, not_false_eq_true, true_and]

/-- The tables are right while some structs are being found out. If the question must come to an end
there is fuel for every type without an entry. -/
structure Finding (strict : Prop) (s : Session) (unfinished : List TypeId) (fuel : Nat)
    (t : Session) : Prop where
  right : Remembers s unfinished t
  fuelled : strict → t.vacant.card < fuel

section
variable {strict : Prop} {s : Session} {unfinished : List TypeId} {fuel : Nat}

theorem gated_finding : Gated (Finding strict s unfinished fuel) fun _ => True where
  faulted _ _ := trivial
  refused t e h := ⟨(gated_remembers s unfinished).refused t e h.right, h.fuelled⟩
  accepted t id new there h :=
    ⟨(gated_remembers s unfinished).accepted t id new there h.right, h.fuelled⟩

theorem exportedProperties_finding (keyed : strict → Keyed s.store) {id : TypeId}
    (there : strict → (s.store.type id).properties?.isSome) :
    Meets (Finding strict s unfinished fuel) (fun _ _ => ¬strict) (exportedProperties id)
      fun ps => (s.store.type id).properties?.isSome ∧ ps = s.passedProperties id where
  result ht h := by
    have right := exportedProperties_ok ht.right.accepted h
    rw [ht.right.rules.2, ht.right.rules.passedProperties] at right
    exact ⟨right, (gated_finding.exportedProperties id).result ht h⟩
  fault ht h must := by
    obtain ⟨cause, -⟩ := exportedProperties_error h
    rw [ht.right.rules.2] at cause
    obtain absent | ⟨ps, hps, p, hp, unkeyed⟩ := cause
    · simpa [absent] using there must
    · cases (keyed must id ps hps p hp).symm.trans unkeyed

theorem properties_of_held {id : TypeId} {p : Property} (hp : p ∈ s.passedProperties id)
    (struct : p.kind = .struct) : ∃ d, p.ref = some d ∧ (s.store.type d).properties?.isSome := by
  have refers := (passable_of_passesProperty (List.mem_filter.1 hp).2).refers
  rw [struct] at refers
  exact refers.properties

/-- What is answered is right: a struct that meets an unfinished one contains itself. Of a type with
properties there is an answer if their names can be looked up by and the fuel suffices. -/
theorem structBlittableWithin_finding (keyed : strict → Keyed s.store) {ref : Option TypeId}
    (there : strict → ∃ id, ref = some id ∧ (s.store.type id).properties?.isSome)
    (meets : ∀ id, ref = some id → ∀ g ∈ unfinished, TransGen (Holds s) g id) :
    Meets (Finding strict s unfinished fuel) (fun _ _ => ¬strict) (structBlittableWithin fuel ref)
      (Answers s unfinished ref) := by
  induction fuel generalizing unfinished ref with
  | zero => exact .throw fun _ ht must => absurd (ht.fuelled must) (Nat.not_lt_zero _)
  | succ fuel ih =>
    -- Taking up a struct uses one vacancy, so the nested questions have the fuel they need.
    have taken {id : TypeId} {t : Session} (ht : Finding strict s unfinished (fuel + 1) t)
        (must : strict → (s.store.type id).properties?.isSome)
        (unknown : t.blittable.lookup (some id) = none) : Finding strict s (id :: unfinished) fuel
          { t with blittable := (some id, false) :: t.blittable } := by
      refine ⟨ht.right.noting (.inl ⟨id, List.mem_cons_self, rfl⟩) fun d hd _ =>
        List.mem_cons_of_mem _ hd, fun hstrict => ?_⟩
      have inside := TypeStore.lt_size_of_isSome (must hstrict)
      rw [← ht.right.rules.2] at inside
      have mem : id ∈ t.vacant := mem_vacant.2 ⟨inside, unknown⟩
      rw [vacant_noting]
      exact Nat.lt_of_lt_of_le (Finset.card_erase_lt_of_mem mem)
        (Nat.le_of_lt_succ (ht.fuelled hstrict))
    have measured {id : TypeId} (must : strict → (s.store.type id).properties?.isSome)
        (loops : ∀ g ∈ unfinished, TransGen (Holds s) g id) :
        Meets (Finding strict s (id :: unfinished) fuel) (fun _ _ => ¬strict) (measureLayout fuel id)
          fun c => (s.store.type id).properties?.isSome ∧ (c = true ↔ HasNativeLayout s id) := by
      refine (exportedProperties_finding keyed must).bind ?_
      rintro ps ⟨properties, rfl⟩
      refine (Meets.allM_iff (P := IsNativeValue s) fun p hp =>
        isPropertyBlittable_meets fun struct => ?_).imp
          fun c right => ⟨properties, right.trans hasNativeLayout_iff.symm⟩
      obtain ⟨d, hd, there⟩ := properties_of_held hp struct
      have held : Holds s id d := ⟨p, hp, struct, hd⟩
      have within : ∀ g ∈ id :: unfinished, TransGen (Holds s) g d := by
        intro g hg
        obtain rfl | hg := List.mem_cons.1 hg
        · exact .single held
        · exact .tail (loops g hg) held
      rw [hd]
      refine (ih (fun _ => ⟨d, rfl, there⟩) fun _ same g hg => ?_).imp fun b answer => ?_
      · cases same
        exact within g hg
      · simp only [Option.some.injEq, exists_eq_left']
        cases b with
        | true => exact iff_of_true rfl ((refersNative_some there).1 answer)
        | false =>
          refine iff_of_false Bool.false_ne_true fun native => ?_
          obtain ⟨_, mem, same⟩ | ⟨-, foreign⟩ := answer
          · cases same
            exact native.not_cyclic (within d mem)
          · exact foreign ((refersNative_some there).2 native)
    constructor
    · intro t u b ht h
      cases known : t.blittable.lookup ref with
      | some c =>
        cases (structBlittableWithin_known fuel known).symm.trans h
        exact ⟨ht.right.layouts ref b known, ht⟩
      | none =>
        cases ref with
        | none => cases (structBlittableWithin_none fuel known).symm.trans h
        | some id =>
          have must (hstrict : strict) : (s.store.type id).properties?.isSome := by
            simpa using there hstrict
          rw [structBlittableWithin_new fuel known] at h
          obtain ⟨c, v, hc, h⟩ := bind_eq_ok.1 h
          obtain ⟨_, w, hnote, h⟩ := bind_eq_ok.1 h
          obtain rfl := modify_eq_ok.1 hnote
          obtain ⟨rfl, rfl⟩ := pure_eq_ok.1 h
          obtain ⟨⟨properties, native⟩, hv⟩ :=
            (measured must (meets id rfl)).result (taken ht must known) hc
          rw [← refersNative_some properties] at native
          have answer : Answers s unfinished (some id) c := by
            cases c with
            | true => exact native.1 rfl
            | false =>
              refine .inr ⟨?_, fun native' => Bool.false_ne_true (native.2 native')⟩
              rintro _ ⟨⟩
              exact TypeStore.lt_size_of_isSome properties
          refine ⟨answer, hv.right.noting answer fun d hd other => ?_, fun hstrict => ?_⟩
          · exact (List.mem_cons.1 hd).resolve_left fun same => other (same ▸ rfl)
          · rw [vacant_noting]
            exact Nat.lt_succ_of_le ((Finset.card_erase_le).trans (hv.fuelled hstrict).le)
    · intro t u e ht h hstrict
      obtain ⟨id, rfl, properties⟩ := there hstrict
      cases known : t.blittable.lookup (some id) with
      | some c => cases (structBlittableWithin_known fuel known).symm.trans h
      | none =>
        rw [structBlittableWithin_new fuel known] at h
        obtain hc | ⟨c, v, -, h⟩ := bind_eq_error.1 h
        · exact (measured (fun _ => properties) (meets id rfl)).fault
            (taken ht (fun _ => properties) known) hc hstrict
        · cases h

end

def Coherent (s : Session) : Prop := Remembers s [] s

/-- What is right by the rules of one session is right by the same rules of another. -/
theorem Remembers.rebase {s t u : Session} {unfinished : List TypeId}
    (h : Remembers s unfinished t) (rules : SameRules s u) : Remembers u unfinished t where
  rules := rules.symm.trans h.rules
  accepted := h.accepted
  layouts ref b known := by
    have answer := h.layouts ref b known
    cases b <;> simpa only [Answers, rules.2, rules.refersNative] using answer

theorem Remembers.coherent {s t : Session} (h : Remembers s [] t) : Coherent t := h.rebase h.rules

section
variable {s t u : Session} {ref : Option TypeId} {b : Bool}

/-- Whether a struct has the native layout is answered rightly, and what is remembered stays
right. -/
theorem isStructBlittable_remembers (ht : Remembers s [] t)
    (h : isStructBlittable ref t = (.ok b, u)) :
    (b = true ↔ RefersNative s ref) ∧ Remembers s [] u := by
  rw [isStructBlittable_apply] at h
  have finding : Finding False s [] (t.store.size + 2) t := ⟨ht, False.elim⟩
  obtain ⟨answer, hu⟩ :=
    (structBlittableWithin_finding False.elim False.elim (by simp)).result finding h
  exact ⟨answer.right, hu.right⟩

theorem keeps_isStructBlittable (s : Session) (ref : Option TypeId) :
    Keeps (Remembers s []) (fun _ => True) (isStructBlittable ref) where
  result ht h := (isStructBlittable_remembers ht h).2
  fault _ _ := trivial

theorem isStructBlittable_total (keyed : Keyed s.store) (ht : Remembers s [] t) {id : TypeId}
    (there : (s.store.type id).properties?.isSome) :
    ∃ b u, isStructBlittable (some id) t = (.ok b, u) ∧ Remembers s [] u ∧
      (b = true ↔ HasNativeLayout s id) := by
  rcases run : isStructBlittable (some id) t with ⟨e | b, u⟩
  · rw [isStructBlittable_apply] at run
    have enough := Nat.lt_of_le_of_lt t.card_vacant_le (Nat.lt_add_of_pos_right (Nat.succ_pos 1))
    have finding : Finding True s [] (t.store.size + 2) t := ⟨ht, fun _ => enough⟩
    exact ((structBlittableWithin_finding (fun _ => keyed) (fun _ => ⟨id, rfl, there⟩)
      (by simp)).fault finding run trivial).elim
  · obtain ⟨right, hu⟩ := isStructBlittable_remembers ht run
    exact ⟨b, u, rfl, hu, right.trans (refersNative_some there)⟩

end

/-- What is remembered of the properties stays right when types join the store. -/
theorem AcceptedRight.mirror {s t : Session} (h : AcceptedRight s) (grown : Mirrors id s t)
    (accepted : t.acceptedProperties = s.acceptedProperties) : AcceptedRight t := by
  intro d ps known
  rw [accepted] at known
  obtain ⟨there, rfl⟩ := h d ps known
  have hd := TypeStore.lt_size_of_isSome there
  have passed := (grown.passedProperties hd).trans (Property.map_relocate_id _)
  rw [← (grown.embeds.node d hd).trans (TypeNode.relocate_id _)] at there
  exact ⟨there, passed.symm⟩

theorem Coherent.mirror {s t : Session} (h : Coherent s) (grown : Mirrors id s t)
    (accepted : t.acceptedProperties = s.acceptedProperties)
    (blittable : t.blittable = s.blittable) : Coherent t where
  rules := SameRules.refl t
  accepted := h.accepted.mirror grown accepted
  layouts ref b known := by
    rw [blittable] at known
    have native {ref : Option TypeId} (inside : ∀ id ∈ ref, id < s.store.size) :
        RefersNative t ref ↔ RefersNative s ref := by
      have := grown.refersNative inside
      rwa [Option.map_id] at this
    have answer := h.layouts ref b known
    cases b with
    | true =>
      refine (native ?_).2 answer
      obtain ⟨id, rfl, there, -⟩ := answer
      rintro _ ⟨⟩
      exact TypeStore.lt_size_of_isSome there
    | false =>
      obtain ⟨inside, foreign⟩ := answer.resolve_left (by simp)
      exact .inr ⟨fun id hid => Nat.lt_of_lt_of_le (inside id hid) grown.embeds.size_le,
        mt (native inside).1 foreign⟩

end ScriptGlue.Session
