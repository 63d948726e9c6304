import ScriptGlue.Proofs.Session.Frames
import ScriptGlue.Proofs.Session.Repetition

/-! # Properties that share a script name

Of properties that are given one name in the script only the first gets a member: it alone is looked
up in the static constructor, gets a wrapper in a class, and a field in a struct. The handles of a
struct are kept for all of them.
-/
namespace ScriptGlue
open ScriptGlue.Action

namespace Session

variable {s u v : Session} {t : TypeNode} {p : Property} {ps : List Property} {owner name : Name}
  {taken : List Name} {blittable : Bool}

/-- The properties whose script name is neither taken nor that of an earlier one. -/
def firstNamed (owner : Name) : List Name → List Property → List Property
  | _, [] => []
  | taken, p :: rest =>
    match propertyName p owner with
    | .error _ => firstNamed owner taken rest
    | .ok name =>
      if name.memberOf taken then firstNamed owner taken rest
      else p :: firstNamed owner (name :: taken) rest

/-- No two of the properties are given one script name. -/
def NamedApart (owner : Name) (ps : List Property) : Prop :=
  ps.Pairwise fun p q => ∀ a b, propertyName p owner = .ok a → propertyName q owner = .ok b →
    a.alike b = false

theorem firstNamed_cons_taken (named : propertyName p owner = .ok name)
    (known : name.memberOf taken) :
    firstNamed owner taken (p :: ps) = firstNamed owner taken ps := by
  rw [firstNamed, named]
  exact if_pos known

theorem firstNamed_cons_new (named : propertyName p owner = .ok name)
    (new : ¬name.memberOf taken) :
    firstNamed owner taken (p :: ps) = p :: firstNamed owner (name :: taken) ps := by
  rw [firstNamed, named]
  exact if_neg new

theorem firstNamed_sublist (owner : Name) (taken : List Name) (ps : List Property) :
    (firstNamed owner taken ps).Sublist ps := by
  induction ps generalizing taken with
  | nil => exact .slnil
  | cons p rest ih =>
    unfold firstNamed
    split
    · exact (ih taken).cons p
    · split
      · exact (ih taken).cons p
      · exact (ih _).cons_cons p

theorem firstNamed_of_apart (named : ∀ p ∈ ps, ∃ name, propertyName p owner = .ok name)
    (new : ∀ p ∈ ps, ∀ name, propertyName p owner = .ok name → ¬name.memberOf taken)
    (apart : NamedApart owner ps) : firstNamed owner taken ps = ps := by
  induction ps generalizing taken with
  | nil => rfl
  | cons p rest ih =>
    obtain ⟨⟨name, hname⟩, others⟩ := List.forall_mem_cons.1 named
    obtain ⟨here, later⟩ := List.pairwise_cons.1 apart
    rw [firstNamed_cons_new hname (new p List.mem_cons_self name hname)]
    refine congrArg (p :: ·) (ih others (fun q hq other hother => ?_) later)
    intro known
    obtain ⟨k, hk, same⟩ := List.any_eq_true.1 known
    obtain rfl | hk := List.mem_cons.1 hk
    · exact Bool.false_ne_true ((here q hq _ _ hname hother).symm.trans same)
    · exact new q (List.mem_cons_of_mem p hq) other hother (List.any_eq_true.2 ⟨k, hk, same⟩)

theorem firstNamed_ne_cons : firstNamed owner taken ps ≠ p :: ps := by
  intro same
  have short := (firstNamed_sublist owner taken ps).length_le
  rw [same] at short
  exact Nat.not_succ_le_self _ short

theorem apart_of_firstNamed (all : firstNamed owner taken ps = ps) :
    NamedApart owner ps ∧ ∀ p ∈ ps, ∀ name, propertyName p owner = .ok name →
      ¬name.memberOf taken := by
  induction ps generalizing taken with
  | nil => exact ⟨.nil, by simp⟩
  | cons p rest ih =>
    cases named : propertyName p owner with
    | error e =>
      rw [firstNamed, named] at all
      exact absurd all firstNamed_ne_cons
    | ok name =>
      by_cases known : name.memberOf taken
      · rw [firstNamed_cons_taken named known] at all
        exact absurd all firstNamed_ne_cons
      · rw [firstNamed_cons_new named known, List.cons.injEq] at all
        obtain ⟨apart, others⟩ := ih all.2
        have new {q : Property} (hq : q ∈ rest) {other : Name}
            (hother : propertyName q owner = .ok other) :
            name.alike other = false ∧ ¬other.memberOf taken := by
          have fresh := others q hq other hother
          simpa [Value.memberOf] using fresh
        refine ⟨.cons (fun q hq a b ha hb => ?_) apart, fun q hq other hother => ?_⟩
        · cases named.symm.trans ha
          exact (new hq hb).1
        · obtain rfl | hq := List.mem_cons.1 hq
          · cases named.symm.trans hother
            exact known
          · exact (new hq hother).2

theorem firstNamed_eq_iff (named : ∀ p ∈ ps, ∃ name, propertyName p owner = .ok name) :
    firstNamed owner [] ps = ps ↔ NamedApart owner ps :=
  ⟨fun all => (apart_of_firstNamed all).1,
    firstNamed_of_apart named fun _ _ _ _ known => by cases known⟩

theorem distinctLookups_eq (owner : Name) (taken : List Name) (ps : List Property) :
    distinctLookups owner taken ps =
      (firstNamed owner taken ps).flatMap fun p => propertyLookups p p.label := by
  induction ps generalizing taken with
  | nil => rfl
  | cons p rest ih =>
    cases named : propertyName p owner with
    | error e => simp only [distinctLookups, firstNamed, named, ih]
    | ok name =>
      by_cases known : name.memberOf taken
      · simp only [distinctLookups, firstNamed, named, known, ↓reduceIte, ih]
      · simp [distinctLookups, firstNamed, named, known, ih]

structure ShowsProperty (p : Property) (w : WrapperProperty) : Prop where
  native : w.native = p.label
  fixed : w.isFixedArray = p.isFixedArray
  marshaller : ∃ s u, marshaller p p.label s = (.ok w.marshaller, u)
  fields : w.fields = propertyFields p false

theorem showsProperty_of_wrapperProperty {w : WrapperProperty} {shown : String}
    {relaxed forced : Bool} (h : wrapperProperty p shown relaxed forced s = (.ok w, u)) :
    ShowsProperty p w := by
  obtain ⟨type, _, -, h⟩ := bind_eq_ok.1 h
  obtain ⟨m, v, marshals, h⟩ := bind_eq_ok.1 h
  obtain ⟨rfl, -⟩ := pure_eq_ok.1 h
  exact ⟨rfl, rfl, ⟨_, v, marshals⟩, rfl⟩

theorem wrapperProperties_ok {ws : List WrapperProperty}
    (h : wrapperProperties t taken ps s = (.ok ws, u)) :
    List.Forall₂ ShowsProperty (firstNamed (scriptName t) taken ps) ws := by
  induction ps generalizing taken s ws with
  | nil =>
    obtain ⟨rfl, -⟩ := pure_eq_ok.1 h
    exact .nil
  | cons p rest ih =>
    obtain ⟨name, _, hname, h⟩ := bind_eq_ok.1 h
    obtain ⟨named, rfl⟩ := ofExcept_eq_ok.1 hname
    split at h
    · next known =>
      obtain ⟨_, _, -, h⟩ := bind_eq_ok.1 h
      rw [firstNamed_cons_taken named known]
      exact ih h
    · next new =>
      obtain ⟨_, _, -, h⟩ := bind_eq_ok.1 h
      obtain ⟨w, _, shown, h⟩ := bind_eq_ok.1 h
      obtain ⟨others, _, later, h⟩ := bind_eq_ok.1 h
      obtain ⟨rfl, rfl⟩ := pure_eq_ok.1 h
      rw [firstNamed_cons_new named new]
      exact .cons (showsProperty_of_wrapperProperty shown) (ih later)

def handlesOf (blittable : Bool) (p : Property) : List StructMember :=
  if blittable then [] else [.handles (propertyFields p true)]

/-- In the session the field mirrors the property under a name. -/
structure MirrorsField (u : Session) (p : Property) (name : Name) (f : MirrorField) : Prop where
  name : f.name = name.plain
  type : p.isFixedArray = false → scriptType p u = (.ok f.type, u)

/-- The members of a struct, property by property. -/
inductive ListsMembers (u : Session) (owner : Name) (blittable : Bool) :
    List Name → List Property → List StructMember → Prop
  | nil (taken : List Name) : ListsMembers u owner blittable taken [] []
  | taken {p : Property} {rest : List Property} {name : Name} {taken : List Name}
      {others : List StructMember} (named : propertyName p owner = .ok name)
      (known : name.memberOf taken) (tail : ListsMembers u owner blittable taken rest others) :
      ListsMembers u owner blittable taken (p :: rest) (handlesOf blittable p ++ others)
  | first {p : Property} {rest : List Property} {name : Name} {taken : List Name}
      {others : List StructMember} {f : MirrorField} (named : propertyName p owner = .ok name)
      (new : ¬name.memberOf taken) (mirrors : MirrorsField u p name f)
      (tail : ListsMembers u owner blittable (name :: taken) rest others) :
      ListsMembers u owner blittable taken (p :: rest)
        (handlesOf blittable p ++ .mirror f :: others)

theorem inert_subsequent (s : Session) : Inert (Subsequent s) (Subsequent s) where
  faulted _ h := h
  refused _ _ h := h.trans ⟨rfl, rfl, rfl, rfl, List.prefix_rfl⟩
  accepted _ _ _ _ h := h.trans ⟨rfl, rfl, rfl, rfl, List.prefix_rfl⟩
  recorded _ _ h := h.files _
  registered _ _ _ _ _ h := h.trans ⟨rfl, rfl, rfl, rfl, List.prefix_append _ _⟩
  measured _ _ _ h := h.trans ⟨rfl, rfl, rfl, rfl, List.prefix_rfl⟩

theorem mirrorsField_of_mirrorField {f : MirrorField} {relaxed : Bool}
    (h : mirrorField p name.plain relaxed s = (.ok f, u)) (later : Subsequent u v) :
    MirrorsField v p name f := by
  obtain ⟨type, w, typed, h⟩ := bind_eq_ok.1 h
  obtain ⟨type', w', hfixed, h⟩ := bind_eq_ok.1 h
  obtain ⟨rfl, rfl⟩ := pure_eq_ok.1 h
  refine ⟨rfl, fun single => ?_⟩
  rw [single] at hfixed
  obtain ⟨same, rfl⟩ := ofExcept_eq_ok.1 hfixed
  cases same
  exact (Repeats.scriptType p s _ _ (bind_of_ok typed _)).2 v later

theorem structMembers_ok {members : List StructMember}
    (h : structMembers t blittable taken ps s = (.ok members, u)) :
    ListsMembers u (scriptName t) blittable taken ps members := by
  induction ps generalizing taken s members with
  | nil =>
    obtain ⟨rfl, -⟩ := pure_eq_ok.1 h
    exact .nil taken
  | cons p rest ih =>
    obtain ⟨name, _, hname, h⟩ := bind_eq_ok.1 h
    obtain ⟨named, rfl⟩ := ofExcept_eq_ok.1 hname
    split at h
    · next known =>
      obtain ⟨_, _, -, h⟩ := bind_eq_ok.1 h
      obtain ⟨others, _, later, h⟩ := bind_eq_ok.1 h
      obtain ⟨rfl, rfl⟩ := pure_eq_ok.1 h
      exact .taken named known (ih later)
    · next new =>
      obtain ⟨_, _, -, h⟩ := bind_eq_ok.1 h
      obtain ⟨f, v, shown, h⟩ := bind_eq_ok.1 h
      obtain ⟨others, _, later, h⟩ := bind_eq_ok.1 h
      obtain ⟨rfl, rfl⟩ := pure_eq_ok.1 h
      have subsequent := ((inert_subsequent v).steady.structMembers _ _ _ _).result (.refl v) later
      exact .first named new (mirrorsField_of_mirrorField shown subsequent) (ih later)

namespace ListsMembers
variable {members : List StructMember} (h : ListsMembers u owner blittable taken ps members)
include h

theorem named : ∀ p ∈ ps, ∃ name, propertyName p owner = .ok name := by
  induction h with
  | nil => simp
  | taken named _ _ ih => exact List.forall_mem_cons.2 ⟨⟨_, named⟩, ih⟩
  | first named _ _ _ ih => exact List.forall_mem_cons.2 ⟨⟨_, named⟩, ih⟩

/-- The handles of each property are among the members, whatever its name. -/
theorem handles (native : blittable = false) :
    ∀ p ∈ ps, .handles (propertyFields p true) ∈ members := by
  subst native
  induction h with
  | nil => simp
  | taken _ _ _ ih =>
    exact List.forall_mem_cons.2 ⟨List.mem_cons_self, fun q hq => List.mem_cons_of_mem _ (ih q hq)⟩
  | first _ _ _ _ ih =>
    exact List.forall_mem_cons.2 ⟨List.mem_cons_self,
      fun q hq => List.mem_cons_of_mem _ (List.mem_cons_of_mem _ (ih q hq))⟩

/-- With the native layout the members are the fields of the first of each name. -/
theorem fields (native : blittable = true) : ∃ fs : List MirrorField,
    members = fs.map .mirror ∧ List.Forall₂ (fun p f => ∃ name, propertyName p owner = .ok name ∧
      MirrorsField u p name f) (firstNamed owner taken ps) fs := by
  subst native
  induction h with
  | nil => exact ⟨[], rfl, .nil⟩
  | taken named known _ ih =>
    rw [firstNamed_cons_taken named known]
    exact ih
  | @first _ _ _ _ _ f named new mirrors _ ih =>
    rw [firstNamed_cons_new named new]
    obtain ⟨fs, rfl, each⟩ := ih
    exact ⟨f :: fs, rfl, .cons ⟨_, named, mirrors⟩ each⟩

end ListsMembers

end Session

end ScriptGlue
