import ScriptGlue.Proofs.Session.SharedNames
import ScriptGlue.Proofs.Session.StructMarshalling

/-! # Fields of structs with the native layout

A struct with the native layout is copied as it lies in memory, so its unit is nothing but fields:
one for each script name of its exported properties, in their order. Every exported property has its
field just if the names are apart; of two that share a name the second has none.
-/
namespace ScriptGlue
open ScriptGlue.Action

namespace Session

variable {s t u v w x y : Session} {id : TypeId} {p : Property} {ps : List Property} {owner : Name}

def IsNativeSingle (p : Property) : Prop :=
  p.arrayDim = 1 ∧ (p.kind = .struct ∨ isPlainLayout p)

theorem isNativeSingle_of_yes {struct : Option TypeId → Generation Bool}
    (h : isPropertyBlittable struct p s = (.ok true, t)) : IsNativeSingle p := by
  unfold isPropertyBlittable at h
  split at h
  · next single =>
    refine ⟨single, ?_⟩
    by_cases kind : p.kind = .struct
    · exact .inl kind
    · rw [isValueBlittable_plain kind] at h
      exact .inr (pure_eq_ok.1 h).1
  · cases (pure_eq_ok.1 h).1

/-- What is remembered to have the native layout has exported properties that may have it. -/
def Measured (s : Session) : Prop := ∀ id, s.blittable.lookup (some id) = some true →
  ∃ ps, s.acceptedProperties.lookup id = some ps ∧ ∀ p ∈ ps, IsNativeSingle p

theorem Measured.of_same (h : Measured s) (layouts : t.blittable = s.blittable)
    (properties : t.acceptedProperties = s.acceptedProperties) : Measured t := by
  unfold Measured
  rwa [layouts, properties]

theorem Measured.accepting (h : Measured s) (new : s.acceptedProperties.lookup id = none) :
    Measured (s.accepting id) := fun d native => by
  obtain ⟨ps, known, single⟩ := h d native
  exact ⟨ps, ((Retains.refl s).accepting new).properties d ps known, single⟩

theorem Measured.noting (h : Measured s) {ref : Option TypeId} {b : Bool}
    (right : b = true → ∀ id, ref = some id →
      ∃ ps, s.acceptedProperties.lookup id = some ps ∧ ∀ p ∈ ps, IsNativeSingle p) :
    Measured { s with blittable := (ref, b) :: s.blittable } := fun d native => by
  rw [List.lookup_cons] at native
  split at native
  · next same => exact right (Option.some.inj native) d (beq_iff_eq.1 same).symm
  · exact h d native

theorem gated_measured : Gated Measured Measured where
  faulted _ h := h
  refused _ _ h := h.of_same rfl rfl
  accepted _ _ new _ h := h.accepting new

/-- The finding out of a layout leaves what is remembered right: a yes is only noted when each of the
remembered properties has said yes. -/
theorem structBlittableWithin_measured (fuel : Nat) (ref : Option TypeId) :
    Keeps Measured Measured (structBlittableWithin fuel ref) := by
  induction fuel generalizing ref with
  | zero => exact .throw (fun _ h => h) _
  | succ fuel ih =>
    refine .of_outcome fun s hs => ?_
    cases known : s.blittable.lookup ref with
    | some b => rwa [structBlittableWithin_known fuel known]
    | none =>
      -- until the members are asked the entry says no, which is never wrong
      have taken : Measured { s with blittable := (ref, false) :: s.blittable } :=
        hs.noting fun no => by cases no
      cases ref with
      | none =>
        rw [structBlittableWithin_none fuel known]
        exact taken
      | some id =>
        have nested (s : Session) (ref : Option TypeId) :
            Keeps (Retains s) (Retains s) (structBlittableWithin fuel ref) :=
          .of_outcome fun t h => h.trans (structBlittableWithin_retains fuel ref t)
        have gated := gated_measured.exportedProperties id
        rw [structBlittableWithin_new fuel known, measureLayout, Action.bind_assoc]
        rcases passed : exportedProperties id _ with ⟨e | ps, v⟩
        · rw [bind_of_error passed]
          exact gated.fault taken passed
        have asked : Keeps Measured Measured
            (ps.allM (isPropertyBlittable (structBlittableWithin fuel))) :=
          .allM fun p _ => Asking.isPropertyBlittable ih p
        rw [bind_of_ok passed]
        rcases all : ps.allM (isPropertyBlittable (structBlittableWithin fuel)) v with ⟨e | b, w⟩
        · rw [bind_of_error all]
          exact asked.fault (gated.result taken passed) all
        · rw [bind_of_ok all]
          refine (asked.result (gated.result taken passed) all).noting fun yes d same => ?_
          cases same
          subst yes
          have retains : Retains v w :=
            (Keeps.allM fun p _ => Asking.isPropertyBlittable (nested v) p).result (.refl v) all
          refine ⟨ps, retains.properties _ ps (exportedProperties_remembered passed), fun p hp => ?_⟩
          obtain ⟨_, _, said⟩ := allM_eq_true all p hp
          exact isNativeSingle_of_yes said

theorem Later.measured (later : Later s t) (h : Measured s) : Measured t := by
  induction later with
  | refl => exact h
  | layout ref _ ih =>
    rw [isStructBlittable_apply]
    exact (structBlittableWithin_measured _ ref).outcome ih
  | properties _ new ih => exact ih.accepting new
  | other _ layouts properties _ _ _ ih => exact ih.of_same layouts properties

/-- The unit has the native layout and is nothing but fields: in the session they are named and
typed as the properties, in their order. -/
structure DeclaresFields (u : Session) (owner : Name) (ps : List Property) (unit : StructUnit) :
    Prop where
  attributes : unit.attributes =
    [.line "[UStruct(IsBlittable = true)]", .line "[StructLayout(LayoutKind.Sequential)]"]
  code : unit.code = unit.declaration
  fields : ∃ fs : List MirrorField, unit.body = fs.map (fun f => .line f.text) ∧
    List.Forall₂ (fun p f => ∃ name, propertyName p owner = .ok name ∧ f.name = name.plain ∧
      scriptType p u = (.ok f.type, u)) ps fs

def leftOut (owner : Name) : List Name → List Property → List (Property × Name)
  | _, [] => []
  | taken, p :: rest =>
    match propertyName p owner with
    | .error _ => leftOut owner taken rest
    | .ok name =>
      if name.memberOf taken then (p, name) :: leftOut owner taken rest
      else leftOut owner (name :: taken) rest

theorem firstNamed_leftOut_perm {taken : List Name}
    (named : ∀ p ∈ ps, ∃ name, propertyName p owner = .ok name) :
    (firstNamed owner taken ps ++ (leftOut owner taken ps).map Prod.fst).Perm ps := by
  induction ps generalizing taken with
  | nil => exact .nil
  | cons p rest ih =>
    obtain ⟨⟨name, hname⟩, others⟩ := List.forall_mem_cons.1 named
    unfold leftOut
    rw [hname]
    by_cases known : name.memberOf taken
    · rw [firstNamed_cons_taken hname known]
      dsimp only
      rw [if_pos known]
      exact List.perm_middle.trans ((ih others).cons p)
    · rw [firstNamed_cons_new hname known]
      dsimp only
      rw [if_neg known]
      exact (ih others).cons p

theorem named_of_leftOut {taken : List Name} :
    ∀ x ∈ leftOut owner taken ps, propertyName x.1 owner = .ok x.2 := by
  induction ps generalizing taken with
  | nil => exact fun _ hx => absurd hx List.not_mem_nil
  | cons p rest ih =>
    unfold leftOut
    split
    · exact ih
    · next name named =>
      split
      · exact List.forall_mem_cons.2 ⟨named, ih⟩
      · exact ih

def fieldWarning (n : TypeNode) (x : Property × Name) : Record where
  level := .warning
  source := .structs
  text := n.label ++ "." ++ x.1.label ++ " maps to the already declared field " ++ x.2.plain ++
    "; skipping it"

/-- The records have been made since, in their order. -/
def Recorded (s t : Session) (rs : List Record) : Prop :=
  ∃ added, t.workspace.journal.toList = s.workspace.journal.toList ++ added ∧ rs.Sublist added

namespace Recorded
variable {rs qs : List Record}

theorem refl (s : Session) : Recorded s s [] := ⟨[], by simp, .slnil⟩

theorem trans (first : Recorded s t rs) (later : Recorded t u qs) : Recorded s u (rs ++ qs) := by
  obtain ⟨a, ha, inA⟩ := first
  obtain ⟨b, hb, inB⟩ := later
  exact ⟨a ++ b, by rw [hb, ha, List.append_assoc], inA.append inB⟩

theorem after (first : Recorded s t []) (later : Recorded t u qs) : Recorded s u qs :=
  first.trans later

theorem of_same (h : Recorded s t rs) (same : u.workspace.journal = t.workspace.journal) :
    Recorded s u rs := by
  unfold Recorded
  rwa [same]

theorem record (h : Recorded s t rs) (r : Record) :
    Recorded s { t with workspace := t.workspace.record r } (rs ++ [r]) :=
  h.trans ⟨[r], by simp [Workspace.record], .refl _⟩

/-- Whatever the makers of parts record, what was recorded before stays. -/
theorem inert (s : Session) : Inert (Recorded s · []) (Recorded s · []) where
  faulted _ h := h
  refused _ _ h := h.of_same rfl
  accepted _ _ _ _ h := h.of_same rfl
  recorded _ r h := (h.trans (((refl _).record r).imp fun _ ⟨more, _⟩ => ⟨more, List.nil_sublist _⟩))
  registered _ _ _ _ _ h := h.of_same rfl
  measured _ _ _ h := h.of_same rfl

end Recorded

theorem recorded_of_structMembers {n : TypeNode} {blittable : Bool} {taken : List Name}
    {members : List StructMember} (h : structMembers n blittable taken ps s = (.ok members, t)) :
    Recorded s t ((leftOut (scriptName n) taken ps).map (fieldWarning n)) := by
  induction ps generalizing taken s members with
  | nil =>
    obtain ⟨-, rfl⟩ := pure_eq_ok.1 h
    exact .refl s
  | cons p rest ih =>
    obtain ⟨name, _, hname, h⟩ := bind_eq_ok.1 h
    obtain ⟨named, rfl⟩ := ofExcept_eq_ok.1 hname
    unfold leftOut
    rw [named]
    dsimp only
    split at h
    · next known =>
      obtain ⟨_, _, warned, h⟩ := bind_eq_ok.1 h
      obtain ⟨others, _, later, h⟩ := bind_eq_ok.1 h
      obtain ⟨-, rfl⟩ := pure_eq_ok.1 h
      cases warned
      have warning : Record.mk .warning .structs (n.label ++ "." ++ p.label ++
          " maps to the already declared " ++ "field" ++ " " ++ name.plain ++ "; skipping it") =
          fieldWarning n (p, name) := by
        simp [fieldWarning, ← String.toList_inj]
      rw [if_pos known, List.map_cons, ← List.singleton_append, ← warning]
      exact ((Recorded.refl s).record _).trans (ih later)
    · next new =>
      obtain ⟨_, _, got, h⟩ := bind_eq_ok.1 h
      cases got
      obtain ⟨f, v, shown, h⟩ := bind_eq_ok.1 h
      obtain ⟨others, _, later, h⟩ := bind_eq_ok.1 h
      obtain ⟨-, rfl⟩ := pure_eq_ok.1 h
      rw [if_neg new]
      exact (((Recorded.inert _).steady.mirrorField _ _ _).result (.refl _) shown).after (ih later)

/-- A unit without marshalling is nothing but the fields of the first of each name, and the others are
warned of. -/
theorem declaresFields_of_structUnit {n : TypeNode} {unit : StructUnit}
    (single : ∀ p ∈ ps, IsNativeSingle p) (made : structUnit id n ps s = (.ok unit, t))
    (native : unit.mirroring.isNone) :
    DeclaresFields t (scriptName n) (firstNamed (scriptName n) [] ps) unit ∧
      (∀ p ∈ ps, ∃ name, propertyName p (scriptName n) = .ok name) ∧
      Recorded s t ((leftOut (scriptName n) [] ps).map (fieldWarning n)) := by
  have keeps := (Recorded.inert s).steady
  obtain ⟨space, _, spaced, h⟩ := bind_eq_ok.1 made
  obtain ⟨b, _, measured, h⟩ := bind_eq_ok.1 h
  obtain ⟨members, v, listed, h⟩ := bind_eq_ok.1 h
  cases b with
  | false =>
    obtain ⟨mirrored, _, hmirrored, h⟩ := bind_eq_ok.1 h
    obtain ⟨m, _, -, hmirrored⟩ := bind_eq_ok.1 hmirrored
    obtain ⟨rfl, -⟩ := pure_eq_ok.1 hmirrored
    obtain ⟨rfl, -⟩ := pure_eq_ok.1 h
    cases native
  | true =>
    obtain ⟨rfl, rfl⟩ := pure_eq_ok.1 h
    have before := (keeps.measured _).result ((keeps.spaceOf trivial).result (.refl s) spaced) measured
    have recorded := before.after (recorded_of_structMembers listed)
    have listed := structMembers_ok listed
    obtain ⟨fs, rfl, each⟩ := listed.fields rfl
    refine ⟨⟨rfl, List.append_nil _, fs, ?_, ?_⟩, listed.named, recorded⟩
    · show (fs.map StructMember.mirror).flatMap StructMember.code ++ [] = _
      rw [List.append_nil, List.flatMap_map]
      exact List.map_eq_flatMap.symm
    · have inside := (firstNamed_sublist (scriptName n) [] ps).subset
      refine ((List.forall₂_and_left _ _).2 ⟨fun p hp => single p (inside hp), each⟩).imp ?_
      rintro p f ⟨⟨one, -⟩, name, named, mirrors⟩
      exact ⟨name, named, mirrors.name, mirrors.type (by simp [Property.isFixedArray, one])⟩

/-- A struct with three fields; the name of the first is that of the struct, and what it is changed
to is that of the second. -/
def crowdedDocument : Value :=
  .object [("types", .list [
    .object [("kind", .text "struct"), ("name", .text "S"), ("module", .text "M"),
      ("properties", .list [field "S", field "S_", field "T"])]])]
where
  field (name : String) : Value :=
    .object [("name", .text name), ("kind", .text "int32"),
      ("flags", .list [.text "blueprint_visible"])]

def crowdedSession : Session :=
  ({ packaging := { scriptsDir := .text "out" } } : Session).course [.run (.adopt crowdedDocument)]

theorem crowded_run : (exportedProperties 0).gives crowdedSession fun ps v =>
    (structUnit 0 (v.store.type 0) ps).gives v fun unit x => (isStructBlittable (some 0)).gives x
      fun native _ => native && decide (0 < v.store.size) &&
        ps.map Property.name == [.text "S", .text "S_", .text "T"] &&
        unit.body == [.line "public int S_;", .line "public int T;"] := by
  decide +kernel

/-- The properties of the struct, their names distinct, when its unit has been made. -/
structure MakesCrowded (ps : List Property) (v : Session) (unit : StructUnit) (x : Session) :
    Prop where
  passed : exportedProperties 0 crowdedSession = (.ok ps, v)
  here : 0 < v.store.size
  made : structUnit 0 (v.store.type 0) ps v = (.ok unit, x)
  native : ∃ y, isStructBlittable (some 0) x = (.ok true, y)
  names : ps.map Property.name = [.text "S", .text "S_", .text "T"]
  body : unit.body = [.line "public int S_;", .line "public int T;"]

theorem makesCrowded : ∃ ps v unit x, MakesCrowded ps v unit x := by
  obtain ⟨ps, v, passed, runs⟩ := exists_of_gives crowded_run
  obtain ⟨unit, x, made, runs⟩ := exists_of_gives runs
  obtain ⟨native, y, asked, runs⟩ := exists_of_gives runs
  simp only [Bool.and_eq_true, decide_eq_true_eq, beq_iff_eq] at runs
  obtain ⟨⟨⟨rfl, here⟩, names⟩, body⟩ := runs
  exact ⟨ps, v, unit, x, passed, here, made, ⟨y, asked⟩, names, body⟩

end Session

end ScriptGlue
