import ScriptGlue.Proofs.Names
import ScriptGlue.Proofs.Session.Gate

/-! # Wider policies

A policy is wider than another one if it whitelists at least as much and blacklists at most as much,
whatever either of them relaxes; so one gets wider by whitelisting, and narrower by blacklisting.
What passes a gate under a policy passes it under every wider one.
-/
namespace ScriptGlue

namespace NameList
variable {l m : NameList} {field : TypeField} {owner name category : Name}

/-- All entries of the one list are entries of the other. -/
structure Within (l m : NameList) : Prop where
  types : ∀ field name, l.hasType field name → m.hasType field name
  members : ∀ field owner name, l.hasMember field owner name → m.hasMember field owner name

theorem Within.refl (l : NameList) : l.Within l := ⟨fun _ _ h => h, fun _ _ _ h => h⟩

theorem Within.trans {n : NameList} (h : l.Within m) (g : m.Within n) : l.Within n :=
  ⟨fun _ _ listed => g.types _ _ (h.types _ _ listed),
    fun _ _ _ listed => g.members _ _ _ (h.members _ _ _ listed)⟩

theorem Within.hasCategory (h : l.Within m) (listed : l.hasCategory owner category) :
    m.hasCategory owner category := by
  unfold NameList.hasCategory at listed ⊢
  rw [Bool.and_eq_true] at listed ⊢
  exact ⟨listed.1, h.members _ _ _ listed.2⟩

theorem hasPair_of_subset {pairs more : List (Name × Name)} {pair : Name × Name}
    (subset : pairs ⊆ more) (h : hasPair pairs pair) : hasPair more pair := by
  obtain ⟨known, hknown, alike⟩ := List.any_eq_true.1 h
  exact List.any_eq_true.2 ⟨known, subset hknown, alike⟩

theorem subset_foldl_addPair (pairs more : List (Name × Name)) :
    pairs ⊆ more.foldl addPair pairs := by
  refine List.foldlRecOn (motive := (pairs ⊆ ·)) _ _ (List.Subset.refl pairs) fun known h pair _ => ?_
  unfold addPair
  split
  · exact h
  · exact List.Subset.trans h (List.subset_append_left _ _)

theorem within_addMembers (l : NameList) (field : MemberField) (pairs : List (Name × Name)) :
    l.Within (l.addMembers field pairs) where
  types other name h := by
    cases field <;> exact h
  members other owner name h := by
    refine hasPair_of_subset ?_ h
    cases field <;> cases other <;>
      first | exact subset_foldl_addPair _ _ | exact List.Subset.refl _

end NameList

namespace Policy
variable {p q : Policy} {owner name category : Name}

/-- The second policy whitelists at least what the first does, and blacklists at most that. -/
structure Wider (p q : Policy) : Prop where
  whitelist : p.whitelist.Within q.whitelist
  internalWhitelist : p.internalWhitelist.Within q.internalWhitelist
  blacklist : q.blacklist.Within p.blacklist

theorem Wider.trans {r : Policy} (h : p.Wider q) (g : q.Wider r) : p.Wider r :=
  ⟨h.whitelist.trans g.whitelist, h.internalWhitelist.trans g.internalWhitelist,
    g.blacklist.trans h.blacklist⟩

theorem wider_whitelisting (p : Policy) {m : NameList} (more : p.whitelist.Within m) :
    p.Wider (p.setList .whitelist m) := ⟨more, .refl _, .refl _⟩

theorem wider_of_blacklisting (p : Policy) {m : NameList} (more : p.blacklist.Within m) :
    (p.setList .blacklist m).Wider p := ⟨.refl _, .refl _, more⟩

theorem not_of_imp {a b : Bool} (imp : a → b) (denied : !b) : !a := by
  rw [Bool.not_eq_true'] at denied ⊢
  exact Bool.eq_false_iff.2 fun holds => Bool.eq_false_iff.1 denied (imp holds)

theorem Wider.allowsClass (h : p.Wider q) (ok : p.allowsClass name) : q.allowsClass name :=
  not_of_imp (h.blacklist.types _ _) ok

theorem Wider.allowsStruct (h : p.Wider q) (ok : p.allowsStruct name) : q.allowsStruct name :=
  not_of_imp (h.blacklist.types _ _) ok

theorem Wider.allowsEnum (h : p.Wider q) (ok : p.allowsEnum name) : q.allowsEnum name := by
  unfold Policy.allowsEnum at ok ⊢
  rw [Bool.or_eq_true] at ok ⊢
  exact ok.imp (h.whitelist.types _ _) (not_of_imp (h.blacklist.types _ _))

theorem Wider.allowsProperty (h : p.Wider q) (ok : p.allowsProperty owner name) :
    q.allowsProperty owner name := by
  unfold Policy.allowsProperty at ok ⊢
  rw [Bool.or_eq_true] at ok ⊢
  exact ok.imp (h.whitelist.members _ _ _) (not_of_imp (h.blacklist.members _ _ _))

theorem Wider.forcesProperty (h : p.Wider q) (ok : p.forcesProperty owner name) :
    q.forcesProperty owner name := by
  unfold Policy.forcesProperty at ok ⊢
  rw [Bool.or_eq_true] at ok ⊢
  exact ok.imp (h.whitelist.members _ _ _) (h.whitelist.types _ _)

theorem Wider.allowsFunction (h : p.Wider q) (ok : p.allowsFunction owner name category) :
    q.allowsFunction owner name category := by
  unfold Policy.allowsFunction at ok ⊢
  rw [Bool.and_eq_true, Bool.or_eq_true] at ok ⊢
  exact ok.imp
    (Or.imp (not_of_imp (h.blacklist.members _ _ _)) (h.whitelist.members _ _ _))
    (not_of_imp h.blacklist.hasCategory)

/-- A function that a policy allows has a category that can be looked up, or none, so every policy
can be asked about it. -/
theorem canAskFunction_of_allowed (asked : p.canAskFunction owner name category)
    (ok : p.allowsFunction owner name category) : q.canAskFunction owner name category := by
  unfold Policy.canAskFunction at asked ⊢
  unfold Policy.allowsFunction at ok
  simp only [Bool.and_eq_true, Bool.or_eq_true, Bool.not_eq_true'] at asked ok ⊢
  obtain ⟨key, plain | ⟨listed, unlisted⟩⟩ := asked
  · exact ⟨key, .inl plain⟩
  · obtain ⟨free | white, -⟩ := ok
    · cases free.symm.trans listed
    · cases unlisted.symm.trans white

end Policy

namespace Property
variable {p q : Policy} {store : TypeStore} {x : Property}

theorem refSatisfies_imp {test test' : TypeNode → Bool} (imp : ∀ t, test t → test' t)
    (ok : x.refSatisfies store test) : x.refSatisfies store test' := by
  unfold refSatisfies at ok ⊢
  rw [Option.any_eq_true] at ok ⊢
  obtain ⟨id, found, holds⟩ := ok
  exact ⟨id, found, imp _ holds⟩

theorem isHandledAlone_of_wider (h : p.Wider q) (ok : x.isHandledAlone p store) :
    x.isHandledAlone q store := by
  unfold isHandledAlone at ok ⊢
  cases kind : x.kind with
  | enum =>
    rw [kind] at ok
    refine refSatisfies_imp (fun t => ?_) ok
    simp only [Bool.and_eq_true]
    exact And.imp_right h.allowsEnum
  | struct =>
    rw [kind] at ok
    refine refSatisfies_imp (fun t => ?_) ok
    simp only [Bool.and_eq_true]
    exact And.imp_right h.allowsStruct
  | object | subclass | softObject | weakObject =>
    rw [kind] at ok
    refine refSatisfies_imp (fun t => ?_) ok
    simp only [Bool.and_eq_true]
    exact And.imp_right h.allowsClass
  | interface | delegate | multicastDelegate =>
    rw [kind] at ok
    exact ok
  | _ => rfl

theorem isHandledElement_of_wider (h : p.Wider q) {e : Option Property}
    (ok : isHandledElement p store e) : isHandledElement q store e := by
  cases e with
  | none => exact ok
  | some e =>
    unfold isHandledElement at ok ⊢
    rw [Bool.and_eq_true] at ok ⊢
    exact ok.imp_right (isHandledAlone_of_wider h)

theorem isHandled_of_wider (h : p.Wider q) (ok : x.isHandled p store) : x.isHandled q store := by
  unfold isHandled at ok ⊢
  split
  · next container =>
    rw [if_pos container] at ok
    exact List.all_eq_true.2 fun e he => isHandledElement_of_wider h (List.all_eq_true.1 ok e he)
  · next alone =>
    rw [if_neg alone] at ok
    exact isHandledAlone_of_wider h ok

end Property

namespace Session
open ScriptGlue.Action
variable {s t u : Session} {owner : TypeNode} {x : Property} {f : Function} {id : TypeId}

theorem passesProperty_iff : s.passesProperty owner x ↔
    s.policy.allowsProperty owner.name x.name ∧
      (isVisible x ∨ s.policy.forcesProperty owner.name x.name) ∧ s.isSupported owner x := by
  rw [passesProperty, decide_eq_true_iff, propertyVerdict]
  cases s.policy.allowsProperty owner.name x.name <;> cases isVisible x <;>
    cases s.policy.forcesProperty owner.name x.name <;> cases s.isSupported owner x <;> simp

/-- The gate of properties gives a result just if it can look up every name. -/
theorem gateProperties_returns_iff {ps : List Property} :
    (∃ qs u, gateProperties owner ps s = (.ok qs, u)) ↔ ∀ p ∈ ps, p.name.isKey := by
  induction ps generalizing s with
  | nil => exact ⟨fun _ => by simp, fun _ => ⟨[], s, rfl⟩⟩
  | cons p rest ih =>
    constructor
    · rintro ⟨qs, u, h⟩
      obtain ⟨b, v, hp, h⟩ := bind_eq_ok.1 h
      obtain ⟨others, w, hrest, -⟩ := bind_eq_ok.1 h
      refine List.forall_mem_cons.2 ⟨?_, ih.1 ⟨others, w, hrest⟩⟩
      rw [canExportProperty_apply] at hp
      split at hp
      · next key => exact key
      · cases hp
    · intro keys
      obtain ⟨key, keys⟩ := List.forall_mem_cons.1 keys
      obtain ⟨b, v, hp⟩ : ∃ b v, canExportProperty owner p s = (.ok b, v) := by
        rw [canExportProperty_apply, if_pos key]
        cases s.propertyVerdict owner p <;> exact ⟨_, _, rfl⟩
      obtain ⟨others, w, hrest⟩ := (ih (s := v)).2 keys
      exact ⟨_, w, (bind_of_ok hp _).trans ((bind_of_ok hrest _).trans rfl)⟩

section
variable (store : t.store = s.store) (wider : s.policy.Wider t.policy)
include store wider

theorem passesProperty_of_wider (ok : s.passesProperty owner x) : t.passesProperty owner x := by
  obtain ⟨allowed, asked, supported⟩ := passesProperty_iff.1 ok
  refine passesProperty_iff.2
    ⟨wider.allowsProperty allowed, asked.imp_right wider.forcesProperty, ?_⟩
  unfold isSupported at supported ⊢
  rw [Bool.and_eq_true] at supported ⊢
  rw [store]
  exact supported.imp_right (Property.isHandled_of_wider wider)

theorem canPassAs_of_wider {role : Role} (ok : s.canPassAs x role) : t.canPassAs x role := by
  unfold canPassAs at ok ⊢
  rw [Bool.and_eq_true] at ok ⊢
  rw [store]
  exact ok.imp_right (Property.isHandled_of_wider wider)

/-- The properties that pass under a policy are among those that pass under a wider one, in the same
order. -/
theorem exportedProperties_of_wider {ps : List Property}
    (unknown : s.acceptedProperties.lookup id = none)
    (unknown' : t.acceptedProperties.lookup id = none)
    (h : exportedProperties id s = (.ok ps, u)) :
    ∃ qs v, exportedProperties id t = (.ok qs, v) ∧ ps.Sublist qs := by
  simp only [exportedProperties, bind_apply, get_apply, unknown] at h
  simp only [exportedProperties, bind_apply, get_apply, unknown', store]
  cases properties : (s.store.type id).properties? with
  | none =>
    rw [properties] at h
    cases h
  | some all =>
    rw [properties] at h
    obtain ⟨passed, v, gated, h⟩ := bind_eq_ok.1 h
    obtain ⟨_, _, -, h⟩ := bind_eq_ok.1 h
    obtain ⟨rfl, -⟩ := pure_eq_ok.1 h
    obtain ⟨qs, w, gated'⟩ :=
      (gateProperties_returns_iff (s := t)).2 (gateProperties_returns_iff.1 ⟨_, _, gated⟩)
    refine ⟨qs, _, (bind_of_ok gated' _).trans rfl, ?_⟩
    rw [(gateProperties_ok gated).1, (gateProperties_ok gated').1]
    exact List.monotone_filter_right all fun p => passesProperty_of_wider store wider

omit store in
theorem admitsFunction_of_wider {name : Name} (ok : admitsFunction s.policy name f) :
    admitsFunction t.policy name f := by
  unfold admitsFunction at ok ⊢
  simp only [Bool.and_eq_true, Bool.or_eq_true] at ok ⊢
  obtain ⟨⟨allowed, callable⟩, internal⟩ := ok
  exact ⟨⟨wider.allowsFunction allowed, callable⟩,
    internal.imp_right (wider.internalWhitelist.members _ _ _)⟩

theorem canExportParameters_of_wider {overridable : Bool} {ps : List Property}
    (ok : ∀ p ∈ ps, s.canPassAs p (parameterRole overridable p).1) :
    canExportParameters overridable ps t = (.ok true, t) := by
  induction ps with
  | nil => rfl
  | cons p rest ih =>
    obtain ⟨first, rest⟩ := List.forall_mem_cons.1 ok
    rw [canExportParameters_cons, if_pos (canPassAs_of_wider store wider first)]
    exact ih rest

theorem canExportFunction_of_wider (h : canExportFunction owner f s = (.ok true, u)) :
    canExportFunction owner f t = (.ok true, t) := by
  have passes := (canExportFunction_ok h).1.symm
  unfold passesFunction at passes
  rw [Bool.and_eq_true] at passes
  obtain ⟨admitted, parameters⟩ := passes
  rw [canExportFunction_apply] at h ⊢
  split at h
  · next asked =>
    have allowed : s.policy.allowsFunction owner.name f.name f.category := by
      unfold admitsFunction at admitted
      simp only [Bool.and_eq_true] at admitted
      exact admitted.1.1
    rw [if_pos (Policy.canAskFunction_of_allowed asked allowed),
      if_pos (admitsFunction_of_wider wider admitted)]
    exact canExportParameters_of_wider store wider (List.all_eq_true.1 parameters)
  · cases h

theorem canDerive_of_wider (ok : s.canDerive id) : t.canDerive id := by
  unfold canDerive at ok ⊢
  rw [store]
  simp only [Bool.or_eq_true, Bool.and_eq_true] at ok ⊢
  refine ok.imp_right (And.imp_right (Or.imp_left (Or.imp_right ?_)))
  exact wider.whitelist.types _ _

end

/-- Two sessions with the same types, the second one under a wider policy. The properties of a type
that pass in the first one are among those that pass in the second one, in the same order, if neither
has asked for them before; and every function that passes its gate in the first one, and every class,
struct and enum that is admitted there, passes and is admitted in the second one too. -/
theorem gates_of_wider (store : t.store = s.store) (wider : s.policy.Wider t.policy) :
    (∀ id ps u, s.acceptedProperties.lookup id = none → t.acceptedProperties.lookup id = none →
      exportedProperties id s = (.ok ps, u) →
        ∃ qs v, exportedProperties id t = (.ok qs, v) ∧ ps.Sublist qs) ∧
    (∀ owner f u, canExportFunction owner f s = (.ok true, u) →
      ∃ v, canExportFunction owner f t = (.ok true, v)) ∧
    (∀ id, s.shouldExportClass id → t.shouldExportClass id) ∧
    (∀ id, s.shouldExportStruct id → t.shouldExportStruct id) ∧
    ∀ id, s.shouldExportEnum id → t.shouldExportEnum id := by
  refine ⟨fun _ _ _ => exportedProperties_of_wider store wider,
    fun _ _ _ h => ⟨t, canExportFunction_of_wider store wider h⟩, fun id ok => ?_, fun id ok => ?_,
    fun id ok => ?_⟩
  · unfold shouldExportClass at ok ⊢
    rw [Bool.and_eq_true] at ok ⊢
    rw [store]
    exact ok.imp wider.allowsClass (canDerive_of_wider store wider)
  · unfold shouldExportStruct at ok ⊢
    rw [store]
    simp only [Bool.and_eq_true, Bool.or_eq_true] at ok ⊢
    exact ok.imp wider.allowsStruct (Or.imp_right (wider.whitelist.types _ _))
  · unfold shouldExportEnum at ok ⊢
    rw [store]
    exact wider.allowsEnum ok

/-- A struct with two visible fields and a hidden one between them. -/
def fieldsSession (policy : Policy) : Session where
  policy
  packaging := { scriptsDir := .text "out" }
  store := #[{
    name := .text "S", home := { name := .text "M" }
    body := .struct [
      { name := .text "X", kind := .int32, owner := .text "S",
        flags := [.text (Flag.label .blueprintVisible)] },
      { name := .text "Y", kind := .int32, owner := .text "S" },
      { name := .text "Z", kind := .int32, owner := .text "S",
        flags := [.text (Flag.label .blueprintVisible)] }] }]

def narrowPolicy : Policy := ({} : Policy).setList .blacklist
  (NameList.addMembers {} .properties [(.text "S", .text "X")])

def widePolicy : Policy := ({} : Policy).setList .whitelist
  (NameList.addMembers {} .properties [(.text "S", .text "Y")])

theorem fieldsSession_exports :
    (match exportedProperties 0 (fieldsSession narrowPolicy),
        exportedProperties 0 (fieldsSession widePolicy) with
    | (.ok ps, _), (.ok qs, _) =>
      ps.map Property.label == ["Z"] && qs.map Property.label == ["X", "Y", "Z"]
    | _, _ => false) = true := by decide +kernel

theorem gates_of_wider_of_fields : ∃ ps qs u v,
    narrowPolicy.Wider widePolicy ∧
      exportedProperties 0 (fieldsSession narrowPolicy) = (.ok ps, u) ∧
      exportedProperties 0 (fieldsSession widePolicy) = (.ok qs, v) ∧
      ps.map Property.label = ["Z"] ∧ qs.map Property.label = ["X", "Y", "Z"] ∧ ps.Sublist qs := by
  have exports := fieldsSession_exports
  split at exports
  · next ps u qs v exported exported' =>
    simp only [Bool.and_eq_true, beq_iff_eq] at exports
    have wider : narrowPolicy.Wider widePolicy :=
      (Policy.wider_of_blacklisting _ (NameList.within_addMembers ..)).trans
        (Policy.wider_whitelisting _ (NameList.within_addMembers ..))
    obtain ⟨rs, w, again, sublist⟩ :=
      (gates_of_wider (s := fieldsSession narrowPolicy) (t := fieldsSession widePolicy) rfl
        wider).1 0 ps u rfl rfl exported
    cases exported'.symm.trans again
    exact ⟨ps, qs, u, v, wider, exported, exported', exports.1, exports.2, sublist⟩
  · cases exports

end Session
end ScriptGlue
