import ScriptGlue.Proofs.Action
import ScriptGlue.Proofs.Graph.Relocation
import ScriptGlue.Session.Gate

/-! # What passes the gates

The properties, functions and events that pass, as functions of the policy and the types alone. A
run of a gate gives just these and changes nothing but the count of refusals.
-/
namespace ScriptGlue.Session
open ScriptGlue.Action

/-- Same policy and same types, so the gates answer the same. -/
def SameRules (s t : Session) : Prop := t.policy = s.policy ∧ t.store = s.store

theorem SameRules.refl (s : Session) : SameRules s s := ⟨rfl, rfl⟩

theorem SameRules.symm {s t : Session} (h : SameRules s t) : SameRules t s :=
  ⟨h.1.symm, h.2.symm⟩

theorem SameRules.trans {s t u : Session} (h : SameRules s t) (g : SameRules t u) :
    SameRules s u := ⟨g.1.trans h.1, g.2.trans h.2⟩

def refusing (s : Session) (refused : List (Category × PropertyKind)) : Session :=
  { s with rejections := refused ++ s.rejections }

theorem refusing_refusing (s : Session) (a b : List (Category × PropertyKind)) :
    (s.refusing a).refusing b = s.refusing (b ++ a) := by
  simp [refusing]

theorem sameRules_refusing (s : Session) (refused : List (Category × PropertyKind)) :
    SameRules s (s.refusing refused) := ⟨rfl, rfl⟩

def refusedKinds (s : Session) (owner : TypeNode) (ps : List Property) :
    List (Category × PropertyKind) :=
  ((ps.filter (s.propertyVerdict owner · = .refused)).map fun p => (.properties, p.kind)).reverse

def refusedOf (s : Session) (id : TypeId) : List (Category × PropertyKind) :=
  s.refusedKinds (s.store.type id) ((s.store.type id).properties?.getD [])

def passesProperty (s : Session) (owner : TypeNode) (p : Property) : Bool :=
  s.propertyVerdict owner p = .passed

/-- The properties of a type that pass, in order. -/
def passedProperties (s : Session) (id : TypeId) : List Property :=
  ((s.store.type id).properties?.getD []).filter (s.passesProperty (s.store.type id))

theorem SameRules.passesProperty {s t : Session} (h : SameRules s t) :
    t.passesProperty = s.passesProperty := by
  obtain ⟨hp, hs⟩ := h
  cases s; cases t; cases hp; cases hs
  rfl

theorem SameRules.refusedKinds {s t : Session} (h : SameRules s t) :
    t.refusedKinds = s.refusedKinds := by
  obtain ⟨hp, hs⟩ := h
  cases s; cases t; cases hp; cases hs
  rfl

theorem SameRules.passedProperties {s t : Session} (h : SameRules s t) (id : TypeId) :
    t.passedProperties id = s.passedProperties id := by
  simp only [Session.passedProperties, h.passesProperty, h.2]

theorem canExportProperty_apply (owner : TypeNode) (p : Property) (s : Session) :
    canExportProperty owner p s =
      if p.name.isKey then
        match s.propertyVerdict owner p with
        | .hidden => (.ok false, s)
        | .passed => (.ok true, s)
        | .refused => (.ok false, s.refusing [(.properties, p.kind)])
      else (.error .wrongType, s) := by
  unfold canExportProperty
  cases p.name.isKey with
  | false => rfl
  | true =>
    simp only [Bool.not_true, Bool.false_eq_true, ↓reduceIte, bind_apply, get_apply]
    cases s.propertyVerdict owner p <;> rfl

theorem canExportProperty_ok {owner : TypeNode} {p : Property} {s t : Session} {b : Bool}
    (h : canExportProperty owner p s = (.ok b, t)) :
    b = s.passesProperty owner p ∧ t = s.refusing (s.refusedKinds owner [p]) := by
  rw [canExportProperty_apply] at h
  split at h
  · cases verdict : s.propertyVerdict owner p <;> rw [verdict] at h <;> cases h
    all_goals exact ⟨by simp [passesProperty, verdict], by simp [refusedKinds, refusing, verdict]⟩
  · cases h

theorem refusedKinds_cons (s : Session) (owner : TypeNode) (p : Property) (ps : List Property) :
    s.refusedKinds owner (p :: ps) = s.refusedKinds owner ps ++ s.refusedKinds owner [p] := by
  by_cases refused : s.propertyVerdict owner p = .refused <;> simp [refusedKinds, refused]

theorem gateProperties_ok {owner : TypeNode} {ps qs : List Property} {s t : Session}
    (h : gateProperties owner ps s = (.ok qs, t)) :
    qs = ps.filter (s.passesProperty owner) ∧ t = s.refusing (s.refusedKinds owner ps) := by
  induction ps generalizing qs s t with
  | nil =>
    obtain ⟨rfl, rfl⟩ := pure_eq_ok.1 h
    exact ⟨rfl, rfl⟩
  | cons p rest ih =>
    obtain ⟨b, u, hp, h⟩ := bind_eq_ok.1 h
    obtain ⟨others, v, hrest, h⟩ := bind_eq_ok.1 h
    obtain ⟨rfl, rfl⟩ := pure_eq_ok.1 h
    obtain ⟨rfl, rfl⟩ := canExportProperty_ok hp
    obtain ⟨rfl, rfl⟩ := ih hrest
    have rules := sameRules_refusing s (s.refusedKinds owner [p])
    refine ⟨?_, ?_⟩
    · rw [rules.passesProperty, List.filter_cons]
    · rw [refusing_refusing, rules.refusedKinds, refusedKinds_cons s owner p rest]

/-- The function passes its gate: the policy and the flags admit it and every parameter passes. -/
def passesFunction (s : Session) (owner : TypeNode) (f : Function) : Bool :=
  admitsFunction s.policy owner.name f &&
    f.params.all fun p => s.canPassAs p (parameterRole (f.has .blueprintEvent) p).1

def passedFunctions (s : Session) (t : TypeNode) : List Function :=
  t.functions.filter fun f => s.passesFunction t f && !f.has .blueprintEvent

def ownEvents (s : Session) (t : TypeNode) : List Function :=
  t.functions.filter fun f => s.passesFunction t f && f.has .blueprintEvent

def joinEvent (s : Session) (interface : TypeNode) (events : List Function) (f : Function) :
    List Function :=
  if !f.has .blueprintEvent || events.any (fun e => e.name.same f.name) then events
  else if s.passesFunction interface f then events ++ [f] else events

def joinEvents (s : Session) (events : List Function) (id : TypeId) : List Function :=
  (s.store.type id).functions.foldl (s.joinEvent (s.store.type id)) events

/-- The events of a class that pass: its own, then those of its interfaces. -/
def passedEvents (s : Session) (t : TypeNode) : List Function :=
  (implementedInterfaces s.store t).foldl s.joinEvents (s.ownEvents t)

theorem SameRules.passesFunction {s t : Session} (h : SameRules s t) :
    t.passesFunction = s.passesFunction := by
  obtain ⟨hp, hs⟩ := h
  cases s; cases t; cases hp; cases hs
  rfl

theorem SameRules.passedFunctions {s t : Session} (h : SameRules s t) :
    t.passedFunctions = s.passedFunctions := by
  funext n
  simp only [Session.passedFunctions, h.passesFunction]

theorem SameRules.passedEvents {s t : Session} (h : SameRules s t) :
    t.passedEvents = s.passedEvents := by
  obtain ⟨hp, hs⟩ := h
  cases s; cases t; cases hp; cases hs
  rfl

theorem canExportParameters_cons (overridable : Bool) (p : Property) (rest : List Property)
    (s : Session) :
    canExportParameters overridable (p :: rest) s =
      if s.canPassAs p (parameterRole overridable p).1 then canExportParameters overridable rest s
      else (.ok false, s.refusing [((parameterRole overridable p).2, p.kind)]) := by
  show (if s.canPassAs p (parameterRole overridable p).1 then _ else _ : Generation Bool) s = _
  split <;> rfl

theorem canExportParameters_ok {overridable : Bool} {ps : List Property} {s t : Session} {b : Bool}
    (h : canExportParameters overridable ps s = (.ok b, t)) :
    b = ps.all (fun p => s.canPassAs p (parameterRole overridable p).1) ∧
      ∃ refused, t = s.refusing refused := by
  induction ps generalizing s with
  | nil =>
    obtain ⟨rfl, rfl⟩ := pure_eq_ok.1 h
    exact ⟨rfl, [], rfl⟩
  | cons p rest ih =>
    rw [canExportParameters_cons] at h
    by_cases passes : s.canPassAs p (parameterRole overridable p).1 = true
    · rw [if_pos passes] at h
      obtain ⟨hb, refused, rfl⟩ := ih h
      exact ⟨by simp [hb, passes], refused, rfl⟩
    · rw [if_neg passes] at h
      cases h
      exact ⟨by simp [passes], [_], rfl⟩

theorem canExportFunction_apply (owner : TypeNode) (f : Function) (s : Session) :
    canExportFunction owner f s =
      if s.policy.canAskFunction owner.name f.name f.category then
        if admitsFunction s.policy owner.name f then
          canExportParameters (f.has .blueprintEvent) f.params s
        else (.ok false, s)
      else (.error .wrongType, s) := by
  unfold canExportFunction
  simp only [bind_apply, get_apply]
  cases s.policy.canAskFunction owner.name f.name f.category with
  | false => rfl
  | true => cases admitted : admitsFunction s.policy owner.name f <;> simp

theorem canExportFunction_ok {owner : TypeNode} {f : Function} {s t : Session} {b : Bool}
    (h : canExportFunction owner f s = (.ok b, t)) :
    b = s.passesFunction owner f ∧ ∃ refused, t = s.refusing refused := by
  rw [canExportFunction_apply] at h
  split at h
  · split at h
    · next admitted =>
      obtain ⟨rfl, refused, rfl⟩ := canExportParameters_ok h
      exact ⟨by simp [passesFunction, admitted], refused, rfl⟩
    · next admitted =>
      cases h
      exact ⟨by simp [passesFunction, admitted], [], rfl⟩
  · cases h

theorem gateFunctions_ok {owner : TypeNode} {fs : List Function} {s t : Session}
    {split : List Function × List Function} (h : gateFunctions owner fs s = (.ok split, t)) :
    split.1 = fs.filter (fun f => s.passesFunction owner f && !f.has .blueprintEvent) ∧
      split.2 = fs.filter (fun f => s.passesFunction owner f && f.has .blueprintEvent) ∧
      ∃ refused, t = s.refusing refused := by
  induction fs generalizing split s t with
  | nil =>
    obtain ⟨rfl, rfl⟩ := pure_eq_ok.1 h
    exact ⟨rfl, rfl, [], rfl⟩
  | cons f rest ih =>
    obtain ⟨b, u, hf, h⟩ := bind_eq_ok.1 h
    obtain ⟨others, v, hrest, h⟩ := bind_eq_ok.1 h
    obtain ⟨rfl, rfl⟩ := pure_eq_ok.1 h
    obtain ⟨hb, first, rfl⟩ := canExportFunction_ok hf
    obtain ⟨hfs, hevents, more, rfl⟩ := ih hrest
    rw [(sameRules_refusing s first).passesFunction] at hfs hevents
    refine ⟨?_, ?_, more ++ first, refusing_refusing ..⟩
    · rw [List.filter_cons, ← hb, ← hfs]
      cases b <;> cases f.has .blueprintEvent <;> simp
    · rw [List.filter_cons, ← hb, ← hevents]
      cases b <;> cases f.has .blueprintEvent <;> simp

theorem addEvents_ok {interface : TypeNode} {events fs result : List Function} {s t : Session}
    (h : addEvents interface events fs s = (.ok result, t)) :
    result = fs.foldl (s.joinEvent interface) events ∧ ∃ refused, t = s.refusing refused := by
  induction fs generalizing events s t with
  | nil =>
    obtain ⟨rfl, rfl⟩ := pure_eq_ok.1 h
    exact ⟨rfl, [], rfl⟩
  | cons f rest ih =>
    unfold addEvents at h
    rw [List.foldl_cons]
    split at h
    · next taken =>
      obtain ⟨rfl, refused, rfl⟩ := ih h
      exact ⟨by rw [joinEvent, if_pos taken], refused, rfl⟩
    · next free =>
      obtain ⟨b, u, hf, h⟩ := bind_eq_ok.1 h
      obtain ⟨rfl, first, rfl⟩ := canExportFunction_ok hf
      obtain ⟨rfl, more, rfl⟩ := ih h
      refine ⟨?_, more ++ first, refusing_refusing ..⟩
      rw [joinEvent, if_neg free]
      congr 1

theorem addInterfaceEvents_ok {events result : List Function} {ids : List TypeId} {s t : Session}
    (h : addInterfaceEvents s.store events ids s = (.ok result, t)) :
    result = ids.foldl s.joinEvents events ∧ ∃ refused, t = s.refusing refused := by
  induction ids generalizing events s t with
  | nil =>
    obtain ⟨rfl, rfl⟩ := pure_eq_ok.1 h
    exact ⟨rfl, [], rfl⟩
  | cons id rest ih =>
    obtain ⟨joined, u, hid, h⟩ := bind_eq_ok.1 h
    obtain ⟨rfl, first, rfl⟩ := addEvents_ok hid
    obtain ⟨rfl, more, rfl⟩ := ih (s := s.refusing first) h
    exact ⟨rfl, more ++ first, refusing_refusing ..⟩

theorem exportedFunctions_ok {n : TypeNode} {s t : Session}
    {split : List Function × List Function} (h : exportedFunctions n s = (.ok split, t)) :
    split = (s.passedFunctions n, s.passedEvents n) ∧ ∃ refused, t = s.refusing refused := by
  obtain ⟨⟨functions, own⟩, u, hown, h⟩ := bind_eq_ok.1 h
  obtain ⟨hfunctions, hevents, first, rfl⟩ := gateFunctions_ok hown
  obtain ⟨v, w, hv, h⟩ := bind_eq_ok.1 h
  obtain ⟨rfl, rfl⟩ := get_eq_ok.1 hv
  obtain ⟨events, w, hevents', h⟩ := bind_eq_ok.1 h
  obtain ⟨rfl, rfl⟩ := pure_eq_ok.1 h
  obtain ⟨rfl, more, rfl⟩ := addInterfaceEvents_ok hevents'
  refine ⟨?_, more ++ first, refusing_refusing ..⟩
  rw [passedFunctions, passedEvents, ← hfunctions, ownEvents, ← hevents]
  rfl

/-- Every remembered list is of a type that has properties and holds those that pass. -/
def AcceptedRight (s : Session) : Prop :=
  ∀ id ps, s.acceptedProperties.lookup id = some ps →
    (s.store.type id).properties?.isSome ∧ ps = s.passedProperties id

def accepting (s : Session) (id : TypeId) : Session :=
  { s with acceptedProperties := (id, s.passedProperties id) :: s.acceptedProperties }

theorem sameRules_accepting (s : Session) (id : TypeId) : SameRules s (s.accepting id) :=
  ⟨rfl, rfl⟩

theorem exportedProperties_known {id : TypeId} {s : Session} {ps : List Property}
    (known : s.acceptedProperties.lookup id = some ps) :
    exportedProperties id s = (.ok ps, s) := by
  simp only [exportedProperties, bind_apply, get_apply, known]
  rfl

/-- What is computed for a type that is not remembered: its list joins the table, or a name that is
no key faults half-way. -/
theorem exportedProperties_unknown {id : TypeId} {s : Session}
    (unknown : s.acceptedProperties.lookup id = none) :
    ((s.store.type id).properties?.isSome ∧ exportedProperties id s =
        (.ok (s.passedProperties id), (s.refusing (s.refusedOf id)).accepting id)) ∨
      ∃ e t, exportedProperties id s = (.error e, t) ∧
        ((s.store.type id).properties? = none ∧ t = s ∨
          ∃ ps, (s.store.type id).properties? = some ps ∧
            gateProperties (s.store.type id) ps s = (.error e, t)) := by
  simp only [exportedProperties, bind_apply, get_apply, unknown]
  cases properties : (s.store.type id).properties? with
  | none => exact .inr ⟨_, _, rfl, .inl ⟨rfl, rfl⟩⟩
  | some ps =>
    simp only [bind_apply]
    rcases gated : gateProperties (s.store.type id) ps s with ⟨e | passed, t⟩
    · exact .inr ⟨e, t, rfl, .inr ⟨ps, rfl, gated⟩⟩
    · obtain ⟨rfl, rfl⟩ := gateProperties_ok gated
      refine .inl ⟨rfl, ?_⟩
      have same := (sameRules_refusing s (s.refusedOf id)).passedProperties id
      simp only [accepting, same]
      simp [passedProperties, refusedOf, properties]

theorem exportedProperties_new {id : TypeId} {s t : Session} {ps : List Property}
    (unknown : s.acceptedProperties.lookup id = none) (h : exportedProperties id s = (.ok ps, t)) :
    (s.store.type id).properties?.isSome ∧ ps = s.passedProperties id ∧
      t = (s.refusing (s.refusedOf id)).accepting id := by
  obtain ⟨there, he⟩ | ⟨e, u, he, -⟩ := exportedProperties_unknown unknown <;> cases he.symm.trans h
  exact ⟨there, rfl, rfl⟩

theorem exportedProperties_ok {id : TypeId} {s t : Session} {ps : List Property}
    (hs : s.AcceptedRight) (h : exportedProperties id s = (.ok ps, t)) :
    (s.store.type id).properties?.isSome ∧ ps = s.passedProperties id := by
  cases known : s.acceptedProperties.lookup id with
  | some qs =>
    cases (exportedProperties_known known).symm.trans h
    exact hs id ps known
  | none =>
    obtain ⟨there, passed, -⟩ := exportedProperties_new known h
    exact ⟨there, passed⟩

theorem exportedProperties_remembered {id : TypeId} {s t : Session} {ps : List Property}
    (h : exportedProperties id s = (.ok ps, t)) : t.acceptedProperties.lookup id = some ps := by
  cases known : s.acceptedProperties.lookup id with
  | some qs =>
    cases (exportedProperties_known known).symm.trans h
    exact known
  | none =>
    obtain ⟨-, rfl, rfl⟩ := exportedProperties_new known h
    rw [accepting, List.lookup_cons_self, (sameRules_refusing s _).passedProperties]

/-- What the session gives for the properties of a type: those it remembers, else those that pass. -/
def givenProperties (s : Session) (id : TypeId) : List Property :=
  (s.acceptedProperties.lookup id).getD (s.passedProperties id)

theorem exportedProperties_given {id : TypeId} {s t : Session} {ps : List Property}
    (h : exportedProperties id s = (.ok ps, t)) : ps = s.givenProperties id := by
  unfold givenProperties
  cases known : s.acceptedProperties.lookup id with
  | some qs =>
    cases (exportedProperties_known known).symm.trans h
    rfl
  | none => exact (exportedProperties_new known h).2.1

theorem givenProperties_accepting {s : Session} {id : TypeId}
    (new : s.acceptedProperties.lookup id = none) :
    (s.accepting id).givenProperties = s.givenProperties := by
  funext d
  unfold givenProperties
  rw [(sameRules_accepting s id).passedProperties, accepting, List.lookup_cons]
  split
  · next same =>
    cases beq_iff_eq.1 same
    simp [new]
  · rfl

theorem givenProperties_of_same {s t : Session} (rules : SameRules s t)
    (table : t.acceptedProperties = s.acceptedProperties) :
    t.givenProperties = s.givenProperties := by
  funext d
  rw [givenProperties, givenProperties, rules.passedProperties, table]

theorem gateProperties_error {s t : Session} {owner : TypeNode} {ps : List Property} {e : Fault}
    (h : gateProperties owner ps s = (.error e, t)) :
    (∃ p ∈ ps, p.name.isKey = false) ∧ ∃ refused, t = s.refusing refused := by
  induction ps generalizing s with
  | nil => cases h
  | cons p rest ih =>
    obtain h | ⟨b, u, hp, h⟩ := bind_eq_error.1 h
    · rw [canExportProperty_apply] at h
      split at h
      · split at h <;> cases h
      · next unkeyed =>
        cases h
        exact ⟨⟨p, List.mem_cons_self, by simpa using unkeyed⟩, [], rfl⟩
    · obtain ⟨-, rfl⟩ := canExportProperty_ok hp
      obtain h | ⟨others, v, -, h⟩ := bind_eq_error.1 h
      · obtain ⟨⟨q, hq, unkeyed⟩, more, rfl⟩ := ih h
        exact ⟨⟨q, List.mem_cons_of_mem _ hq, unkeyed⟩, _, refusing_refusing ..⟩
      · cases h

/-- Only a type without properties, or a property whose name is no key, faults. -/
theorem exportedProperties_error {s t : Session} {id : TypeId} {e : Fault}
    (h : exportedProperties id s = (.error e, t)) :
    ((s.store.type id).properties? = none ∨ ∃ ps, (s.store.type id).properties? = some ps ∧
      ∃ p ∈ ps, p.name.isKey = false) ∧ ∃ refused, t = s.refusing refused := by
  cases known : s.acceptedProperties.lookup id with
  | some qs => cases (exportedProperties_known known).symm.trans h
  | none =>
    obtain ⟨-, he⟩ | ⟨e', u, he, ⟨absent, rfl⟩ | ⟨ps, declared, gated⟩⟩ :=
      exportedProperties_unknown known <;> cases he.symm.trans h
    · exact ⟨.inl absent, [], rfl⟩
    · obtain ⟨unkeyed, refused⟩ := gateProperties_error gated
      exact ⟨.inr ⟨ps, declared, unkeyed⟩, refused⟩

end ScriptGlue.Session
