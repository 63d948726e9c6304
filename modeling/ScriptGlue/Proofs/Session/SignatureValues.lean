import ScriptGlue.Proofs.Session.Rescan

/-! # Values in signatures

What the members of a class or struct hold by value is exported with it. The unit of an interface
has signatures that hold values too, and an interface exports nothing for them: such a value is
exported only if it was asked for or something else needs it, as a class does that takes up the
event.
-/
namespace ScriptGlue.Session
open ScriptGlue.Action

variable {s t u : Session} {id d : TypeId}

/-- What the signatures in the unit of an interface hold by value. -/
def signatureValues (s : Session) (id : TypeId) : List TypeId :=
  (s.ownEvents (s.store.type id)).flatMap fun f => f.params.flatMap Property.held

/-- What the exported properties, functions and events of a class or struct hold by value. -/
def memberValues (s : Session) (id : TypeId) : List TypeId :=
  (s.passedProperties id).flatMap Property.held ++
    (s.passedFunctions (s.store.type id) ++ s.passedEvents (s.store.type id)).flatMap
      fun f => f.params.flatMap Property.held

def IsInterface (s : Session) (id : TypeId) : Prop :=
  (s.store.type id).isClass ∧ isInterface s.store id

theorem dependencies_of_interface (h : s.IsInterface id) : s.dependencies id = [] := by
  obtain ⟨isClass, isInterface⟩ := h
  unfold dependencies
  unfold TypeNode.isClass TypeNode.classBody? at isClass
  cases body : (s.store.type id).body <;> simp_all [TypeNode.variant]

theorem members_of_not_class (h : (s.store.type id).isClass = false) :
    s.passedFunctions (s.store.type id) = [] ∧ s.passedEvents (s.store.type id) = [] := by
  have none : (s.store.type id).classBody? = none := by
    simpa [TypeNode.isClass] using h
  constructor
  · simp [passedFunctions, TypeNode.functions, none]
  · simp [passedEvents, ownEvents, implementedInterfaces, TypeNode.functions, TypeNode.interfaces,
      none]

theorem memberValues_subset (h : ¬s.IsInterface id) : s.memberValues id ⊆ s.dependencies id := by
  intro d hd
  unfold dependencies
  cases body : (s.store.type id).body with
  | plainClass | interface =>
    have isClass : (s.store.type id).isClass := by simp [TypeNode.isClass, TypeNode.classBody?, body]
    have plain : isInterface s.store id = false := by
      simpa [IsInterface, isClass] using h
    simp only [TypeNode.variant, body, plain, Bool.false_eq_true, ↓reduceIte, classDependencies]
    simp only [memberValues, List.mem_append] at hd ⊢
    tauto
  | struct =>
    have noClass : (s.store.type id).isClass = false := by
      simp [TypeNode.isClass, TypeNode.classBody?, body]
    obtain ⟨functions, events⟩ := members_of_not_class noClass
    simpa [memberValues, functions, events, TypeNode.variant, body] using hd
  | enum =>
    have noClass : (s.store.type id).isClass = false := by
      simp [TypeNode.isClass, TypeNode.classBody?, body]
    obtain ⟨functions, events⟩ := members_of_not_class noClass
    simp [memberValues, functions, events, passedProperties, TypeNode.properties?, body] at hd

section
variable {interface : TypeNode} {events : List Function} {f : Function}

theorem subset_joinEvent (g : Function) : events ⊆ s.joinEvent interface events g := by
  unfold joinEvent
  split
  · exact List.Subset.refl _
  · split
    · exact List.subset_append_left _ _
    · exact List.Subset.refl _

theorem exists_of_joinEvent (event : f.has .blueprintEvent)
    (passes : s.passesFunction interface f) :
    ∃ e ∈ s.joinEvent interface events f, e = f ∨ e.name.same f.name := by
  unfold joinEvent
  split
  · next taken =>
    simp only [event, Bool.not_true, Bool.false_or, List.any_eq_true] at taken
    obtain ⟨e, he, same⟩ := taken
    exact ⟨e, he, .inr same⟩
  · exact ⟨f, List.mem_append_right _ (List.mem_singleton_self f), .inl rfl⟩

theorem subset_foldl_joinEvent (fs : List Function) :
    events ⊆ fs.foldl (s.joinEvent interface) events :=
  List.foldlRecOn (motive := (events ⊆ ·)) fs _ (List.Subset.refl _) fun _ known g _ =>
    List.Subset.trans known (subset_joinEvent g)

theorem subset_foldl_joinEvents (ids : List TypeId) : events ⊆ ids.foldl s.joinEvents events :=
  List.foldlRecOn (motive := (events ⊆ ·)) ids _ (List.Subset.refl _) fun _ known _ _ =>
    List.Subset.trans known (subset_foldl_joinEvent _)

end

/-- A class takes up each signature of an interface it implements, unless it has an event of that
name. -/
theorem takes_up {c : TypeId} (implements : id ∈ implementedInterfaces s.store (s.store.type c))
    {f : Function} (hf : f ∈ s.ownEvents (s.store.type id)) :
    ∃ e ∈ s.passedEvents (s.store.type c), e = f ∨ e.name.same f.name := by
  obtain ⟨declared, passes⟩ := List.mem_filter.1 hf
  obtain ⟨passes, event⟩ := Bool.and_eq_true_iff.1 passes
  obtain ⟨before, after, ids⟩ := List.append_of_mem implements
  obtain ⟨fs, gs, functions⟩ := List.append_of_mem declared
  unfold passedEvents
  rw [ids, List.foldl_append, List.foldl_cons]
  generalize before.foldl s.joinEvents _ = known
  have taken : ∃ e ∈ s.joinEvent (s.store.type id) (fs.foldl (s.joinEvent (s.store.type id)) known) f,
      e = f ∨ e.name.same f.name := exists_of_joinEvent event passes
  obtain ⟨e, he, same⟩ := taken
  refine ⟨e, subset_foldl_joinEvents after ?_, same⟩
  rw [joinEvents, functions, List.foldl_append, List.foldl_cons]
  exact subset_foldl_joinEvent gs he

def Signs (s : Session) (owner : TypeNode) (f : Function) (m : InterfaceMethod) : Prop :=
  ∃ t u, SameRules s t ∧ interfaceMethod f (scriptName owner) t = (.ok m, u)

theorem interfaceMethods_sign {owner : TypeNode} {fs : List Function}
    {methods : List InterfaceMethod} (rules : SameRules s t)
    (h : interfaceMethods owner fs t = (.ok methods, u)) :
    List.Forall₂ (Signs s owner)
      (fs.filter fun f => s.passesFunction owner f && f.has .blueprintEvent) methods := by
  induction fs generalizing t methods with
  | nil =>
    obtain ⟨rfl, rfl⟩ := pure_eq_ok.1 h
    exact .nil
  | cons f rest ih =>
    rw [List.filter_cons]
    -- the event is shown if it passes, and the others follow
    have shown {v : Session} (rules : SameRules s v) {passed : Bool}
        (h : (if passed then (do
          let shown ← interfaceMethod f (scriptName owner)
          let others ← interfaceMethods owner rest
          return shown :: others) else interfaceMethods owner rest) v = (.ok methods, u)) :
        List.Forall₂ (Signs s owner) (if passed then f :: rest.filter fun f =>
          s.passesFunction owner f && f.has .blueprintEvent
        else rest.filter fun f => s.passesFunction owner f && f.has .blueprintEvent) methods := by
      split at h
      · next passes =>
        obtain ⟨m, w, hm, h⟩ := bind_eq_ok.1 h
        obtain ⟨others, x, hothers, h⟩ := bind_eq_ok.1 h
        obtain ⟨rfl, rfl⟩ := pure_eq_ok.1 h
        have later := (steady_during (knows_anySession v)).interfaceMethod f (scriptName owner)
        rw [if_pos passes]
        exact .cons ⟨v, w, rules, hm⟩
          (ih (rules.trans (later.result (during_any v) hm).rules) hothers)
      · next fails =>
        rw [if_neg fails]
        exact ih rules h
    unfold interfaceMethods at h
    split at h
    · next event =>
      obtain ⟨passed, v, hpassed, h⟩ := bind_eq_ok.1 h
      obtain ⟨rfl, refused, rfl⟩ := canExportFunction_ok hpassed
      rw [event, Bool.and_true]
      simpa only [rules.passesFunction] using shown (rules.trans (sameRules_refusing t refused)) h
    · next other =>
      obtain ⟨passed, v, hpassed, h⟩ := bind_eq_ok.1 h
      obtain ⟨rfl, rfl⟩ := pure_eq_ok.1 hpassed
      rw [Bool.eq_false_iff.2 other, Bool.and_false]
      exact shown rules h

/-- The unit of an interface has just the signatures of its events that pass, in their order. -/
theorem interfaceUnit_signs {unit : InterfaceUnit} (rules : SameRules s t)
    (h : interfaceUnit (s.store.type id) t = (.ok unit, u)) :
    List.Forall₂ (Signs s (s.store.type id)) (s.ownEvents (s.store.type id)) unit.methods := by
  obtain ⟨space, v, hspace, h⟩ := bind_eq_ok.1 h
  have later : SameRules t v :=
    (((steady_during (knows_anySession t)).spaceOf trivial).result (during_any t) hspace).rules
  cases body : (s.store.type id).classBody? with
  | none =>
    simp only [body] at h
    exact (throw_ne_ok.1 h).elim
  | some b =>
    simp only [body] at h
    obtain ⟨methods, w, hmethods, h⟩ := bind_eq_ok.1 h
    obtain ⟨rfl, rfl⟩ := pure_eq_ok.1 h
    have functions : (s.store.type id).functions = b.functions := by
      simp [TypeNode.functions, body]
    rw [ownEvents, functions]
    exact interfaceMethods_sign (rules.trans later) hmethods

/-- The type was asked for by force, or asked for and admitted by its gate. -/
def Granted (s : Session) (asked : List Asked) (id : TypeId) : Prop :=
  ∃ a ∈ asked, some id ∈ a.forced ∨ some id ∈ a.gated ∧ s.admits id

theorem mem_exported_iff {policy : Policy} {packaging : Packaging} {fileExtension : Value}
    {workspace : Workspace} {triggers : List Trigger} {asked : List Asked}
    (h : triggers.mapM Trigger.run (fresh policy packaging fileExtension workspace) =
      (.ok asked, s)) (kept : ¬Skips s d) :
    d ∈ s.exported ↔ Granted s asked d ∨ ∃ c ∈ s.exported, d ∈ s.dependencies c := by
  have least := closed_exported h
  constructor
  · intro hd
    have closed : Closed s asked
        {e | e ∈ s.exported ∧ (Granted s asked e ∨ ∃ c ∈ s.exported, e ∈ s.dependencies c)} :=
      { forced := fun a ha e he kept =>
          ⟨least.forced a ha e he kept, .inl ⟨a, ha, .inl he⟩⟩
        gated := fun a ha e he kept admitted =>
          ⟨least.gated a ha e he kept admitted, .inl ⟨a, ha, .inr ⟨he, admitted⟩⟩⟩
        closed := fun c hc e he kept =>
          ⟨least.closed c hc.1 e he kept, .inr ⟨c, hc.1, he⟩⟩ }
    exact (exported_subset_of_closed h closed d hd).2
  · rintro (⟨a, ha, hd | ⟨hd, admitted⟩⟩ | ⟨c, hc, hd⟩)
    · exact least.forced a ha d hd kept
    · exact least.gated a ha d hd kept admitted
    · exact least.closed c hc d hd kept

/-- If no trigger of a fresh session faults, what the members of an exported class or struct hold by
value is exported, up to the types that are passed over. The unit of an exported interface has the
signatures of its events that pass, and what these hold is exported just if it was asked for or
something exported needs it; a class that implements the interface needs what its own event of
that name holds. -/
theorem exported_values {policy : Policy} {packaging : Packaging} {fileExtension : Value}
    {workspace : Workspace} {triggers : List Trigger} {asked : List Asked}
    (h : triggers.mapM Trigger.run (fresh policy packaging fileExtension workspace) =
      (.ok asked, s)) {id : TypeId} (hid : id ∈ s.exported) :
    (¬s.IsInterface id →
      (∀ d ∈ s.memberValues id, ¬Skips s d → d ∈ s.exported) ∧
      ∀ i ∈ implementedInterfaces s.store (s.store.type id), ∀ f ∈ s.ownEvents (s.store.type i),
        ∃ e ∈ s.passedEvents (s.store.type id), (e = f ∨ e.name.same f.name) ∧
          ∀ p ∈ e.params, ∀ d ∈ p.held, ¬Skips s d → d ∈ s.exported) ∧
    (s.IsInterface id → s.dependencies id = [] ∧
      (∀ t unit u, SameRules s t → interfaceUnit (s.store.type id) t = (.ok unit, u) →
        List.Forall₂ (Signs s (s.store.type id)) (s.ownEvents (s.store.type id)) unit.methods) ∧
      ∀ d ∈ s.signatureValues id, ¬Skips s d →
        (d ∈ s.exported ↔ Granted s asked d ∨ ∃ c ∈ s.exported, d ∈ s.dependencies c)) := by
  constructor
  · intro plain
    have values : ∀ d ∈ s.memberValues id, ¬Skips s d → d ∈ s.exported := fun d hd kept =>
      (mem_exported_iff h kept).2 (.inr ⟨id, hid, memberValues_subset plain hd⟩)
    refine ⟨values, fun i hi f hf => ?_⟩
    obtain ⟨e, he, same⟩ := takes_up hi hf
    refine ⟨e, he, same, fun p hp d hd => values d ?_⟩
    exact List.mem_append_right _ (List.mem_flatMap.2 ⟨e, List.mem_append_right _ he,
      List.mem_flatMap.2 ⟨p, hp, hd⟩⟩)
  · intro interface
    exact ⟨dependencies_of_interface interface, fun t unit u rules made => interfaceUnit_signs rules made,
      fun d _ kept => mem_exported_iff h kept⟩

def signatureDocument : Value :=
  .object [("types", .list [
    .object [("kind", .text "interface"), ("name", .text "I"), ("module", .text "M"),
      ("functions", .list [.object [("name", .text "Hit"), ("flags", .list [.text "blueprint_event"]),
        ("params", .list [.object [("name", .text "s"), ("kind", .text "struct"),
          ("type", .text "S")]])]])],
    .object [("kind", .text "struct"), ("name", .text "S"), ("module", .text "M")]])]

def signatureSession : Session := fresh {} { scriptsDir := .text "out" } (.text ".cs") {}

theorem signatureSession_runs : (readGraph signatureDocument).gives signatureSession fun g s =>
    (start (some g)).gives s fun _ u => u.exported == [0] && (u.store.type 0).isClass &&
      isInterface u.store 0 && u.signatureValues 0 == [1] &&
      (shouldSkip (u.store.type 1)).toOption == some false := by
  rw [start_eq_direct]
  decide +kernel

theorem signatureSession_starts : ∃ g asked u,
    [Trigger.read signatureDocument, .start (some g)].mapM Trigger.run signatureSession =
        (.ok asked, u) ∧
      u.exported = [0] ∧ u.IsInterface 0 ∧ u.signatureValues 0 = [1] ∧ ¬Skips u 1 := by
  obtain ⟨g, s, hread, runs⟩ := exists_of_gives signatureSession_runs
  obtain ⟨_, u, hstart, runs⟩ := exists_of_gives runs
  simp only [Bool.and_eq_true, beq_iff_eq] at runs
  obtain ⟨⟨⟨⟨exported, isClass⟩, isInterface⟩, values⟩, stays⟩ := runs
  refine ⟨g, _, u, mapM_cons_of_ok (bind_of_ok hread _) (mapM_cons_of_ok (bind_of_ok hstart _) rfl),
    exported, ⟨isClass, isInterface⟩, values, fun skips => ?_⟩
  have skips : shouldSkip (u.store.type 1) = .ok true := skips
  rw [skips] at stays
  cases stays

theorem exported_values_of_signature : ∃ g asked u,
    [Trigger.read signatureDocument, .start (some g)].mapM Trigger.run signatureSession =
        (.ok asked, u) ∧
      0 ∈ u.exported ∧ u.IsInterface 0 ∧ u.dependencies 0 = [] ∧
      (1 ∈ u.exported ↔ Granted u asked 1 ∨ ∃ c ∈ u.exported, 1 ∈ u.dependencies c) := by
  obtain ⟨g, asked, u, run, exported, interface, values, kept⟩ := signatureSession_starts
  have hid : 0 ∈ u.exported := by rw [exported]; exact List.mem_singleton_self 0
  obtain ⟨nothing, -, iff⟩ := (exported_values run hid).2 interface
  exact ⟨g, asked, u, run, hid, interface, nothing, iff 1 (by simp [values]) kept⟩

/-- The struct in the signature of an exported interface is left out, though it is not passed
over. -/
theorem signature_leaves_value : ∃ g asked u,
    [Trigger.read signatureDocument, .start (some g)].mapM Trigger.run signatureSession =
        (.ok asked, u) ∧
      0 ∈ u.exported ∧ u.IsInterface 0 ∧ 1 ∈ u.signatureValues 0 ∧ ¬Skips u 1 ∧
      1 ∉ u.exported := by
  obtain ⟨g, asked, u, run, exported, interface, values, kept⟩ := signatureSession_starts
  exact ⟨g, asked, u, run, by simp [exported], interface, by simp [values], kept,
    by simp [exported]⟩

end ScriptGlue.Session
