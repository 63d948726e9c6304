import ScriptGlue.Proofs.Session.Aftermath
import ScriptGlue.Proofs.Session.Once
import ScriptGlue.Proofs.Session.StrayParts

/-! # Types that the policy ignores

What a unit depends on is exported by force, past its own gate. An ignored type is nevertheless not
exported so: the members that need it do not pass, unless it is held by a part that their gate does
not look at. This holds however far a generation comes before a fault, and so over all that may
happen to a session as long as its policy stays.
-/
namespace ScriptGlue.Session
open ScriptGlue.Action

variable {s t u base : Session} {R : Set TypeId} {known owners more : List TypeId} {id d : TypeId}

theorem StraysFrom.mono (h : s.StraysFrom owners d) (subset : owners ⊆ more) :
    s.StraysFrom more d := by
  obtain ⟨owner, howner, member⟩ := h
  exact ⟨owner, subset howner, member⟩

/-- If the policy ignores the type, it is among some others or strays from one of the owners. -/
def Due (R : Set TypeId) (s : Session) (owners : List TypeId) (d : TypeId) : Prop :=
  s.ignores d → d ∈ R ∨ s.StraysFrom owners d

theorem Due.mono (h : Due R s owners d) (subset : owners ⊆ more) : Due R s more d :=
  fun ignored => (h ignored).imp_right fun strays => strays.mono subset

/-- A session in the course of a generation that began as `base`, after the mark of the known types:
whatever is marked is due. -/
structure Accounts (R : Set TypeId) (base : Session) (known : List TypeId) (u : Session) :
    Prop where
  rules : SameRules base u
  accepted : AcceptedRight u
  known : known ⊆ u.exported
  inside : ∀ id ∈ u.exported, id < base.store.size
  due : ∀ id ∈ u.exported, Due R base u.exported id

namespace Accounts

theorem of_same (h : Accounts R base known u) (rules : SameRules u t) (accepted : AcceptedRight t)
    (exported : t.exported = u.exported) : Accounts R base known t where
  rules := h.rules.trans rules
  accepted := accepted
  known := exported ▸ h.known
  inside := exported ▸ h.inside
  due := exported ▸ h.due

theorem aside (h : Accounts R base known u) (rules : SameRules u t)
    (accepted : t.acceptedProperties = u.acceptedProperties) (exported : t.exported = u.exported) :
    Accounts R base known t :=
  h.of_same rules (h.accepted.of_same rules accepted) exported

theorem marking (h : Accounts R base known u) (inside : id < base.store.size)
    (due : Due R base known id) :
    Accounts R base (id :: known) { u with exported := id :: u.exported } where
  rules := h.rules.trans ⟨rfl, rfl⟩
  accepted := h.accepted.of_same ⟨rfl, rfl⟩ rfl
  known := List.cons_subset_cons id h.known
  inside := List.forall_mem_cons.2 ⟨inside, h.inside⟩
  due := List.forall_mem_cons.2
    ⟨due.mono (List.subset_cons_of_subset id h.known),
      fun d hd => (h.due d hd).mono (List.subset_cons_self id _)⟩

theorem forget (h : Accounts R base (id :: known) u) : Accounts R base known u :=
  { h with known := fun _ hd => h.known (List.mem_cons_of_mem id hd) }

end Accounts

theorem inert_accounts (R : Set TypeId) (base : Session) (known : List TypeId) :
    Inert (Accounts R base known) (Accounts R base known) where
  faulted _ h := h
  refused _ _ h := h.aside ⟨rfl, rfl⟩ rfl rfl
  accepted u id _ inside h := h.of_same (sameRules_accepting u id) (h.accepted.accepting inside) rfl
  recorded _ _ h := h.aside ⟨rfl, rfl⟩ rfl rfl
  registered _ _ _ _ _ h := h.aside ⟨rfl, rfl⟩ rfl rfl
  measured _ _ _ h := h.aside ⟨rfl, rfl⟩ rfl rfl

theorem collecting_accounts (R : Set TypeId) (base : Session) (known : List TypeId) (id : TypeId) :
    Collecting (fun _ => True) id (Accounts R base known) (Accounts R base known) where
  toSteady := (inert_accounts R base known).steady
  extended _ _ _ h := h.aside ⟨rfl, rfl⟩ rfl rfl

theorem saving_accounts (R : Set TypeId) (base : Session) (known : List TypeId) :
    Saving (Accounts R base known) (Accounts R base known) where
  toSteady := (inert_accounts R base known).steady
  saved := keeps_saveUnit (fun _ h => h) fun _ _ h => h.aside ⟨rfl, rfl⟩ rfl rfl

/-- An export marks a type that is due; what follows may rely on the mark. -/
theorem keeps_marking (inside : id < base.store.size) (due : Due R base known id)
    {body : TypeNode → Generation Unit}
    (hbody : Keeps (Accounts R base (id :: known)) (Accounts R base (id :: known))
      (body (base.store.type id))) :
    Keeps (Accounts R base known) (Accounts R base known) (do
      let t ← typeAt id
      if ← mark id t then body t) := by
  refine .of_outcome fun u hu => ?_
  have node : typeAt id u = (.ok (base.store.type id), u) := by
    rw [← hu.rules.2]
    rfl
  rw [bind_of_ok node]
  -- a second mark only warns; a first one makes the type known, as its body may rely on
  by_cases marked : id ∈ u.exported
  · have again : mark id (base.store.type id) u = (.ok false, { u with
        workspace := u.workspace.record ⟨.warning, .session,
          (base.store.type id).label ++ " has already been exported"⟩ }) := by
      have found : u.exported.contains id := by simpa using marked
      simp only [mark, bind_apply, get_apply, found]
      rfl
    rw [bind_of_ok again]
    exact hu.aside ⟨rfl, rfl⟩ rfl rfl
  · rw [bind_of_ok (mark_fresh _ marked)]
    exact (hbody.outcome (hu.marking inside due)).forget

section
variable {visit : Visit} (visits : ∀ known force d, (force = true → Due R base known d) →
  Keeps (Accounts R base known) (Accounts R base known) (visit force d))
include visits

theorem keeps_members {ps : List Property}
    (due : ∀ d ∈ ps.flatMap Property.held, Due R base known d) :
    Keeps (Accounts R base known) (Accounts R base known) (ps.forM (exportDependencies visit)) :=
  .forM fun p hp => keeps_exportDependencies_of p fun d hd =>
    visits known true d fun _ => due d (List.mem_flatMap.2 ⟨p, hp, hd⟩)

theorem keeps_interfaces (own : String) (imports : List String) {ids : List TypeId}
    (due : ∀ d ∈ ids, Due R base known d) :
    Keeps (Accounts R base known) (Accounts R base known)
      (exportInterfaces visit own imports ids) := by
  induction ids generalizing imports with
  | nil => exact .pure _
  | cons id rest ih =>
    obtain ⟨first, others⟩ := List.forall_mem_cons.1 due
    exact (visits known true id fun _ => first).bind fun _ => Lasting.typeAt id |>.bind fun _ =>
      ((inert_accounts R base known).steady.spaceOf trivial).bind fun _ => ih _ others

omit visits in
theorem exportedProperties_accounts {ps : List Property}
    (run : ∃ u v, Accounts R base known u ∧ exportedProperties id u = (.ok ps, v)) :
    ps = base.passedProperties id := by
  obtain ⟨u, v, hu, run⟩ := run
  rw [(exportedProperties_ok hu.accepted run).2, hu.rules.passedProperties]

theorem keeps_classUnit (variant : (base.store.type id).isClass)
    (plain : isInterface base.store id = false)
    (due : ∀ d ∈ base.dependencies id, Due R base known d) :
    Keeps (Accounts R base known) (Accounts R base known)
      (classUnit visit id (base.store.type id)) := by
  have steady := (inert_accounts R base known).steady
  rw [dependencies_of_class variant plain] at due
  simp only [classDependencies, List.mem_append, or_imp, forall_and] at due
  obtain ⟨⟨⟨super, interfaces⟩, properties⟩, params⟩ := due
  refine (keeps_visitSome_of fun d hd => visits known true d fun _ =>
    super d (Option.mem_toList.2 hd)).bind fun _ => ?_
  refine (steady.spaceOf trivial).bind fun _ => .get_bind fun u hu => ?_
  refine (keeps_interfaces visits _ _ (hu.rules.2 ▸ interfaces)).bind fun _ => ?_
  refine (steady.superClassName _).bind fun _ => ?_
  refine (Keeps.mapM fun d _ => steady.qualifiedName d).bind fun _ => ?_
  refine (steady.exportedProperties id).bind_run fun ps run => ?_
  obtain rfl := exportedProperties_accounts run
  refine (steady.exportedFunctions _).bind_run fun split run => ?_
  obtain ⟨v, w, hv, run⟩ := run
  obtain ⟨rfl, -⟩ := exportedFunctions_ok run
  rw [← hv.rules.passedFunctions, ← hv.rules.passedEvents] at params
  refine (keeps_members visits properties).bind fun _ => ?_
  refine (Keeps.forM fun f hf => keeps_members visits fun d hd =>
    params d (List.mem_flatMap.2 ⟨f, hf, hd⟩)).bind fun _ => ?_
  exact ((collecting_accounts R base known id).classMembers _ _ _ _).bind fun _ => .pure _

variable (classes : base.store.LinksClasses) (inside : id < base.store.size)
  (due : Due R base known id)
include classes inside due

omit visits due in
theorem due_of_dependency (hd : d ∈ base.dependencies id) : Due R base (id :: known) d :=
  fun ignored => .inr ((straysFrom_of_dependency classes inside hd ignored).mono (by simp))

theorem keeps_exportClass (variant : (base.store.type id).isClass)
    (plain : isInterface base.store id = false) :
    Keeps (Accounts R base known) (Accounts R base known) (exportClass visit id) := by
  refine keeps_marking inside due ?_
  rw [variant]
  exact (keeps_classUnit visits variant plain fun d hd =>
    due_of_dependency classes inside hd).bind fun _ =>
      (saving_accounts R base (id :: known)).saveTypeUnit _ _

theorem keeps_exportStruct (variant : (base.store.type id).variant = .struct) :
    Keeps (Accounts R base known) (Accounts R base known) (exportStruct visit id) := by
  have steady := (inert_accounts R base (id :: known)).steady
  refine keeps_marking inside due ((steady.exportedProperties id).bind_run fun ps run => ?_)
  obtain rfl := exportedProperties_accounts run
  have needed : base.dependencies id = (base.passedProperties id).flatMap Property.held := by
    unfold dependencies
    rw [variant]
  refine (keeps_members visits fun d hd =>
    due_of_dependency classes inside (needed ▸ hd)).bind fun _ => ?_
  exact (steady.structUnit id trivial _).bind fun _ =>
    (saving_accounts R base (id :: known)).saveTypeUnit _ _

omit visits classes in
theorem keeps_exportInterface :
    Keeps (Accounts R base known) (Accounts R base known) (exportInterface id) :=
  keeps_marking inside due <|
    ((inert_accounts R base (id :: known)).steady.interfaceUnit trivial).bind fun _ =>
      (saving_accounts R base (id :: known)).saveTypeUnit _ _

omit visits classes in
theorem keeps_exportEnum :
    Keeps (Accounts R base known) (Accounts R base known) (exportEnum id) :=
  keeps_marking inside due <|
    ((inert_accounts R base (id :: known)).steady.enumUnit trivial).bind fun _ =>
      (saving_accounts R base (id :: known)).saveTypeUnit _ _

end

section
variable {visit : Visit} (visits : ∀ known force d, (force = true → Due R base known d) →
  Keeps (Accounts R base known) (Accounts R base known) (visit force d))
  (classes : base.store.LinksClasses)
include visits classes

/-- A type is exported if it is forced or its gate admits it, so it is due either way. -/
theorem keeps_dispatch (inside : id < base.store.size) {force : Bool}
    (due : force = true → Due R base known id) :
    Keeps (Accounts R base known) (Accounts R base known)
      (dispatch visit force id (base.store.type id)) := by
  have steady := (inert_accounts R base known).steady
  have asClass (isClass : (base.store.type id).isClass) :
      Keeps (Accounts R base known) (Accounts R base known) (do
        let _ ← register (base.store.type id).home
        let s ← get
        if isInterface s.store id then exportInterface id
        else if force || s.shouldExportClass id then exportClass visit id) := by
    -- a class is never ignored, however it came to be exported
    have never : Due R base known id := fun ignored => by
      rw [ignores, Policy.ignores_of_isClass isClass] at ignored
      cases ignored
    refine (steady.register trivial).bind fun _ => .get_bind fun u hu => ?_
    rw [hu.rules.2]
    split
    · exact keeps_exportInterface inside never
    · next plain =>
      exact .ite (keeps_exportClass visits classes inside never isClass (by simpa using plain))
        (.pure _)
  have granted {asked : Bool} (admitted : asked → base.admits id) (run : force || asked) :
      Due R base known id := by
    obtain forced | asked := Bool.or_eq_true_iff.1 run
    · exact due forced
    · intro ignored
      rw [not_ignored_of_admits (admitted asked)] at ignored
      cases ignored
  unfold dispatch
  split
  · next body => exact asClass (by simp [TypeNode.isClass, TypeNode.classBody?, body])
  · next body => exact asClass (by simp [TypeNode.isClass, TypeNode.classBody?, body])
  · next body =>
    have variant : (base.store.type id).variant = .struct := by simp [TypeNode.variant, body]
    refine .get_bind fun u hu => ?_
    rw [(hu.rules.shouldExport id).2.1]
    have admitted : base.shouldExportStruct id → base.admits id := by simp [admits, variant]
    split
    · next run => exact keeps_exportStruct visits classes inside (granted admitted run) variant
    · exact .pure _
  · next body =>
    have variant : (base.store.type id).variant = .enum := by simp [TypeNode.variant, body]
    refine .get_bind fun u hu => ?_
    rw [(hu.rules.shouldExport id).2.2]
    have admitted : base.shouldExportEnum id → base.admits id := by simp [admits, variant]
    split
    · next run => exact keeps_exportEnum inside (granted admitted run)
    · exact .pure _

end

theorem keeps_visitWithin (classes : base.store.LinksClasses) (fuel : Nat) (known : List TypeId)
    (force : Bool) (id : TypeId) (due : force = true → Due R base known id) :
    Keeps (Accounts R base known) (Accounts R base known) (visitWithin fuel force id) := by
  -- for all known types at once: an export knows its own type while it visits what that needs
  induction fuel generalizing known force id with
  | zero => exact .throw (fun _ h => h) _
  | succ fuel ih =>
    have steady := (inert_accounts R base known).steady
    have noted (t : TypeNode) : Keeps (Accounts R base known) (Accounts R base known)
        (noteSkipped t) :=
      (Keeps.modify fun _ h => h.aside ⟨rfl, rfl⟩ rfl rfl).bind fun _ => steady.tell _ _ _
    refine .get_bind fun _ _ => .ite (.pure _) (.get_bind fun u hu => ?_)
    show Keeps _ _ (do
      if ← Action.ofExcept (shouldSkip (u.store.type id)) then noteSkipped (u.store.type id)
      else dispatch (visitWithin fuel) force id (u.store.type id))
    rw [hu.rules.2]
    exact .ofExcept_bind (fun _ h => h) fun skips asked =>
      .ite (noted _) (keeps_dispatch ih classes (lt_size_of_shouldSkip asked) due)

theorem keeps_visit (classes : base.store.LinksClasses) {force : Bool}
    (due : force = true → Due R base known id) :
    Keeps (Accounts R base known) (Accounts R base known) (visit force id) :=
  .get_bind fun _ _ => keeps_visitWithin classes _ known force id due

theorem keeps_generate (classes : base.store.LinksClasses) {forced : List (Option TypeId)}
    (due : ∀ id, some id ∈ forced → Due R base known id) (types : List (Option TypeId)) :
    Keeps (Accounts R base known) (Accounts R base known) (generate forced types) := by
  have visited {force : Bool} {refs : List (Option TypeId)}
      (due : ∀ id, some id ∈ refs → force = true → Due R base known id) :
      Keeps (Accounts R base known) (Accounts R base known) (refs.forM (visitRef force)) := by
    refine .forM fun ref href => ?_
    cases ref with
    | none => exact .throw (fun _ h => h) _
    | some id => exact keeps_visit classes (due id href)
  exact (visited fun id hid _ => due id hid).bind fun _ =>
    (visited fun _ _ gated => by cases gated).bind fun _ =>
      (saving_accounts R base known).saveModuleUnits

theorem SameRules.due (h : SameRules s t) : Due R t = Due R s := by
  funext owners d
  simp only [Due, StraysFrom, h.ignores, h.passedMembers]

structure Within (R : Set TypeId) (s : Session) : Prop where
  linked : Linked s
  classes : s.store.LinksClasses
  accepted : AcceptedRight s
  inside : ∀ id ∈ s.exported, id < s.store.size
  due : ∀ id ∈ s.exported, Due R s s.exported id

theorem Accounts.within (h : Accounts R base known u) (classes : base.store.LinksClasses)
    (linked : Linked u) : Within R u where
  linked := linked
  classes := h.rules.2 ▸ classes
  accepted := h.accepted
  inside := h.rules.2 ▸ h.inside
  due := by
    rw [h.rules.due]
    exact h.due

namespace Within
variable (h : Within R s)
include h

theorem accounts : Accounts R s [] s where
  rules := .refl s
  accepted := h.accepted
  known := List.nil_subset _
  inside := h.inside
  due := h.due

theorem of_same (linked : Linked t) (rules : SameRules s t)
    (accepted : t.acceptedProperties = s.acceptedProperties) (exported : t.exported = s.exported) :
    Within R t :=
  (h.accounts.aside rules accepted exported).within h.classes linked

theorem outcome {α : Type} {a : Generation α}
    (keeps : Keeps (Accounts R s []) (Accounts R s []) a) (linked : Keeps Linked Linked a) :
    Within R (a s).2 :=
  (keeps.outcome h.accounts).within h.classes (linked.outcome h.linked)

theorem read {g : Graph} {data : Value} {ext : Graph.Extension} (known : g.Inside s.store)
    (hread : Graph.extend s.store g data = .ok ext) : Within R { s with store := ext.store } := by
  obtain ⟨embeds, -⟩ := Graph.extend_grows h.linked.store known hread
  have grown : Grown s { s with store := ext.store } := ⟨rfl, embeds⟩
  -- older types keep their members, and those that join are not exported yet
  refine ⟨(h.linked.read known hread).1, h.classes.extend h.linked.store known hread,
    h.accepted.mirror grown rfl, fun id hid => embeds.inside id (h.inside id hid), ?_⟩
  intro id hid ignored
  rw [grown.ignores_eq (h.inside id hid)] at ignored
  refine (h.due id hid ignored).imp_right ?_
  rintro ⟨owner, howner, p, hp, hd⟩
  exact ⟨owner, howner, p, (grown.passedMembers_eq (h.inside owner howner)).symm ▸ hp, hd⟩

theorem batch {forced : List (Option TypeId)} (asked : ∀ id, some id ∈ forced → id ∈ R)
    (types : List (Option TypeId)) : Within R (Session.batch forced types s).2 := by
  have linked := (stepwise_linked.enduring.generate forced types).outcome h.linked
  have keeps : Keeps (Accounts R s []) (Accounts R s []) (generate forced types) :=
    keeps_generate h.classes (fun id hid _ => .inl (asked id hid)) types
  have generated := (keeps.outcome h.accounts).within h.classes linked
  obtain ⟨w, left⟩ := batch_left forced types s
  rw [left]
  exact generated.of_same (linked.of_same rfl rfl) ⟨rfl, rfl⟩ rfl rfl

theorem start {g : Option Graph} (inside : ∀ g' ∈ g, g'.Inside s.store)
    (asked : ∀ g' ∈ g, ∀ id, some id ∈ s.roots g' → id ∈ R) : Within R (Session.start g s).2 := by
  have adopted : Within R { s with
      graph := g
      workspace := s.workspace.record ⟨.info, .session, "=== Generating C# glue:"⟩ } :=
    h.of_same ⟨h.linked.store, inside⟩ ⟨rfl, rfl⟩ rfl rfl
  cases g with
  | none => exact adopted
  | some g =>
    exact adopted.batch (asked g rfl) _

theorem moduleLoaded (data : Value) : Within R (Session.moduleLoaded data s).2 := by
  have known : (s.graph.getD {}).Inside s.store := by
    cases graph : s.graph with
    | none => exact fun _ hid => absurd hid List.not_mem_nil
    | some g => exact h.linked.graph g graph
  rcases hread : Graph.extend s.store (s.graph.getD {}) data with e | read
  · rw [Session.moduleLoaded, bind_of_error (by rw [merge_apply, hread])]
    exact h.of_same ⟨h.linked.store, by simpa using known⟩ ⟨rfl, rfl⟩ rfl rfl
  · rw [Session.moduleLoaded, bind_of_ok (by rw [merge_apply, hread])]
    have merged := h.read known hread
    have begun : Within R (s.loaded read) :=
      merged.of_same ⟨merged.linked.store, by simpa using (h.linked.read known hread).2⟩ ⟨rfl, rfl⟩
        rfl rfl
    have batched : Within R (Session.batch [] (read.added.map some) (s.loaded read)).2 :=
      begun.batch (by simp) (read.added.map some)
    show Within R ((Session.batch [] (read.added.map some) >>= fun _ =>
      Pure.pure read.added) (s.loaded read)).2
    rcases run : Session.batch [] (read.added.map some) (s.loaded read) with ⟨e | x, t⟩
    · rw [bind_of_error run]
      rwa [run] at batched
    · rw [bind_of_ok run]
      rwa [run] at batched

/-- A graph that is read from a document is of types that join the store. -/
theorem readGraph {data : Value} {f : Graph → Generation Unit}
    (hf : ∀ read, Graph.ofDocument s.store data = .ok read → read.graph.Inside read.store →
      Within R { s with store := read.store } →
        Within R (f read.graph { s with store := read.store }).2) :
    Within R ((Session.readGraph data >>= f) s).2 := by
  rcases hread : Graph.ofDocument s.store data with e | read
  · rw [bind_of_error (by rw [readGraph_apply, hread])]
    exact h
  · rw [bind_of_ok (by rw [readGraph_apply, hread])]
    have nothing : Graph.Inside s.store {} := fun _ hid => absurd hid List.not_mem_nil
    exact hf read hread (h.linked.read nothing hread).2 (h.read nothing hread)

end Within

theorem inert_within (R : Set TypeId) : Inert (Within R) (Within R) where
  faulted _ h := h
  refused _ _ h := h.of_same (h.linked.of_same rfl rfl) ⟨rfl, rfl⟩ rfl rfl
  accepted s id _ inside h :=
    (h.accounts.of_same (sameRules_accepting s id) (h.accepted.accepting inside) rfl).within
      h.classes (h.linked.of_same rfl rfl)
  recorded _ _ h := h.of_same (h.linked.of_same rfl rfl) ⟨rfl, rfl⟩ rfl rfl
  registered _ _ _ _ _ h := h.of_same (h.linked.of_same rfl rfl) ⟨rfl, rfl⟩ rfl rfl
  measured _ _ _ h := h.of_same (h.linked.of_same rfl rfl) ⟨rfl, rfl⟩ rfl rfl

theorem saving_within (R : Set TypeId) : Saving (Within R) (Within R) where
  toSteady := (inert_within R).steady
  saved := keeps_saveUnit (fun _ h => h) fun _ _ h =>
    h.of_same (h.linked.of_same rfl rfl) ⟨rfl, rfl⟩ rfl rfl

def Operation.Forces (s : Session) : Operation → TypeId → Prop
  | .scan data, id =>
    ∃ g t, readGraph data s = (.ok g, t) ∧ some id ∈ t.roots g
  | .rescan, id => ∃ g ∈ s.graph, some id ∈ s.roots g
  | .batch forced _, id => some id ∈ forced
  | .visit force d, id => force = true ∧ d = id
  | _, _ => False

theorem Operation.run_within {operation : Operation} (indirect : operation.isDirect = false)
    (h : Within R s) (asked : ∀ id, operation.Forces s id → id ∈ R) :
    Within R (operation.run s).2 := by
  have steady := (inert_within R).steady
  have kept {α : Type} (a : Action Workspace α) : Keeps (Within R) (Within R) (onWorkspace a) :=
    .of_outcome fun _ h => h.of_same (h.linked.of_same rfl rfl) ⟨rfl, rfl⟩ rfl rfl
  cases operation with
  | scan data =>
    exact h.readGraph fun read hread inside begun => begun.start (by simpa using inside) (by
      rintro _ ⟨⟩ id hid
      exact asked id ⟨_, _, by rw [readGraph_apply, hread], hid⟩)
  | rescan => exact h.start h.linked.graph fun g hg id hid => asked id ⟨g, hg, hid⟩
  | load data =>
    show Within R ((Session.moduleLoaded data >>= fun _ => Pure.pure ()) s).2
    have loaded := h.moduleLoaded data
    rcases run : Session.moduleLoaded data s with ⟨e | added, t⟩
    · rw [bind_of_error run]
      rwa [run] at loaded
    · rw [bind_of_ok run]
      rwa [run] at loaded
  | adopt data =>
    exact h.readGraph fun read _ inside begun =>
      begun.of_same ⟨begun.linked.store, fun g hg => by cases hg; exact inside⟩ ⟨rfl, rfl⟩ rfl rfl
  | batch forced types => exact h.batch asked types
  | visit force d =>
    exact h.outcome (keeps_visit h.classes fun forced _ => .inl (asked d ⟨forced, rfl⟩))
      (stepwise_linked.enduring.visit force d)
  | exportAs form d => cases indirect
  | saveModules => exact (saving_within R).saveModuleUnits.outcome h
  | commit => exact ((kept _).bind fun _ => .pure _).outcome h
  | discard => exact (kept _).outcome h
  | properties d => exact ((steady.exportedProperties d).bind fun _ => .pure _).outcome h
  | functions d =>
    exact (Keeps.bind (Lasting.typeAt d) fun t =>
      (steady.exportedFunctions t).bind fun _ => .pure _).outcome h
  | layout ref =>
    exact (Keeps.get.bind fun _ =>
      .ite ((steady.measured ref).bind fun _ => .pure _) (.pure _)).outcome h
  | outside files => exact h.of_same (h.linked.of_same rfl rfl) ⟨rfl, rfl⟩ rfl rfl

/-- One of the operations forces the export of the type. -/
def Forced (s : Session) (operations : List Operation) (id : TypeId) : Prop :=
  ∃ before operation rest, operations = before ++ operation :: rest ∧
    operation.Forces (after s before) id

theorem within_after {operations : List Operation}
    (indirect : ∀ operation ∈ operations, operation.isDirect = false) (h : Within R s)
    (asked : ∀ id, Forced s operations id → id ∈ R) : Within R (after s operations) := by
  induction operations generalizing s with
  | nil => exact h
  | cons operation operations ih =>
    have first := Operation.run_within (indirect operation List.mem_cons_self) h
      fun id forces => asked id ⟨[], operation, operations, rfl, forces⟩
    refine ih (fun o ho => indirect o (List.mem_cons_of_mem _ ho)) first ?_
    rintro id ⟨before, o, rest, rfl, forces⟩
    exact asked id ⟨operation :: before, o, rest, rfl, forces⟩

theorem within_fresh (policy : Policy) (packaging : Packaging) (fileExtension : Value)
    (files : Workspace) : Within R (fresh policy packaging fileExtension files) where
  linked := linked_fresh _ _ _ _
  classes := fun _ hid => absurd hid (Nat.not_lt_zero _)
  accepted := fun _ _ known => by cases known
  inside := fun _ hid => absurd hid List.not_mem_nil
  due := fun _ hid => absurd hid List.not_mem_nil

/-- As long as the policy stays, whatever its operations lead to, a session exports or saves a type
that the policy ignores only if an operation forces it, or if a stray part of a member that passed
holds it. A start forces the newest types named as the roots of interfaces and classes, a load
forces none. -/
theorem ignored_only_for_strays {policy : Policy} {packaging : Packaging} {fileExtension : Value}
    {files : Workspace} {operations : List Operation}
    (indirect : ∀ operation ∈ operations, operation.isDirect = false)
    (run : s = after (fresh policy packaging fileExtension files) operations)
    (shown : id ∈ s.exported ∨
      .saved id ∈ (notedAfter (fresh policy packaging fileExtension files, []) operations).2)
    (ignored : s.ignores id) :
    Forced (fresh policy packaging fileExtension files) operations id ∨
      ∃ owner ∈ s.exported, ∃ p ∈ s.passedMembers owner, id ∈ p.strays := by
  subst run
  have start : SavedOnce (fresh policy packaging fileExtension files, []) :=
    ⟨[], rfl, .nil, by simp⟩
  obtain ⟨saved, noted, -, marked⟩ := savedOnce_after indirect start
  rw [notedAfter_fst] at marked
  have within : Within {d | Forced (fresh policy packaging fileExtension files) operations d}
      (after (fresh policy packaging fileExtension files) operations) :=
    within_after indirect (within_fresh policy packaging fileExtension files) fun _ forced => forced
  refine within.due id (shown.elim (fun hid => hid) fun hid => marked id ?_) ignored
  rw [noted, List.mem_map] at hid
  obtain ⟨d, hd, same⟩ := hid
  cases same
  exact hd

/-- An array of integers that has a value besides its elements, a struct. -/
def strayDocument : Value :=
  .object [("types", .list [
    .object [("kind", .text "class"), ("name", .text "C"), ("module", .text "M"),
      ("flags", .list [.text "blueprintable"]),
      ("properties", .list [
        .object [("name", .text "xs"), ("kind", .text "array"),
          ("flags", .list [.text "blueprint_visible"]),
          ("inner", .object [("name", .text "x"), ("kind", .text "int32")]),
          ("value", .object [("name", .text "v"), ("kind", .text "struct"),
            ("type", .text "S")])]])],
    .object [("kind", .text "struct"), ("name", .text "S"), ("module", .text "M"),
      ("flags", .list [.text "blueprint_type"])]])]

/-- The struct is on the blacklist. A file lies where the units would go, so they are dropped. -/
def straySession : Session :=
  fresh { blacklist := { structs := [.text "S"] } } { scriptsDir := .text "out" } (.text ".cs")
    { tree := { entries := [(["out"], .file (.text ""))] } }

theorem straySession_runs : (readGraph strayDocument).gives straySession fun g s =>
    let t := (generate (s.roots g) (g.members.map some) (s.started g)).2
    t.exported.contains 1 && t.ignores 1 && s.roots g == [] := by decide +kernel

theorem straySession_exports : 1 ∈ (after straySession [.scan strayDocument]).exported ∧
    (after straySession [.scan strayDocument]).ignores 1 ∧
    ¬Forced straySession [.scan strayDocument] 1 := by
  obtain ⟨g, s, read, runs⟩ := exists_of_gives straySession_runs
  obtain ⟨w, left⟩ := after_scan read
  simp only [Bool.and_eq_true, beq_iff_eq, List.contains_iff_mem] at runs
  obtain ⟨⟨exported, ignored⟩, none⟩ := runs
  rw [left]
  refine ⟨exported, ignored, ?_⟩
  rintro ⟨before, operation, rest, only, forces⟩
  cases before with
  | nil =>
    cases only
    obtain ⟨g', u, again, hid⟩ := forces
    cases read.symm.trans again
    rw [none] at hid
    cases hid
  | cons _ _ => simp at only

/-- The struct is exported for the value of the array. -/
theorem ignored_only_for_strays_of_array :
    ∃ owner ∈ (after straySession [.scan strayDocument]).exported,
      ∃ p ∈ (after straySession [.scan strayDocument]).passedMembers owner, 1 ∈ p.strays := by
  obtain ⟨exported, ignored, unforced⟩ := straySession_exports
  exact (ignored_only_for_strays (by decide) rfl (.inl exported) ignored).resolve_left unforced

/-- So the policy does not keep out all that it ignores and that nothing forces. -/
theorem ignored_struct_exported : ¬∀ id ∈ (after straySession [.scan strayDocument]).exported,
    (after straySession [.scan strayDocument]).ignores id →
      Forced straySession [.scan strayDocument] id := by
  obtain ⟨exported, ignored, unforced⟩ := straySession_exports
  exact fun kept => unforced (kept 1 exported ignored)

end ScriptGlue.Session
