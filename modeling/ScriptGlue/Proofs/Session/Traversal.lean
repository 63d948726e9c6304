import ScriptGlue.Proofs.Session.Progress
import ScriptGlue.Session.Trigger

/-! # Traversal

A visit that gives a result has walked: it marked the requested type before the types its unit
needs, visited those as forced, and staged its unit after theirs. So has a batch, which walks
through its forced types and then through the others.
-/
namespace ScriptGlue.Session
open ScriptGlue.Action

variable {C : Setting} {s t u v : Session}

def Reaches (C : Setting) (s : Session) (requests : List Request) (t u : Session) :
    Prop := ∃ finished, Advances C s requests finished t u

theorem Reaches.during {requests : List Request} (h : Reaches C s requests t u) : During C s u := by
  obtain ⟨_, h⟩ := h
  exact h.during

theorem Reaches.trans {requests more : List Request} (h : Reaches C s requests t u)
    (g : Reaches C s more u v) : Reaches C s (requests ++ more) t v := by
  obtain ⟨_, h⟩ := h
  obtain ⟨_, g⟩ := g
  exact ⟨_, h.append g⟩

theorem Reaches.of_still (h : During C s u) (still : Still [] t u) : Reaches C s [] t u :=
  ⟨[], .of_still h still⟩

theorem Reaches.congr {requests asked : List Request} (h : Reaches C s requests t u)
    (same : C.exact → requests = asked) : Reaches C s asked t u := by
  obtain ⟨finished, h⟩ := h
  exact ⟨finished, { h with walk := fun exact => same exact ▸ h.walk exact }⟩

theorem Reaches.rest {α : Type} {requests : List Request} {a : Generation α} {x : α}
    (h : Reaches C s requests t u)
    (steady : Keeps (fun v => During C s v ∧ Still [] u v) (fun _ => True) a)
    (he : a u = (.ok x, v)) : Reaches C s requests t v := by
  obtain ⟨hv, still⟩ := Still.of_keeps steady h.during he
  have := h.trans (.of_still hv still)
  rwa [List.append_nil] at this

def Walks (C : Setting) (s : Session) (visit : Visit) : Prop :=
  ∀ force id t x u, During C s t → visit force id t = (.ok x, u) →
    Reaches C s [(force, id)] t u

theorem forM_reaches {α : Type} {f : α → Generation Unit} {requests : α → List Request}
    {xs : List α} {y : Unit}
    (step : ∀ x ∈ xs, ∀ t y u, During C s t → f x t = (.ok y, u) → Reaches C s (requests x) t u)
    (ht : During C s t) (h : xs.forM f t = (.ok y, u)) :
    Reaches C s (xs.flatMap requests) t u := by
  induction xs generalizing t with
  | nil =>
    obtain rfl := (pure_eq_ok.1 h).2
    exact .of_still ht (.refl _)
  | cons x xs ih =>
    rw [forM_cons] at h
    obtain ⟨_, v, hx, h⟩ := bind_eq_ok.1 h
    have first := step x List.mem_cons_self t _ v ht hx
    exact first.trans (ih (fun x hx => step x (List.mem_cons_of_mem _ hx)) first.during h)

section
variable {visit : Visit}

theorem visitSome_reaches (walks : Walks C s visit) {ref : Option TypeId} {x : Unit}
    (ht : During C s t) (h : visitSome visit ref t = (.ok x, u)) : Reaches C s (ref.toList.map (true, ·)) t u := by
  cases ref with
  | none =>
    obtain rfl := (pure_eq_ok.1 h).2
    exact .of_still ht (.refl _)
  | some id => exact walks true id t x u ht h

mutual

theorem exportDependencies_reaches (walks : Walks C s visit) :
    ∀ (p : Property) {t u : Session} {x : Unit}, During C s t →
      exportDependencies visit p t = (.ok x, u) →
      Reaches C s (p.held.map (true, ·)) t u
  | ⟨_, kind, _, _, ref, inner, value, _, _, _⟩, t, u, x, ht, h => by
    unfold exportDependencies at h
    obtain ⟨_, v, href, h⟩ := bind_eq_ok.1 h
    obtain ⟨_, w, hinner, h⟩ := bind_eq_ok.1 h
    have first := visitSome_reaches walks ht href
    have second := exportElementDependencies_reaches walks inner first.during hinner
    have third := exportElementDependencies_reaches walks value second.during h
    rw [Property.held, List.map_append, List.map_append]
    exact (first.trans second).trans third

theorem exportElementDependencies_reaches (walks : Walks C s visit) :
    ∀ (p : Option Property) {t u : Session} {x : Unit}, During C s t →
      exportElementDependencies visit p t = (.ok x, u) →
      Reaches C s ((heldByElement p).map (true, ·)) t u
  | some p, _, _, _, ht, h => exportDependencies_reaches walks p ht h
  | none, t, u, x, ht, h => by
    obtain rfl := (pure_eq_ok.1 h).2
    exact .of_still ht (.refl _)

end

theorem exportInterfaces_reaches (walks : Walks C s visit) (k : Knows C s) {own : String} {imports result : List String}
    {ids : List TypeId} (ht : During C s t)
    (h : exportInterfaces visit own imports ids t = (.ok result, u)) :
    Reaches C s (ids.map (true, ·)) t u := by
  induction ids generalizing imports t with
  | nil =>
    obtain rfl := (pure_eq_ok.1 h).2
    exact .of_still ht (.refl _)
  | cons id ids ih =>
    obtain ⟨_, v, hid, h⟩ := bind_eq_ok.1 h
    obtain ⟨node, _, hnode, h⟩ := bind_eq_ok.1 h
    obtain ⟨_, _, hget, hnode⟩ := bind_eq_ok.1 hnode
    obtain ⟨rfl, rfl⟩ := get_eq_ok.1 hget
    obtain ⟨rfl, rfl⟩ := pure_eq_ok.1 hnode
    obtain ⟨space, w, hspace, h⟩ := bind_eq_ok.1 h
    have visited := walks true id t _ v ht hid
    have first := visited.rest
      ((steady_still k v).spaceOf (k.frame_home visited.during.toFrame id)) hspace
    exact first.trans (ih first.during h)

end

theorem addExtension_ok (k : Knows C s) {library : TypeId} {f : Function} {x : Unit}
    (static : f.has .static) (ht : During C s t) (h : addExtension library f t = (.ok x, u)) :
    During C s u ∧ Still (methodOf? library f).toList t u := by
  obtain ⟨node, _, hnode, h⟩ := bind_eq_ok.1 h
  obtain ⟨_, _, hget, hnode⟩ := bind_eq_ok.1 hnode
  obtain ⟨rfl, rfl⟩ := get_eq_ok.1 hget
  obtain ⟨rfl, rfl⟩ := pure_eq_ok.1 hnode
  unfold methodOf?
  rw [if_pos static]
  cases resolved : Receiver.resolve (some Receiver.worldClass) f with
  | none =>
    rw [resolved] at h
    obtain rfl := (pure_eq_ok.1 h).2
    exact ⟨ht, .refl _⟩
  | some receiver =>
    rw [resolved] at h
    obtain ⟨_, v, hadd, h⟩ := bind_eq_ok.1 h
    obtain rfl := modify_eq_ok.1 hadd
    have hv : During C s { t with extensions := t.extensions ++ [{ function := f, receiver, library }] } :=
      ht.of_same ⟨rfl, rfl⟩ rfl rfl rfl rfl rfl rfl
    obtain ⟨hu, still⟩ := Still.of_keeps ((steady_still k _).tell _ _ _) hv h
    have added : Still [{ function := f, receiver, library }] t
        { t with extensions := t.extensions ++ [{ function := f, receiver, library }] } :=
      ⟨rfl, rfl, List.prefix_rfl, .refl _⟩
    exact ⟨hu, added.trans still⟩

theorem wrappers_ok (k : Knows C s) {id : TypeId} {owner : Name} {isLibrary : Bool}
    {fs : List Function} {shown : List Wrapper} (ht : During C s t)
    (h : wrappers id owner isLibrary fs t = (.ok shown, u)) :
    During C s u ∧ Still (if isLibrary then fs.filterMap (methodOf? id) else []) t u := by
  induction fs generalizing shown t with
  | nil =>
    obtain rfl := (pure_eq_ok.1 h).2
    exact ⟨ht, by cases isLibrary <;> exact .refl _⟩
  | cons f fs ih =>
    obtain ⟨first, v, hfirst, h⟩ := bind_eq_ok.1 h
    obtain ⟨hv, still⟩ := Still.of_keeps ((steady_still k t).wrapper f owner) ht hfirst
    cases added : isLibrary && f.has .static with
    | true =>
      obtain ⟨rfl, static⟩ := Bool.and_eq_true_iff.1 added
      simp only [added, ↓reduceIte] at h
      obtain ⟨_, w, hadd, h⟩ := bind_eq_ok.1 h
      obtain ⟨others, w', hothers, h⟩ := bind_eq_ok.1 h
      obtain rfl := (pure_eq_ok.1 h).2
      obtain ⟨hw, method⟩ := addExtension_ok k static hv hadd
      obtain ⟨hu, rest⟩ := ih hw hothers
      refine ⟨hu, ?_⟩
      have := (still.trans method).trans rest
      simp only [↓reduceIte, List.nil_append] at this ⊢
      rw [List.filterMap_cons]
      cases hm : methodOf? id f <;> rw [hm] at this <;> exact this
    | false =>
      simp only [added, Bool.false_eq_true, ↓reduceIte] at h
      obtain ⟨others, w', hothers, h⟩ := bind_eq_ok.1 h
      obtain rfl := (pure_eq_ok.1 h).2
      obtain ⟨hu, rest⟩ := ih hv hothers
      refine ⟨hu, ?_⟩
      have := still.trans rest
      rw [List.nil_append] at this
      cases isLibrary with
      | false => exact this
      | true =>
        have none : methodOf? id f = none := by
          simp only [Bool.true_and] at added
          simp [methodOf?, added]
        simpa [List.filterMap_cons, none] using this

theorem classMembers_ok (k : Knows C s) {id : TypeId} {node : TypeNode} {ps : List Property}
    {functions events : List Function} {x} (ht : During C s t)
    (h : classMembers id node ps functions events t = (.ok x, u)) :
    During C s u ∧ Still (if isChildOf s.store id functionLibraryClass then
      functions.filterMap (methodOf? id) else []) t u := by
  obtain ⟨_, v, hnames, h⟩ := bind_eq_ok.1 h
  have names : Keeps (fun v => During C s v ∧ Still [] t v) (fun _ => True)
      (ps.forM fun p => do let _ ← Action.ofExcept (propertyName p (scriptName node))) :=
    Keeps.forM fun p _ => (Keeps.ofExcept (fun _ _ => trivial) _).bind fun _ => .pure _
  obtain ⟨hv, first⟩ := Still.of_keeps names ht hnames
  obtain ⟨shown, w, hshown, h⟩ := bind_eq_ok.1 h
  obtain ⟨hw, second⟩ := Still.of_keeps ((steady_still k v).wrapperProperties node [] ps) hv hshown
  obtain ⟨_, _, hget, h⟩ := bind_eq_ok.1 h
  obtain ⟨rfl, rfl⟩ := get_eq_ok.1 hget
  obtain ⟨called, w', hcalled, h⟩ := bind_eq_ok.1 h
  obtain ⟨hw', third⟩ := wrappers_ok k hw hcalled
  obtain ⟨stubs, u', hstubs, h⟩ := bind_eq_ok.1 h
  obtain rfl := (pure_eq_ok.1 h).2
  have stub : Keeps (fun v => During C s v ∧ Still [] w' v) (fun _ => True)
      (events.mapM fun f => eventStub f (scriptName node)) :=
    Keeps.mapM fun f _ => (steady_still k w').eventStub f _
  obtain ⟨hu, fourth⟩ := Still.of_keeps stub hw' hstubs
  refine ⟨hu, ?_⟩
  have := ((first.trans second).trans third).trans fourth
  rw [List.append_nil, List.append_nil, List.nil_append, hw.rules.2] at this
  exact this

theorem dependencies_of_class {id : TypeId} (variant : (s.store.type id).isClass)
    (plain : isInterface s.store id = false) : s.dependencies id = s.classDependencies id := by
  unfold TypeNode.isClass TypeNode.classBody? at variant
  unfold dependencies TypeNode.variant
  cases body : (s.store.type id).body <;> simp_all

theorem needs_of_class {id : TypeId} (variant : (s.store.type id).isClass)
    (plain : isInterface s.store id = false) :
    s.needs id = (s.classDependencies id).map (true, ·) := by
  rw [needs, dependencies_of_class variant plain]

theorem methodsOf_class {id : TypeId} (variant : (s.store.type id).isClass)
    (plain : isInterface s.store id = false) :
    s.methodsOf id = if isChildOf s.store id functionLibraryClass then
      (s.passedFunctions (s.store.type id)).filterMap (methodOf? id) else [] := by
  unfold TypeNode.isClass TypeNode.classBody? at variant
  unfold methodsOf TypeNode.variant
  cases body : (s.store.type id).body <;> simp_all

theorem exportedProperties_reaches {requests : List Request} {id : TypeId} {ps : List Property}
    (k : Knows C s) (h : Reaches C s requests t u) (he : exportedProperties id u = (.ok ps, v)) :
    ps = s.givenProperties id ∧ (C.exact → ps = s.passedProperties id) ∧ Reaches C s requests t v :=
  ⟨(exportedProperties_given he).trans (congrFun h.during.consults.givenProperties id), fun exact => (exportedProperties_ok (h.during.remembers exact).accepted he).2.trans
    (h.during.rules.passedProperties id), h.rest ((steady_still k u).exportedProperties id) he⟩

theorem properties_reaches {visit : Visit} (walks : Walks C s visit) {ps : List Property} {x : Unit}
    (ht : During C s t) (h : ps.forM (exportDependencies visit) t = (.ok x, u)) :
    Reaches C s ((ps.flatMap Property.held).map (true, ·)) t u := by
  rw [List.map_flatMap]
  exact forM_reaches (fun p _ t y u ht h => exportDependencies_reaches walks p ht h) ht h

/-- A class's unit is made after those of all it needs; the methods it finds come last. -/
theorem classUnit_ok (k : Knows C s) {visit : Visit} (walks : Walks C s visit) {id : TypeId}
    {unit : ClassUnit} (variant : (s.store.type id).isClass)
    (plain : isInterface s.store id = false) (ht : During C s t)
    (h : classUnit visit id (s.store.type id) t = (.ok unit, u)) :
    ∃ v, Reaches C s (s.needs id) t v ∧ During C s u ∧ Still (s.methodsOf id) v u := by
  obtain ⟨_, t₁, hsuper, h⟩ := bind_eq_ok.1 h
  have first := visitSome_reaches walks ht hsuper
  obtain ⟨space, t₂, hspace, h⟩ := bind_eq_ok.1 h
  have first := first.rest ((steady_still k t₁).spaceOf (k.home id)) hspace
  obtain ⟨_, _, hget, h⟩ := bind_eq_ok.1 h
  obtain ⟨rfl, rfl⟩ := get_eq_ok.1 hget
  rw [first.during.rules.2] at h
  obtain ⟨imports, t₃, himports, h⟩ := bind_eq_ok.1 h
  have second := exportInterfaces_reaches walks k first.during himports
  obtain ⟨base, t₄, hbase, h⟩ := bind_eq_ok.1 h
  have second := second.rest ((steady_still k t₃).superClassName _) hbase
  obtain ⟨bases, t₅, hbases, h⟩ := bind_eq_ok.1 h
  have second := second.rest (Keeps.mapM fun d _ => (steady_still k t₄).qualifiedName d) hbases
  obtain ⟨ps, t₆, hps, h⟩ := bind_eq_ok.1 h
  obtain ⟨-, accepted, second⟩ := exportedProperties_reaches k second hps
  obtain ⟨functions, t₇, hfunctions, h⟩ := bind_eq_ok.1 h
  have passed := (exportedFunctions_ok hfunctions).1
  rw [second.during.rules.passedFunctions, second.during.rules.passedEvents] at passed
  obtain rfl := passed
  have second := second.rest ((steady_still k t₆).exportedFunctions _) hfunctions
  obtain ⟨_, t₈, hproperties, h⟩ := bind_eq_ok.1 h
  have third := properties_reaches walks second.during hproperties
  obtain ⟨_, t₉, hparams, h⟩ := bind_eq_ok.1 h
  have fourth : Reaches C s (((s.passedFunctions (s.store.type id) ++
      s.passedEvents (s.store.type id)).flatMap fun f => f.params.flatMap Property.held).map
        (true, ·)) t₈ t₉ := by
    rw [List.map_flatMap]
    exact forM_reaches (fun f _ t y u ht h => properties_reaches walks ht h) third.during hparams
  obtain ⟨members, t₁₀, hmembers, h⟩ := bind_eq_ok.1 h
  obtain rfl := (pure_eq_ok.1 h).2
  obtain ⟨hu, still⟩ := classMembers_ok k fourth.during hmembers
  rw [methodsOf_class variant plain]
  refine ⟨t₉, (((first.trans second).trans third).trans fourth).congr fun exact => ?_, hu, still⟩
  rw [needs_of_class variant plain, accepted exact]
  simp only [classDependencies, List.map_append]

theorem mark_fresh {id : TypeId} (node : TypeNode) (fresh : id ∉ t.exported) :
    mark id node t = (.ok true, { t with exported := id :: t.exported }) := by
  have missing : t.exported.contains id = false := by simpa using fresh
  simp only [mark, bind_apply, get_apply, missing]
  rfl

/-- A request that is not granted, or whose type is marked or passed over, leads nowhere. -/
theorem pass_reaches {r : Request} (passed : r.2 ∈ t.exported ∨ Skips s r.2 ∨ Stays s r.2 ∧ s.grants r = false)
    (hu : During C s u) (still : Still [] t u) : Reaches C s [r] t u := by
  refine ⟨[], { Advances.of_still hu still with walk := fun _ => ?_ }⟩
  rw [still.exported]
  exact .pass passed (.nil _)

theorem enter_reaches (k : Knows C s) {r : Request} {w : Session} {code : Code} {x : Unit}
    (fresh : r.2 ∉ t.exported) (kept : Stays s r.2) (granted : s.grants r)
    (inside : Reaches C s (s.needs r.2) { t with exported := r.2 :: t.exported } u)
    (hv : During C s v) (made : Still (s.methodsOf r.2) u v) (renders : Renders C s r.2 code)
    (saved : saveTypeUnit (s.store.type r.2) code v = (.ok x, w)) : Reaches C s [r] t w := by
  obtain ⟨finished, inside⟩ := inside
  obtain ⟨hw, target, placed, run⟩ := saveTypeUnit_ok k hv saved
  refine ⟨finished ++ [r.2], hw.during, fun exact => ?_, fun id => ?_, ?_, ?_, ?_, ?_, ?_⟩
  · rw [hw.exported, made.exported]
    exact .enter fresh kept granted (inside.walk exact) (.nil _)
  · rw [hw.exported, made.exported, inside.marked]
    simp [or_comm, or_assoc, or_left_comm]
  · intro id hid
    obtain hid | hid := List.mem_append.1 hid
    · exact fun known => inside.fresh id hid (List.mem_cons_of_mem _ known)
    · exact List.mem_singleton.1 hid ▸ fresh
  · refine inside.nodup.append (List.nodup_singleton _) fun id hid same => ?_
    exact inside.fresh id hid (by simp [List.mem_singleton.1 same])
  · rw [hw.extensions, made.extensions, inside.extensions]
    simp
  · exact (inside.registry.trans made.registry).trans hw.registry
  · have unit : Stages C s [r.2] v w :=
      ⟨_, run, .cons ⟨placed, code, renders, rfl⟩ .nil⟩
    have ended : Stages C s finished t v := by
      have := inside.stages.append (.quiet made.quiet) made.registry
      rwa [List.append_nil] at this
    exact ended.append unit hw.registry

theorem marking_during (ht : During C s t) (id : TypeId) :
    During C s { t with exported := id :: t.exported } :=
  ht.of_same ⟨rfl, rfl⟩ rfl rfl rfl rfl rfl rfl

theorem marked_run {id : TypeId} (body : TypeNode → Generation Unit) (ht : During C s t)
    (fresh : id ∉ t.exported) :
    (do
      let node ← typeAt id
      if ← mark id node then body node : Generation Unit) t =
      body (s.store.type id) { t with exported := id :: t.exported } := by
  rw [← ht.rules.2]
  show (mark id (t.store.type id) >>= fun marked =>
    if marked then body (t.store.type id) else Pure.pure ()) t = _
  rw [bind_of_ok (mark_fresh _ fresh)]
  rfl

theorem needs_of_interface {id : TypeId} (interface : isInterface s.store id)
    (variant : (s.store.type id).isClass) : s.needs id = [] ∧ s.methodsOf id = [] := by
  unfold TypeNode.isClass TypeNode.classBody? at variant
  unfold needs dependencies methodsOf TypeNode.variant
  cases body : (s.store.type id).body <;> simp_all

section
variable (k : Knows C s) {visit : Visit} {force : Bool} {id : TypeId} {x : Unit} (ht : During C s t) (fresh : id ∉ t.exported) (kept : Stays s id)
  (granted : s.grants (force, id))
include k ht fresh kept granted

theorem exportInterface_reaches (variant : (s.store.type id).isClass)
    (interface : isInterface s.store id) (h : exportInterface id t = (.ok x, u)) :
    Reaches C s [(force, id)] t u := by
  rw [exportInterface, marked_run _ ht fresh] at h
  obtain ⟨unit, v, hunit, h⟩ := bind_eq_ok.1 h
  have marked := marking_during ht id
  obtain ⟨hv, still⟩ :=
    Still.of_keeps ((steady_still k _).interfaceUnit (k.home id)) marked hunit
  obtain ⟨none_needed, no_method⟩ := needs_of_interface interface variant
  refine enter_reaches k fresh kept granted (u := v) ?_ hv ?_
    (.interface variant interface marked hunit) h
  · rw [none_needed]
    exact .of_still hv still
  · rw [no_method]
    exact .refl v

theorem exportStruct_reaches (walks : Walks C s visit)
    (variant : (s.store.type id).variant = .struct) (h : exportStruct visit id t = (.ok x, u)) :
    Reaches C s [(force, id)] t u := by
  rw [exportStruct, marked_run _ ht fresh] at h
  obtain ⟨ps, t₁, hps, h⟩ := bind_eq_ok.1 h
  have marked := marking_during ht id
  obtain ⟨given, accepted, first⟩ := exportedProperties_reaches k (.of_still marked (.refl _)) hps
  obtain ⟨_, t₂, hdependencies, h⟩ := bind_eq_ok.1 h
  have second := first.trans (properties_reaches walks first.during hdependencies)
  obtain ⟨unit, t₃, hunit, h⟩ := bind_eq_ok.1 h
  obtain ⟨hv, still⟩ :=
    Still.of_keeps ((steady_still k t₂).structUnit id (k.home id) _) second.during hunit
  have needed (exact : C.exact) : s.needs id = (ps.flatMap Property.held).map (true, ·) := by
    simp [needs, dependencies, variant, accepted exact]
  have no_method : s.methodsOf id = [] := by simp [methodsOf, variant]
  refine enter_reaches k fresh kept granted (u := t₂) ?_ hv ?_
    (.struct variant given accepted second.during hunit) h
  · exact second.congr fun exact => (needed exact).symm
  · rw [no_method]
    exact still

theorem exportEnum_reaches (variant : (s.store.type id).variant = .enum)
    (h : exportEnum id t = (.ok x, u)) : Reaches C s [(force, id)] t u := by
  rw [exportEnum, marked_run _ ht fresh] at h
  obtain ⟨unit, v, hunit, h⟩ := bind_eq_ok.1 h
  have marked := marking_during ht id
  obtain ⟨hv, still⟩ := Still.of_keeps ((steady_still k _).enumUnit (k.home id)) marked hunit
  have none_needed : s.needs id = [] := by simp [needs, dependencies, variant]
  have no_method : s.methodsOf id = [] := by simp [methodsOf, variant]
  refine enter_reaches k fresh kept granted (u := v) ?_ hv ?_ (.enum variant marked hunit) h
  · rw [none_needed]
    exact .of_still hv still
  · rw [no_method]
    exact .refl v

theorem exportClass_reaches (walks : Walks C s visit) (variant : (s.store.type id).isClass)
    (plain : isInterface s.store id = false) (h : exportClass visit id t = (.ok x, u)) :
    Reaches C s [(force, id)] t u := by
  rw [exportClass, marked_run _ ht fresh] at h
  simp only [variant, Bool.not_true, Bool.false_eq_true, ↓reduceIte] at h
  obtain ⟨unit, v, hunit, h⟩ := bind_eq_ok.1 h
  have marked := marking_during ht id
  obtain ⟨w, inside, hv, still⟩ := classUnit_ok k walks variant plain marked hunit
  have visits (force : Bool) (d : TypeId) : Keeps (During C s) (fun _ => True) (visit force d) :=
    ⟨fun ht he => (walks force d _ _ _ ht he).during, fun _ _ => trivial⟩
  exact enter_reaches k fresh kept granted inside hv still
    (.plainClass variant plain visits marked hunit) h

end

theorem SameRules.shouldExport (h : SameRules s t) (id : TypeId) :
    t.shouldExportClass id = s.shouldExportClass id ∧
      t.shouldExportStruct id = s.shouldExportStruct id ∧
      t.shouldExportEnum id = s.shouldExportEnum id := by
  obtain ⟨hp, hs⟩ := h
  cases s; cases t; cases hp; cases hs
  exact ⟨rfl, rfl, rfl⟩

theorem noteSkipped_reaches (k : Knows C s) {r : Request} {node : TypeNode} {x : Unit}
    (ht : During C s t) (skips : Skips s r.2) (h : noteSkipped node t = (.ok x, u)) :
    Reaches C s [r] t u := by
  have keeps : Keeps (fun u => During C s u ∧ Still [] t u) (fun _ => True) (noteSkipped node) :=
    (Keeps.modify fun v hv =>
      ⟨hv.1.of_same ⟨rfl, rfl⟩ rfl rfl rfl rfl rfl rfl, hv.2.of_same rfl rfl rfl rfl⟩).bind
      fun _ => (steady_still k t).tell _ _ _
  obtain ⟨hu, still⟩ := Still.of_keeps keeps ht h
  exact pass_reaches (.inr (.inl skips)) hu still

section
variable (k : Knows C s) {visit : Visit} (walks : Walks C s visit) {force : Bool} {id : TypeId}
  {x : Unit} (ht : During C s t) (fresh : id ∉ t.exported)
include ht

theorem gated_reaches (kept : Stays s id) (gate : Session → Bool) {export? : Generation Unit}
    (same : gate t = gate s) (grants : s.grants (force, id) = (force || gate s))
    (exports : s.grants (force, id) → export? t = (.ok x, u) → Reaches C s [(force, id)] t u)
    (h : (do if force || gate (← get) then export?) t = (.ok x, u)) :
    Reaches C s [(force, id)] t u := by
  obtain ⟨_, _, hget, h⟩ := bind_eq_ok.1 h
  obtain ⟨rfl, rfl⟩ := get_eq_ok.1 hget
  rw [same, ← grants] at h
  split at h
  · next granted => exact exports granted h
  · next refused =>
    obtain rfl := (pure_eq_ok.1 h).2
    exact pass_reaches (.inr (.inr ⟨kept, Bool.eq_false_iff.2 refused⟩)) ht (.refl _)

include k walks fresh

theorem dispatchClass_reaches (kept : Stays s id) (variant : (s.store.type id).isClass)
    (grants : s.grants (force, id) = (force || (isInterface s.store id || s.shouldExportClass id)))
    (h : (do
      let _ ← register (s.store.type id).home
      let s ← get
      if isInterface s.store id then exportInterface id
      else if force || s.shouldExportClass id then exportClass visit id) t = (.ok x, u)) :
    Reaches C s [(force, id)] t u := by
  obtain ⟨_, v, hregister, h⟩ := bind_eq_ok.1 h
  obtain ⟨hv, still⟩ := Still.of_keeps ((steady_still k t).register (k.home id)) ht hregister
  have fresh : id ∉ v.exported := still.exported ▸ fresh
  have registered : Reaches C s [] t v := .of_still hv still
  obtain ⟨_, _, hget, h⟩ := bind_eq_ok.1 h
  obtain ⟨rfl, rfl⟩ := get_eq_ok.1 hget
  rw [hv.rules.2] at h
  split at h
  · next interface =>
    have granted : s.grants (force, id) := by simp [grants, interface]
    exact registered.trans (exportInterface_reaches k hv fresh kept granted variant interface h)
  · next plain =>
    have plain := Bool.eq_false_iff.2 plain
    refine registered.trans (gated_reaches hv kept (fun s => s.shouldExportClass id)
      (hv.rules.shouldExport id).1 ?_ (fun granted h => ?_) h)
    · simp [grants, plain]
    · exact exportClass_reaches k hv fresh kept granted walks variant plain h

theorem dispatch_reaches (kept : Stays s id)
    (h : dispatch visit force id (s.store.type id) t = (.ok x, u)) :
    Reaches C s [(force, id)] t u := by
  cases body : (s.store.type id).body with
  | plainClass c =>
    rw [dispatch, body] at h
    exact dispatchClass_reaches k walks ht fresh kept
      (by simp [TypeNode.isClass, TypeNode.classBody?, body])
      (by simp [grants, admits, TypeNode.variant, body]) h
  | interface c =>
    rw [dispatch, body] at h
    exact dispatchClass_reaches k walks ht fresh kept
      (by simp [TypeNode.isClass, TypeNode.classBody?, body])
      (by simp [grants, admits, TypeNode.variant, body]) h
  | struct ps =>
    have variant : (s.store.type id).variant = .struct := by simp [TypeNode.variant, body]
    rw [dispatch, body] at h
    exact gated_reaches ht kept (fun s => s.shouldExportStruct id)
      (ht.rules.shouldExport id).2.1 (by simp [grants, admits, variant])
      (fun granted h => exportStruct_reaches k ht fresh kept granted walks variant h) h
  | enum entries underlying =>
    have variant : (s.store.type id).variant = .enum := by simp [TypeNode.variant, body]
    rw [dispatch, body] at h
    exact gated_reaches ht kept (fun s => s.shouldExportEnum id)
      (ht.rules.shouldExport id).2.2 (by simp [grants, admits, variant])
      (fun granted h => exportEnum_reaches k ht fresh kept granted variant h) h

end

theorem visitWithin_walks (k : Knows C s) (fuel : Nat) : Walks C s (visitWithin fuel) := by
  induction fuel with
  | zero =>
    intro force id t x u _ h
    cases h
  | succ fuel ih =>
    intro force id t x u ht h
    obtain ⟨_, _, hget, h⟩ := bind_eq_ok.1 h
    obtain ⟨rfl, rfl⟩ := get_eq_ok.1 hget
    split at h
    · next known =>
      obtain rfl := (pure_eq_ok.1 h).2
      exact pass_reaches (.inl (by simpa using known)) ht (.refl _)
    · next fresh =>
      have fresh : id ∉ t.exported := by simpa using fresh
      obtain ⟨node, _, hnode, h⟩ := bind_eq_ok.1 h
      obtain ⟨_, _, hget, hnode⟩ := bind_eq_ok.1 hnode
      obtain ⟨rfl, rfl⟩ := get_eq_ok.1 hget
      obtain ⟨rfl, rfl⟩ := pure_eq_ok.1 hnode
      rw [ht.rules.2] at h
      obtain ⟨skip, _, hasked, h⟩ := bind_eq_ok.1 h
      obtain ⟨hskip, rfl⟩ := ofExcept_eq_ok.1 hasked
      cases skip with
      | true => exact noteSkipped_reaches k ht hskip h
      | false => exact dispatch_reaches k ih ht fresh hskip h

theorem visit_walks (k : Knows C s) : Walks C s visit := by
  intro force id t x u ht h
  obtain ⟨_, _, hget, h⟩ := bind_eq_ok.1 h
  obtain ⟨rfl, rfl⟩ := get_eq_ok.1 hget
  exact visitWithin_walks k _ force id t x u ht h

end ScriptGlue.Session
