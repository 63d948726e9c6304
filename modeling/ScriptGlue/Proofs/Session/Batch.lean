import ScriptGlue.Proofs.Session.Traversal

/-! # Batches

A batch that gives a result has walked through its forced types and then through the others, has
staged the extension methods found so far, and has committed what is staged. The reports at its end
only make records.
-/
namespace ScriptGlue.Session
open ScriptGlue.Action

variable {C : Setting} {s t u : Session}

def Records (t u : Session) : Prop :=
  ∃ w, t.workspace.Quiet w ∧ u = { t with workspace := w }

theorem Records.refl (t : Session) : Records t t := ⟨t.workspace, .refl _, rfl⟩

theorem Records.trans {v : Session} (h : Records t u) (g : Records u v) : Records t v := by
  obtain ⟨w, quiet, rfl⟩ := h
  obtain ⟨w', quiet', rfl⟩ := g
  exact ⟨w', quiet.trans quiet', rfl⟩

def Reports (a : Generation Unit) : Prop := ∀ t, ∃ u, a t = (.ok (), u) ∧ Records t u

namespace Reports

theorem tell (level : Level) (source : Source) (text : String) :
    Reports (tell level source text) := fun t =>
  ⟨{ t with workspace := t.workspace.record ⟨level, source, text⟩ }, rfl,
    t.workspace.record ⟨level, source, text⟩, .record _ _, rfl⟩

theorem nothing : Reports (Pure.pure ()) := fun t => ⟨t, rfl, .refl t⟩

theorem andThen {a : Generation Unit} {f : Unit → Generation Unit} (ha : Reports a)
    (hf : ∀ x, Reports (f x)) : Reports (a >>= f) := by
  intro t
  obtain ⟨u, hu, first⟩ := ha t
  obtain ⟨v, hv, second⟩ := hf () u
  exact ⟨v, (bind_of_ok hu f).trans hv, first.trans second⟩

theorem forM {α : Type} {f : α → Generation Unit} {xs : List α} (hf : ∀ x ∈ xs, Reports (f x)) :
    Reports (xs.forM f) := by
  induction xs with
  | nil => exact nothing
  | cons x xs ih =>
    rw [forM_cons]
    exact (hf x List.mem_cons_self).andThen fun _ =>
      ih fun y hy => hf y (List.mem_cons_of_mem _ hy)

theorem ite {c : Prop} [Decidable c] {a b : Generation Unit} (ha : Reports a) (hb : Reports b) :
    Reports (if c then a else b) := by
  split
  · exact ha
  · exact hb

theorem tellDiagnostics : Reports tellDiagnostics := by
  intro t
  refine (andThen (forM fun category _ => forM fun kind _ => ite (tell _ _ _) nothing) fun _ =>
    forM fun variant _ => ite (tell _ _ _) nothing) t

end Reports

/-- Where the extension unit of a module goes when these modules are registered. -/
def moduleTarget? (s : Session) (r : Registry) (name : Name) : Option Target :=
  (r.find? name).bind fun m => target? m (m.unitName ++ s.fileExtension.plain)

/-- The save is that of the extension methods of a module, when these modules are registered. -/
structure IsModuleUnit (C : Setting) (s : Session) (r : Registry) (methods : List ExtensionMethod)
    (name : Name) (x : Save) : Prop where
  target : s.moduleTarget? r name = some x.toTarget
  text : ∃ m t u unit, r.find? name = some m ∧ During C s t ∧
    extensionUnit m (methods.filter fun e => (s.store.type e.library).home.name.alike name) t =
      (.ok unit, u) ∧ x.text = unit.code.text

theorem IsModuleUnit.grow {r q : Registry} {methods : List ExtensionMethod} {name : Name} {x : Save}
    (h : IsModuleUnit C s r methods name x) (more : r <+: q) : IsModuleUnit C s q methods name x := by
  obtain ⟨target, m, t, u, unit, found, during, made, text⟩ := h
  refine ⟨?_, m, t, u, unit, find?_grows more found, during, made, text⟩
  unfold moduleTarget? at target ⊢
  rw [found] at target
  rw [find?_grows more found]
  exact target

theorem registerByName_ok (k : Knows C s) {name : Name} {m : OutputModule} (ht : During C s t)
    (known : Nameable C.modules t.registry name) (h : registerByName name t = (.ok m, u)) :
    During C s u ∧ Still [] t u ∧ u.registry.find? name = some m := by
  have hregister := register_of_registerByName h
  refine and_assoc.1 ⟨?_, register_ok hregister⟩
  obtain found | hname := known
  · obtain ⟨m', hm'⟩ := Option.isSome_iff_exists.1 found
    rw [register_apply] at hregister
    simp only [hm'] at hregister
    split at hregister
    · cases hregister
      exact ⟨ht, .refl _⟩
    · cases hregister
  · exact Still.of_keeps ((steady_still k _).register hname) ht hregister

/-- The save of the extension methods of a module makes no other progress. -/
theorem saveExtensions_ok (k : Knows C s) {name : Name} {x : Unit} (ht : During C s t)
    (known : Nameable C.modules t.registry name) (h : saveExtensions name t = (.ok x, u)) :
    Saved C s t u ∧ ∃ save, IsModuleUnit C s u.registry t.extensions name save ∧
      Save.Saves [save] t.workspace u.workspace := by
  obtain ⟨m, v, hm, h⟩ := bind_eq_ok.1 h
  obtain ⟨hv, first, found⟩ := registerByName_ok k ht known hm
  obtain ⟨_, _, hget, h⟩ := bind_eq_ok.1 h
  obtain ⟨rfl, rfl⟩ := get_eq_ok.1 hget
  obtain ⟨unit, w, hunit, h⟩ := bind_eq_ok.1 h
  obtain ⟨hw, second⟩ := Still.of_keeps ((steady_still k v).extensionUnit m _) hv hunit
  obtain ⟨target, files, placed, rfl, run⟩ := saveUnit_ok h
  have still := first.trans second
  rw [List.append_nil] at still
  have methods : v.extensionsOf name =
      t.extensions.filter fun e => (s.store.type e.library).home.name.alike name := by
    rw [extensionsOf, hv.rules.2, first.extensions, List.append_nil]
  rw [methods] at hunit
  have found := find?_grows second.registry found
  refine ⟨⟨hw.files files, still.exported, by rw [still.extensions, List.append_nil],
    still.registry⟩, _, ⟨?_, m, v, w, unit, found, hv, hunit, rfl⟩, .single still.quiet run⟩
  unfold moduleTarget?
  rw [found, ← hv.fileExtension]
  exact placed

theorem Saved.trans {v : Session} (h : Saved C s t u) (g : Saved C s u v) : Saved C s t v :=
  ⟨g.during, g.exported.trans h.exported, g.extensions.trans h.extensions,
    h.registry.trans g.registry⟩

theorem forM_saveExtensions_ok (k : Knows C s) {names : List Name} {x : Unit}
    (ht : During C s t) (known : ∀ name ∈ names, Nameable C.modules t.registry name)
    (h : names.forM saveExtensions t = (.ok x, u)) :
    Saved C s t u ∧ ∃ saves, List.Forall₂ (IsModuleUnit C s u.registry t.extensions) names saves ∧
      Save.Saves saves t.workspace u.workspace := by
  induction names generalizing t with
  | nil =>
    obtain rfl := (pure_eq_ok.1 h).2
    exact ⟨⟨ht, rfl, rfl, List.prefix_rfl⟩, [], .nil, .quiet (.refl _)⟩
  | cons name names ih =>
    rw [forM_cons] at h
    obtain ⟨_, v, hname, hrest⟩ := bind_eq_ok.1 h
    obtain ⟨first, save, unit, run⟩ := saveExtensions_ok k ht (known name List.mem_cons_self) hname
    obtain ⟨rest, saves, units, runs⟩ := ih first.during (fun name hname =>
      (known name (List.mem_cons_of_mem _ hname)).grow first.registry) hrest
    rw [first.extensions] at units
    exact ⟨first.trans rest, save :: saves, .cons (unit.grow rest.registry) units, run.append runs⟩

theorem saveModuleUnits_ok (k : Knows C s) {x : Unit} (ht : During C s t)
    (known : ∀ name ∈ t.extendedModules, Nameable C.modules t.registry name)
    (h : saveModuleUnits t = (.ok x, u)) :
    Saved C s t u ∧ ∃ saves,
      List.Forall₂ (IsModuleUnit C s u.registry t.extensions) t.extendedModules saves ∧
        Save.Saves saves t.workspace u.workspace := by
  obtain ⟨_, _, hget, hforM⟩ := bind_eq_ok.1 h
  obtain ⟨rfl, rfl⟩ := get_eq_ok.1 hget
  exact forM_saveExtensions_ok k ht known hforM

/-- What a batch asks for: the forced types, then the others. -/
def requestsOf (forced types : List (Option TypeId)) : List Request :=
  forced.flatMap (fun ref => ref.toList.map (true, ·)) ++
    types.flatMap fun ref => ref.toList.map (false, ·)

theorem visitRef_reaches (k : Knows C s) {force : Bool} {ref : Option TypeId} {x : Unit}
    (ht : During C s t) (h : visitRef force ref t = (.ok x, u)) :
    Reaches C s (ref.toList.map (force, ·)) t u := by
  cases ref with
  | none => cases h
  | some id => exact visit_walks k force id t x u ht h

theorem generate_reaches (k : Knows C s) {forced types : List (Option TypeId)} {x : Unit}
    (ht : During C s t) (h : generate forced types t = (.ok x, u)) :
    ∃ v, Reaches C s (requestsOf forced types) t v ∧ saveModuleUnits v = (.ok x, u) := by
  obtain ⟨_, v, hforced, h⟩ := bind_eq_ok.1 h
  have first := forM_reaches (fun _ _ t y u ht h => visitRef_reaches k ht h) ht hforced
  obtain ⟨_, w, htypes, h⟩ := bind_eq_ok.1 h
  have second := forM_reaches (fun _ _ t y u ht h => visitRef_reaches k ht h) first.during htypes
  exact ⟨w, first.trans second, h⟩

theorem attempt_ok {forced types : List (Option TypeId)} {x : Unit}
    (h : (tryCatch (generate forced types) fun fault => do
      onWorkspace Workspace.discard
      throw fault) t = (.ok x, u)) : generate forced types t = (.ok (), u) := by
  rw [tryCatch_apply] at h
  rcases he : generate forced types t with ⟨e | y, w⟩
  · rw [he] at h
    obtain ⟨_, _, _, hthrow⟩ := bind_eq_ok.1 h
    cases hthrow
  · rw [he] at h
    cases h
    rfl

theorem reports_committed (n : Nat) : Reports (do
    tell .info .session ("  " ++ toString n ++ " files updated")
    tellDiagnostics) := (Reports.tell _ _ _).andThen fun _ => .tellDiagnostics

theorem batch_ok {forced types : List (Option TypeId)} {x : Unit}
    (h : batch forced types t = (.ok x, u)) :
    ∃ v n w, generate forced types t = (.ok (), v) ∧
      Workspace.commit v.workspace = (.ok n, w) ∧ Records { v with workspace := w } u := by
  obtain ⟨_, v, hgenerate, h⟩ := bind_eq_ok.1 h
  have hgenerate := attempt_ok hgenerate
  obtain ⟨n, w, hcommit, h⟩ := bind_eq_ok.1 h
  have committed : Workspace.commit v.workspace = (.ok n, w.workspace) ∧
      w = { v with workspace := w.workspace } := by
    cases he : Workspace.commit v.workspace with
    | mk result files =>
      have : onWorkspace Workspace.commit v = (result, { v with workspace := files }) := by
        simp only [onWorkspace, Action.within, he]
      cases this.symm.trans hcommit
      exact ⟨rfl, rfl⟩
  refine ⟨v, n, w.workspace, hgenerate, committed.1, ?_⟩
  rw [← committed.2]
  obtain ⟨u', hu', records⟩ := reports_committed n w
  cases hu'.symm.trans h
  exact records

/-- An extension method that the export of a type finds is one of its functions. -/
theorem of_mem_methodsOf {id : TypeId} {e : ExtensionMethod} (h : e ∈ s.methodsOf id) :
    e.library = id ∧ e.function ∈ s.passedFunctions (s.store.type id) := by
  have found {fs : List Function} (h : e ∈ fs.filterMap (methodOf? id)) :
      e.library = id ∧ e.function ∈ fs := by
    obtain ⟨f, hf, made⟩ := List.mem_filterMap.1 h
    unfold methodOf? at made
    split at made
    · obtain ⟨receiver, -, rfl⟩ := Option.map_eq_some_iff.1 made
      exact ⟨rfl, hf⟩
    · cases made
  unfold methodsOf at h
  split at h
  · split at h
    · exact found h
    · cases h
  · split at h
    · exact found h
    · cases h
  · cases h

theorem library_of_mem_methodsOf {id : TypeId} {e : ExtensionMethod} (h : e ∈ s.methodsOf id) :
    e.library = id := (of_mem_methodsOf h).1

theorem exists_of_forall₂ {α β : Type} {R : α → β → Prop} {xs : List α} {ys : List β} {x : α}
    (h : List.Forall₂ R xs ys) (hx : x ∈ xs) : ∃ y ∈ ys, R x y := by
  induction h with
  | nil => cases hx
  | cons first _ ih =>
    obtain rfl | hx := List.mem_cons.1 hx
    · exact ⟨_, List.mem_cons_self, first⟩
    · obtain ⟨y, hy, related⟩ := ih hx
      exact ⟨y, List.mem_cons_of_mem _ hy, related⟩

/-- What a batch that gives a result did: it finished the types of a walk, and wrote their units and
the extension units of all modules that have extension methods. -/
structure Batched (C : Setting) (s : Session) (requests : List Request) (finished : List TypeId)
    (t u : Session) : Prop where
  during : During C s u
  walk : C.exact → Walk s requests t.exported u.exported finished
  marked : ∀ id, id ∈ u.exported ↔ id ∈ t.exported ∨ id ∈ finished
  fresh : ∀ id ∈ finished, id ∉ t.exported
  nodup : finished.Nodup
  extensions : u.extensions = t.extensions ++ finished.flatMap s.methodsOf
  registry : t.registry <+: u.registry
  output : ∃ units modules v n w, List.Forall₂ (IsUnit C s u.registry) finished units ∧
    List.Forall₂ (IsModuleUnit C s u.registry u.extensions) u.extendedModules modules ∧
    Save.Saves (units ++ modules) t.workspace v ∧ Workspace.commit v = (.ok n, w) ∧
    w.Quiet u.workspace

theorem Batched.isUnit {requests : List Request} {finished : List TypeId}
    (h : Batched C s requests finished t u) :
    ∀ id ∈ finished, ∃ x, IsUnit C s u.registry id x := by
  obtain ⟨units, modules, v, n, w, isUnit, -⟩ := h.output
  intro id hid
  obtain ⟨x, -, unit⟩ := exists_of_forall₂ isUnit hid
  exact ⟨x, unit⟩

theorem Batched.isModuleUnit {requests : List Request} {finished : List TypeId}
    (h : Batched C s requests finished t u) :
    ∀ name ∈ u.extendedModules, ∃ x, IsModuleUnit C s u.registry u.extensions name x := by
  obtain ⟨units, modules, v, n, w, -, isModule, -⟩ := h.output
  intro name hname
  obtain ⟨x, -, unit⟩ := exists_of_forall₂ isModule hname
  exact ⟨x, unit⟩

theorem batch_batched (k : Knows C s) {forced types : List (Option TypeId)} {x : Unit}
    (ht : During C s t)
    (known : ∀ e ∈ t.extensions, Nameable C.modules t.registry (s.store.type e.library).home.name)
    (h : batch forced types t = (.ok x, u)) :
    ∃ finished, Batched C s (requestsOf forced types) finished t u := by
  obtain ⟨v, n, w, hgenerate, hcommit, w', quiet, rfl⟩ := batch_ok h
  obtain ⟨v', ⟨finished, advances⟩, hmodules⟩ := generate_reaches k ht hgenerate
  obtain ⟨units, unitSaves, isUnit⟩ := advances.stages
  have nameable : ∀ name ∈ v'.extendedModules, Nameable C.modules v'.registry name := by
    intro name hname
    obtain ⟨e, he, rfl⟩ := List.mem_map.1 (Value.mem_of_mem_distinct hname)
    rw [advances.during.rules.2]
    rw [advances.extensions] at he
    obtain he | he := List.mem_append.1 he
    · exact (known e he).grow advances.registry
    · obtain ⟨id, hid, he⟩ := List.mem_flatMap.1 he
      rw [library_of_mem_methodsOf he]
      obtain ⟨x, -, unit⟩ := exists_of_forall₂ isUnit hid
      obtain ⟨m, found, -⟩ := Option.bind_eq_some_iff.1 unit.target
      exact .inl (Option.isSome_iff_exists.2 ⟨m, found⟩)
  obtain ⟨saved, modules, isModule, moduleSaves⟩ :=
    saveModuleUnits_ok k advances.during nameable hmodules
  have names : Session.extendedModules { v with workspace := w' } = v'.extendedModules := by
    unfold extendedModules
    rw [saved.extensions, saved.during.rules.2, advances.during.rules.2]
  refine ⟨finished, saved.during.files w', ?_, ?_, advances.fresh, advances.nodup,
    saved.extensions.trans advances.extensions, advances.registry.trans saved.registry,
    units, modules, v.workspace, n, w, ?_, ?_, unitSaves.append moduleSaves, hcommit, quiet⟩
  · intro exact
    show Walk s _ t.exported v.exported finished
    rw [saved.exported]
    exact advances.walk exact
  · show ∀ id, id ∈ v.exported ↔ _
    rw [saved.exported]
    exact advances.marked
  · exact isUnit.imp fun _ _ h => h.grow saved.registry
  · rw [names]
    show List.Forall₂ (IsModuleUnit C s v.registry v.extensions) _ _
    rw [saved.extensions]
    exact isModule

/-- Where the units of some types and the extension units go when these modules are registered. -/
def targets (s : Session) (r : Registry) (ids : List TypeId) (names : List Name) : List Target :=
  ids.filterMap (s.typeTarget? r) ++ names.filterMap (s.moduleTarget? r)

theorem map_toTarget {α : Type} {R : α → Save → Prop} {place : α → Option Target} {xs : List α}
    {saves : List Save} (h : List.Forall₂ R xs saves)
    (placed : ∀ x save, R x save → place x = some save.toTarget) :
    saves.map Save.toTarget = xs.filterMap place := by
  induction h with
  | nil => rfl
  | cons first _ ih => rw [List.map_cons, List.filterMap_cons, placed _ _ first, ih]

/-- Among the files, each of the types and each module with extension methods has its unit, unless
the way to the directory was not open, and all other files are the old ones. -/
structure Wrote (C : Setting) (s : Session) (ids : List TypeId) (before : Workspace) (u : Session) :
    Prop where
  units : ∀ id ∈ ids, ∃ x, IsUnit C s u.registry id x ∧
    Save.Settled before.tree u.workspace.tree x
  modules : ∀ name ∈ u.extendedModules, ∃ x, IsModuleUnit C s u.registry u.extensions name x ∧
    Save.Settled before.tree u.workspace.tree x
  others : ∀ loc, LogFile.Off before.log {loc} →
    (∀ x ∈ s.targets u.registry ids u.extendedModules, loc ∉ x.places) →
    u.workspace.tree.fileAt loc = before.tree.fileAt loc

/-- The log file is off the places of these targets. -/
def LogOff (log : Option LogFile) (xs : List Target) : Prop :=
  LogFile.Off log {loc | ∃ x ∈ xs, loc ∈ x.places}

theorem LogOff.subset {log : Option LogFile} {xs ys : List Target} (h : LogOff log ys)
    (subset : xs ⊆ ys) : LogOff log xs :=
  fun file hfile loc hloc other ⟨x, hx, hother⟩ => h file hfile loc hloc other ⟨x, subset hx, hother⟩

theorem Batched.wrote {requests : List Request} {finished : List TypeId}
    (h : Batched C s requests finished t u) (pending : t.workspace.pending = [])
    (apart : Target.Apart (s.targets u.registry finished u.extendedModules))
    (off : LogOff t.workspace.log (s.targets u.registry finished u.extendedModules)) :
    Wrote C s finished t.workspace u := by
  obtain ⟨units, modules, v, n, w, isUnit, isModule, saves, commit, quiet⟩ := h.output
  have targets : (units ++ modules).map Save.toTarget =
      s.targets u.registry finished u.extendedModules := by
    rw [List.map_append, map_toTarget isUnit fun _ _ h => h.target,
      map_toTarget isModule fun _ _ h => h.target]
    rfl
  rw [← targets] at apart off
  have round : Save.Round (units ++ modules) t.workspace u.workspace := ⟨v, n, w, saves, commit, quiet⟩
  have inside : ∀ x ∈ units ++ modules,
      x.places ⊆ {loc | ∃ y ∈ (units ++ modules).map Save.toTarget, loc ∈ y.places} :=
    fun x hx loc hloc => ⟨x.toTarget, List.mem_map_of_mem hx, hloc⟩
  obtain ⟨settled, -⟩ := round.ok pending apart inside off
  refine ⟨fun id hid => ?_, fun name hname => ?_, fun loc away outside => ?_⟩
  · obtain ⟨x, hx, unit⟩ := exists_of_forall₂ isUnit hid
    exact ⟨x, unit, settled x (List.mem_append_left _ hx)⟩
  · obtain ⟨x, hx, unit⟩ := exists_of_forall₂ isModule hname
    exact ⟨x, unit, settled x (List.mem_append_right _ hx)⟩
  · obtain ⟨-, others, -⟩ := round.ok pending apart
      (fun x hx => (inside x hx).trans Set.subset_union_left) (off.union away)
    rw [← targets] at outside
    exact others loc (.inr rfl) fun x hx => outside x.toTarget (List.mem_map_of_mem hx)

theorem batch_of_ok {forced types : List (Option TypeId)} {v : Session} {n : Nat} {w : Workspace}
    (hgenerate : generate forced types t = (.ok (), v))
    (hcommit : Workspace.commit v.workspace = (.ok n, w)) :
    ∃ u, batch forced types t = (.ok (), u) ∧ Records { v with workspace := w } u := by
  have attempted : (tryCatch (generate forced types) fun fault => do
      onWorkspace Workspace.discard
      throw fault) t = (.ok (), v) := by rw [tryCatch_apply, hgenerate]
  have committed : onWorkspace Workspace.commit v = (.ok n, { v with workspace := w }) := by
    simp only [onWorkspace, Action.within, hcommit]
  obtain ⟨u, hu, records⟩ := reports_committed n { v with workspace := w }
  refine ⟨u, ?_, records⟩
  rw [← hu]
  exact (bind_of_ok attempted _).trans (bind_of_ok committed _)

end ScriptGlue.Session
