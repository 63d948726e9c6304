import ScriptGlue.Proofs.Session.LayoutAnswers
import ScriptGlue.Proofs.Session.ModuleDirectories
import ScriptGlue.Proofs.Session.TwinSaves

/-! # Units of two batches over one session

Batches that go on where a session was, with other marks, memo tables and files, save the same unit of
a type, and of a module of which they found the same extension methods. A failed batch is one way to
go on: whatever was marked before the fault, it leaves the memo tables right and registers modules as
the graph held them.
-/
namespace ScriptGlue.Session
open ScriptGlue.Action

variable {C : Setting} {s t t' u u' : Session} {forced types : List (Option TypeId)}

/-- Modules are called by texts in the last session, and no two that graphs held by the same. -/
structure KnownByName (b : Session) (operations : List Operation) : Prop where
  homes : ∀ id < (after b operations).store.size,
    ((after b operations).store.type id).home.name.isText
  declared : ∀ name m, (after b operations).findModule? name = some m → m.name.isText
  registered : ∀ m ∈ (after b operations).registry, m.name.isText
  one : ∀ m m', HeldByGraph b operations m → HeldByGraph b operations m' → m.name = m'.name → m = m'

def heldModules (b : Session) (operations : List Operation) : Setting where
  modules m := m = default ∨ m.name.isText ∧ HeldByGraph b operations m
  exact := True

theorem KnownByName.named {b : Session} {operations : List Operation}
    (known : KnownByName b operations) : ∀ m, (heldModules b operations).modules m →
      ∀ m', (heldModules b operations).modules m' → m.name.alike m'.name → m = m' := by
  have nameless {m : NativeModule} (text : m.name.isText) :
      ¬(default : NativeModule).name.alike m.name ∧ ¬m.name.alike (default : NativeModule).name := by
    obtain ⟨word, named⟩ := Value.eq_text_of_isText text
    rw [named, Value.alike_text_right, Value.alike_text_left]
    constructor <;> rintro ⟨⟩
  rintro m (rfl | ⟨text, held⟩) m' (rfl | ⟨text', held'⟩) alike
  · rfl
  · exact absurd alike (nameless text').1
  · exact absurd alike (nameless text).2
  · obtain ⟨word, named⟩ := Value.eq_text_of_isText text
    rw [named, Value.alike_text_left] at alike
    exact known.one m m' held held' (named.trans alike.symm)

/-- Goes on where the session was: the rules, the graph and the packaging are the same, and what it
knows of layouts and modules is right. -/
structure Resumes (C : Setting) (s t : Session) : Prop where
  rules : SameRules s t
  graph : t.graph = s.graph
  packaging : t.packaging = s.packaging
  fileExtension : t.fileExtension = s.fileExtension
  during : During C t t
  methods : ∀ e ∈ t.extensions, MethodFits s.store e ∧ Lodged t.registry (s.store.type e.library)

/-- What a generation leaves, the files put aside, goes on where the session was. -/
theorem resumes_of_lodges (registry : ∀ m ∈ s.registry, ∃ home, C.modules home ∧ home.name = m.name ∧
      s.packaging.directory home = .ok m.directory)
    (lodges : Lodges C.modules s (fun _ _ => True) t) (truthful : TruthfulFor s t) (w : Workspace) :
    Resumes C s { t with workspace := w } where
  rules := truthful.remembers.rules
  graph := lodges.graph
  packaging := lodges.packaging
  fileExtension := lodges.fileExtension
  during :=
    { rules := .refl _
      graph := rfl
      packaging := rfl
      fileExtension := rfl
      consults := .refl
      remembers := fun _ => (truthful.of_same (u := { t with workspace := w }) ⟨rfl, rfl⟩ rfl rfl
        rfl).truthful.coherent
      registry := fun _ m hm => by
        rw [show ({ t with workspace := w } : Session).packaging = s.packaging from lodges.packaging]
        obtain old | ⟨_, home, ⟨hhome, -⟩, entry⟩ :=
          lodges.presents.origin (fun _ _ h => h.2.2.2) hm
        · exact registry m old
        · obtain ⟨directory, -, name⟩ := Packaging.entry?_eq_some.1 entry
          exact ⟨home, hhome, name.symm, directory⟩ }
  methods e he := ⟨truthful.methods e he, lodges.methods e he⟩

namespace Resumes
variable (h : Resumes C s t)
include h

theorem knows (k : Knows C s) : Knows C t where
  home id := by
    rw [h.rules.2]
    exact k.home id
  declared name m hm := by
    rw [findModule?, h.graph] at hm
    exact k.declared name m hm

theorem inside (linked : s.store.Linked) : ∀ e ∈ t.extensions, e.Inside s.store := fun e he => by
  have fits := (h.methods e he).1
  have inside := TypeStore.lt_size_of_mem_functions fits.declared
  exact ⟨inside, fun p hp => linked.param inside fits.declared hp⟩

/-- The extension methods that a batch found before its end lie in the store too. -/
theorem found_inside (linked : s.store.Linked) {finished : List TypeId}
    (extensions : u.extensions = t.extensions ++ finished.flatMap t.methodsOf) :
    ∀ e ∈ u.extensions, e.Inside t.store := by
  intro e he
  rw [h.rules.2]
  rw [extensions] at he
  obtain he | he := List.mem_append.1 he
  · exact h.inside linked e he
  · obtain ⟨id, -, he⟩ := List.mem_flatMap.1 he
    obtain ⟨rfl, passed⟩ := of_mem_methodsOf he
    rw [h.rules.2] at passed
    have declared := List.mem_of_mem_filter passed
    have inside := TypeStore.lt_size_of_mem_functions declared
    exact ⟨inside, fun p hp => linked.param inside declared hp⟩

theorem twins (exact : C.exact) (linked : Linked s) (k : Knows C s)
    (named : ∀ m, C.modules m → ∀ m', C.modules m' → m.name.alike m'.name → m = m')
    (world : ∀ m, s.findModule? worldModule = some m → m.name = worldModule)
    (h' : Resumes C s t') : GraphTwins id C t t' where
  policy := h'.rules.1.trans h.rules.1.symm
  embeds := ((h.rules.symm.trans h'.rules).grown (h.rules.2.symm ▸ linked.store)).embeds
  exact := exact
  packaging := h'.packaging.trans h.packaging.symm
  knows := h.knows k
  knows' := h'.knows k
  named := named
  found name := by
    rw [findType?, findType?, h.graph, h'.graph, h.rules.2, h'.rules.2, Option.map_id]
    rfl
  inside name id hid := by
    rw [findType?, h.graph, h.rules.2] at hid
    obtain ⟨g, hg, hid⟩ := Option.bind_eq_some_iff.1 hid
    rw [h.rules.2]
    exact linked.graph g hg id (List.mem_reverse.1 (List.mem_of_find?_eq_some hid))
  world m hm := by
    rw [findModule?, h.graph] at hm
    exact world m hm
  world' m hm := by
    rw [findModule?, h'.graph] at hm
    exact world m hm

theorem batched (k : Knows C s) {x : Unit} (run : batch forced types t = (.ok x, u)) :
    ∃ finished, Batched C t (requestsOf forced types) finished t u :=
  batch_batched (h.knows k) h.during
    (fun e he => .inl (by rw [h.rules.2]; exact (h.methods e he).2)) run

end Resumes

/-- Nothing is pending before a batch from the session, and the units of these types and its extension
units are apart from each other, from the ways to their directories and from the log file. -/
structure Clear (s : Session) (ids : List TypeId) (u : Session) : Prop where
  pending : s.workspace.pending = []
  apart : Target.Apart (s.targets u.registry ids u.extendedModules)
  off : LogOff s.workspace.log (s.targets u.registry ids u.extendedModules)

theorem Batched.wrote_of_clear {requests : List Request} {finished : List TypeId}
    (h : Batched C s requests finished s u) (clear : Clear s finished u) :
    Wrote C s finished s.workspace u := h.wrote clear.pending clear.apart clear.off

theorem Clear.perm {ids ids' : List TypeId} (h : Clear s ids u) (perm : ids.Perm ids') :
    Clear s ids' u := by
  have targets : (s.targets u.registry ids u.extendedModules).Perm
      (s.targets u.registry ids' u.extendedModules) := (perm.filterMap _).append_right _
  exact ⟨h.pending, h.apart.perm targets, LogOff.subset h.off targets.symm.subset⟩

/-- The second batch newly exports all that the first does. They save the same units of these types,
which settle among the files of both if nothing is in the way, and the same extension units of
modules of which both found the same methods. -/
structure Subsumed (C : Setting) (t u t' u' : Session) (ids ids' : List TypeId) : Prop where
  fresh : ∀ id ∈ ids', id ∉ t'.exported
  marked : ∀ id, id ∈ u'.exported ↔ id ∈ t'.exported ∨ id ∈ ids'
  subset : ids ⊆ ids'
  units : ∀ id ∈ ids, ∃ x, IsUnit C t u.registry id x ∧ IsUnit C t' u'.registry id x ∧
    (Clear t ids u → Save.Settled t.workspace.tree u.workspace.tree x) ∧
    (Clear t' ids' u' → Save.Settled t'.workspace.tree u'.workspace.tree x)
  modules : ∀ name ∈ u.extendedModules, name ∈ u'.extendedModules →
    u.extensionsOf name = u'.extensionsOf name →
    ∃ x, IsModuleUnit C t u.registry u.extensions name x ∧
      IsModuleUnit C t' u'.registry u'.extensions name x ∧
      (Clear t ids u → Save.Settled t.workspace.tree u.workspace.tree x) ∧
      (Clear t' ids' u' → Save.Settled t'.workspace.tree u'.workspace.tree x)

theorem Subsumed.perm {ids ids' more : List TypeId} (h : Subsumed C t u t' u' ids more)
    (perm : ids.Perm ids') : Subsumed C t u t' u' ids' more where
  fresh := h.fresh
  marked := h.marked
  subset id hid := h.subset (perm.mem_iff.2 hid)
  units id hid := by
    obtain ⟨x, unit, unit', settled, settled'⟩ := h.units id (perm.mem_iff.2 hid)
    exact ⟨x, unit, unit', fun clear => settled (clear.perm perm.symm), settled'⟩
  modules name hname hname' same := by
    obtain ⟨x, unit, unit', settled, settled'⟩ := h.modules name hname hname' same
    exact ⟨x, unit, unit', fun clear => settled (clear.perm perm.symm), settled'⟩

theorem IsModuleUnit.filtered {r : Registry} {methods : List ExtensionMethod} {name : Name} {x : Save}
    (h : IsModuleUnit C s r methods name x) : IsModuleUnit C s r
      (methods.filter fun e => (s.store.type e.library).home.name.alike name) name x := by
  obtain ⟨target, m, t, u, unit, found, during, made, text⟩ := h
  refine ⟨target, m, t, u, unit, found, during, ?_, text⟩
  rwa [List.filter_filter, funext fun e => Bool.and_self _]

/-- A batch for the same types over fewer marks exports and saves what one over more marks does. -/
theorem subsumed_of_resumes (exact : C.exact) (linked : Linked s) (k : Knows C s)
    (named : ∀ m, C.modules m → ∀ m', C.modules m' → m.name.alike m'.name → m = m')
    (world : ∀ m, s.findModule? worldModule = some m → m.name = worldModule)
    (h : Resumes C s t) (h' : Resumes C s t') (more : t'.exported ⊆ t.exported)
    {requests : List Request} {ids ids' : List TypeId} (first : Batched C t requests ids t u)
    (second : Batched C t' requests ids' t' u') : Subsumed C t u t' u' ids ids' := by
  have twins := h.twins exact linked k named world h'
  have rules := h.rules.symm.trans h'.rules
  have walk := first.walk exact
  have walk' := second.walk exact
  have subset : ids ⊆ ids' := by
    have fulfils : Fulfils t requests {id | id ∈ u'.exported} :=
      (walk'.of_rules rules.symm).fulfils
    have all := walk.finished_mem fulfils fun id hid other =>
      (walk'.of_rules rules.symm).closed id
        (((second.marked id).1 hid).resolve_left fun known => other (more known))
    exact fun id hid => ((second.marked id).1 (all id hid)).resolve_left
      fun known => first.fresh id hid (more known)
  have fileExtension := h'.fileExtension.trans h.fileExtension.symm
  have inside {id : TypeId} (hid : id ∈ ids) : id < t.store.size :=
    lt_size_of_shouldSkip (walk.stays id hid)
  refine ⟨second.fresh, second.marked, subset, fun id hid => ?_, fun name hname hname' same => ?_⟩
  · obtain ⟨x, unit⟩ := first.isUnit id hid
    obtain ⟨y, unit'⟩ := second.isUnit id (subset hid)
    have one {y z : Save} (hy : IsUnit C t u.registry id y) (hz : IsUnit C t' u'.registry id z) :
        y = z := twins.isUnit_same first.during second.during fileExtension (inside hid) hy hz
    obtain rfl := one unit unit'
    refine ⟨x, unit, unit', fun clear => ?_, fun clear => ?_⟩
    · obtain ⟨z, hz, settled⟩ := (first.wrote_of_clear clear).units id hid
      rwa [← one hz unit']
    · obtain ⟨z, hz, settled⟩ := (second.wrote_of_clear clear).units id (subset hid)
      rwa [one unit hz]
  · obtain ⟨x, unit⟩ := first.isModuleUnit name hname
    obtain ⟨y, unit'⟩ := second.isModuleUnit name hname'
    obtain ⟨e, he, rfl⟩ := List.mem_map.1 (Value.mem_of_mem_distinct hname)
    have methods : (u.extensions.filter fun m =>
          (t.store.type m.library).home.name.alike (u.store.type e.library).home.name) =
        u'.extensions.filter fun m =>
          (t'.store.type m.library).home.name.alike (u.store.type e.library).home.name := by
      rw [← first.during.rules.2, ← second.during.rules.2]
      exact same
    have one {y z : Save}
        (hy : IsModuleUnit C t u.registry u.extensions (u.store.type e.library).home.name y)
        (hz : IsModuleUnit C t' u'.registry u'.extensions (u.store.type e.library).home.name z) :
        y = z := by
      refine twins.isModuleUnit_eq first.during second.during fileExtension
        ((h.knows k).home e.library) (by rw [first.during.rules.2]) (fun m hm =>
          h.found_inside linked.store first.extensions m (List.mem_of_mem_filter hm)) ?_
        hy.filtered hz.filtered
      rw [← methods, ExtensionMethod.map_relocate_id]
    obtain rfl := one unit unit'
    refine ⟨x, unit, unit', fun clear => ?_, fun clear => ?_⟩
    · obtain ⟨z, hz, settled⟩ := (first.wrote_of_clear clear).modules _ hname
      rwa [← one hz unit']
    · obtain ⟨z, hz, settled⟩ := (second.wrote_of_clear clear).modules _ hname'
      rwa [one unit hz]

/-- Some operations led to the session from a fresh one, under its policy. The names of properties can
be looked up by, and modules are known by their names. -/
structure Reached (b : Session) (operations : List Operation) (s : Session) : Prop where
  begun : ∃ policy packaging fileExtension files, b = fresh policy packaging fileExtension files
  reached : s = after b operations
  keyed : Keyed s.store
  known : KnownByName b operations

namespace Reached
variable {b : Session} {operations : List Operation} (h : Reached b operations s)
include h

theorem linked : Linked s := by
  obtain ⟨policy, packaging, fileExtension, files, rfl⟩ := h.begun
  rw [h.reached]
  exact stepwise_linked.enduring.after (fun _ h => h) (linked_fresh policy packaging fileExtension files)

theorem grounded : Grounded (fun m => m.name.isText → HeldByGraph b operations m) s := by
  obtain ⟨policy, packaging, fileExtension, files, rfl⟩ := h.begun
  rw [h.reached]
  exact (grounded_after policy packaging fileExtension files operations).1

theorem truthful : TruthfulFor s s := by
  obtain ⟨policy, packaging, fileExtension, files, rfl⟩ := h.begun
  have truthful := truthful_after h.reached h.keyed
  exact ⟨truthful.coherent, truthful.methods⟩

theorem knows : Knows (heldModules b operations) s := by
  refine ⟨fun id => ?_, fun name m found => ?_⟩
  · by_cases inside : id < s.store.size
    · have text : (s.store.type id).home.name.isText := by
        rw [h.reached] at inside ⊢
        exact h.known.homes id inside
      exact .inr ⟨text, h.grounded.homes id text⟩
    · rw [TypeStore.type_of_size_le (Nat.le_of_not_lt inside)]
      exact .inl rfl
  · have text : m.name.isText := by
      rw [h.reached] at found
      exact h.known.declared name m found
    exact .inr ⟨text, h.grounded.declared name m found text⟩

theorem registry : ∀ m ∈ s.registry, ∃ home, (heldModules b operations).modules home ∧
    home.name = m.name ∧ s.packaging.directory home = .ok m.directory := by
  obtain ⟨policy, packaging, fileExtension, files, rfl⟩ := h.begun
  intro m hm
  obtain ⟨-, packaged⟩ := grounded_after policy packaging fileExtension files operations
  have presents := presents_after policy packaging fileExtension files [] operations
  have registered := h.known.registered
  rw [h.reached] at hm ⊢
  rw [List.nil_append] at presents
  obtain none | ⟨_, home, ⟨-, held⟩, entry⟩ :=
    presents.origin (fun _ _ h => h.1.packaging_eq) hm
  · cases none
  · obtain ⟨directory, -, name⟩ := Packaging.entry?_eq_some.1 entry
    have text : home.name.isText := name ▸ registered m hm
    refine ⟨home, .inr ⟨text, held text⟩, name.symm, ?_⟩
    rw [packaged]
    exact directory

theorem resumes (w : Workspace) :
    Resumes (heldModules b operations) s { s with workspace := w } :=
  resumes_of_lodges h.registry ⟨rfl, rfl, rfl, rfl, .refl _, h.grounded.methods, trivial⟩ h.truthful w

theorem resumes_generated {result : Except Fault Unit} (run : generate forced types s = (result, t))
    (w : Workspace) : Resumes (heldModules b operations) s { t with workspace := w } := by
  have lodges := ((sustained_lodges (shelving_anywhere s) h.knows.home h.knows.declared).generate
    forced types).outcome ⟨rfl, rfl, rfl, rfl, .refl _, h.grounded.methods, trivial⟩
  have right : Tame (TruthfulFor s) _ (generate forced types) :=
    (attentive_truthful h.keyed).generate False.elim False.elim
  rw [run] at lodges
  refine resumes_of_lodges h.registry lodges ?_ w
  cases result with
  | ok _ => exact (right.result h.truthful run).2
  | error _ => exact right.fault h.truthful run

/-- After a fault somewhere in a batch, a batch for the same types newly exports some of what one does
that begins where the failed one did, and saves the same units of these types. -/
theorem subsumed {result : Except Fault Unit} (run : generate forced types s = (result, t))
    (more : s.exported ⊆ t.exported) {w w' : Workspace} {x y : Unit}
    (retried : batch forced types { t with workspace := w } = (.ok x, u))
    (single : batch forced types { s with workspace := w' } = (.ok y, u')) :
    ∃ ids ids', Batched (heldModules b operations) { t with workspace := w }
        (requestsOf forced types) ids { t with workspace := w } u ∧
      Subsumed (heldModules b operations) { t with workspace := w } u { s with workspace := w' } u'
        ids ids' := by
  obtain ⟨ids, batched⟩ := (h.resumes_generated run w).batched h.knows retried
  obtain ⟨ids', batched'⟩ := (h.resumes w').batched h.knows single
  refine ⟨ids, ids', batched, subsumed_of_resumes trivial h.linked h.knows h.known.named
    (fun m hm => ?_) (h.resumes_generated run w) (h.resumes w') more batched batched'⟩
  obtain ⟨g, hg, found⟩ := Option.bind_eq_some_iff.1 hm
  exact (h.grounded.matched g hg).name found

end Reached

end ScriptGlue.Session
