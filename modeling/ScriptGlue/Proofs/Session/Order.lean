import ScriptGlue.Proofs.Session.Catalogue
import ScriptGlue.Proofs.Session.Stagers

/-! # The order of declarations

A start on a document that lists its types in another order exports types of the same names, and
leaves the same units; only the forwarders of an extension unit may stand in another order.
-/
namespace ScriptGlue

namespace Session
open ScriptGlue.Action

variable {f : TypeId → TypeId} {C : Setting} {g g' : Graph} {s s' u u' : Session}
  {requests requests' : List Request} {finished finished' : List TypeId} {name : Name}

/-- Walks through the same requests, in any order, finish the same types. -/
theorem Walk.mem_iff {after after' : List TypeId} (h : Walk s requests [] after finished)
    (h' : Walk s requests' [] after' finished') (same : ∀ r, r ∈ requests ↔ r ∈ requests')
    {id : TypeId} : id ∈ finished ↔ id ∈ finished' := by
  have first {requests requests' : List Request} {after after' finished finished' : List TypeId}
      (h : Walk s requests [] after finished) (h' : Walk s requests' [] after' finished')
      (fulfilled : ∀ r ∈ requests, r ∈ requests') (hid : id ∈ after) : id ∈ after' :=
    h.sound (S := {id | id ∈ after'}) (fun _ hid => absurd hid List.not_mem_nil)
      (fun r hr => h'.fulfils r (fulfilled r hr))
      (fun id hid => h'.closed id ((h'.mem_after.1 hid).resolve_left List.not_mem_nil)) id hid
  have known : id ∈ after ↔ id ∈ after' :=
    ⟨first h h' fun r => (same r).1, first h' h fun r => (same r).2⟩
  rw [h.mem_after, h'.mem_after] at known
  simpa using known

theorem Walk.finished_moved {after after' : List TypeId} (h : Mirrors f s s')
    (walk : Walk s requests [] after finished) (walk' : Walk s' requests' [] after' finished')
    (same : ∀ r, r ∈ requests.map (fun r => (r.1, f r.2)) ↔ r ∈ requests') (nodup : finished.Nodup)
    (nodup' : finished'.Nodup) : (finished.map f).Perm finished' := by
  have known : ∀ id ∈ finished, id < s.store.size := fun id hid =>
    (walk.lt_size fun _ hid => absurd hid List.not_mem_nil).2 id (walk.finished_subset hid)
  have moved := walk.mirror h fun _ hid => absurd hid List.not_mem_nil
  refine (List.perm_ext_iff_of_nodup ?_ nodup').2 fun id => moved.mem_iff walk' same
  exact nodup.map_on fun a ha b hb => h.embeds.injective a (known a ha) b (known b hb)

theorem requestsOf_moved (forced types : List TypeId) :
    requestsOf ((forced.map f).map some) ((types.map f).map some) =
      (requestsOf (forced.map some) (types.map some)).map fun r => (r.1, f r.2) := by
  simp [requestsOf, List.flatMap_map, List.map_flatMap]

theorem requestsOf_perm {forced types types' : List (Option TypeId)} (perm : types.Perm types') :
    (requestsOf forced types).Perm (requestsOf forced types') :=
  (perm.flatMap_right _).append_left _

theorem inside_of_mem_methodsOf (linked : s.store.Linked) {id : TypeId} (hid : id < s.store.size)
    {e : ExtensionMethod} (h : e ∈ s.methodsOf id) : e.Inside s.store := by
  obtain ⟨library, passed⟩ := of_mem_methodsOf h
  exact ⟨library ▸ hid, fun p hp => passedFunction_inside linked hid passed hp⟩

theorem methodsOf_moved (h : Mirrors f s s') (known : ∀ id ∈ finished, id < s.store.size)
    (moved : (finished.map f).Perm finished') :
    ((finished.flatMap s.methodsOf).map (ExtensionMethod.relocate f)).Perm
      (finished'.flatMap s'.methodsOf) := by
  have same : (finished.flatMap s.methodsOf).map (ExtensionMethod.relocate f) =
      (finished.map f).flatMap s'.methodsOf := by
    rw [List.map_flatMap, List.flatMap_map]
    exact List.flatMap_congr fun id hid => (h.methodsOf (known id hid)).symm
  rw [same]
  exact moved.flatMap_right _

theorem distinct_perm {names names' : List Name} (perm : names.Perm names')
    (texts : ∀ name ∈ names, name.isText) : (Value.distinct names).Perm (Value.distinct names') := by
  have sub {names names' : List Name} (texts : ∀ name ∈ names, name.isText) (subset : names ⊆ names') :
      Value.distinct names ⊆ Value.distinct names' := by
    intro name hname
    have hname := Value.mem_of_mem_distinct hname
    obtain ⟨word, rfl⟩ := Value.eq_text_of_isText (texts name hname)
    exact Value.text_mem_distinct (subset hname)
  have texts' : ∀ name ∈ names', name.isText := fun name hname => texts name (perm.mem_iff.2 hname)
  refine (List.perm_ext_iff_of_nodup (Value.nodup_distinct fun v hv => Value.isKey_of_isText (texts v hv))
    (Value.nodup_distinct fun v hv => Value.isKey_of_isText (texts' v hv))).2 fun name => ?_
  exact ⟨fun h => sub texts perm.subset h, fun h => sub texts' perm.symm.subset h⟩

/-- Two batches that began with the same files exported types of the same names, and left the same
units of them and extension units with the same forwarders. -/
structure SameUnits (C : Setting) (s s' u u' : Session) : Prop where
  exported : (u.exported.map fun id => (u.store.type id).name).Perm
    (u'.exported.map fun id => (u'.store.type id).name)
  units : ∀ id ∈ u.exported, ∀ id' ∈ u'.exported,
    (u'.store.type id').name = (u.store.type id).name → ∃ x,
      IsUnit C s u.registry id x ∧ IsUnit C s' u'.registry id' x ∧
      Save.Settled s.workspace.tree u.workspace.tree x ∧
      Save.Settled s.workspace.tree u'.workspace.tree x ∧
      ∀ loc, Path.location? x.path = some loc →
        u'.workspace.tree.fileAt loc = u.workspace.tree.fileAt loc
  extended : u.extendedModules.Perm u'.extendedModules
  modules : ∀ name ∈ u.extendedModules, ∃ x x',
    IsModuleUnit C s u.registry u.extensions name x ∧
      IsModuleUnit C s' u'.registry u'.extensions name x' ∧ x'.toTarget = x.toTarget ∧
      (∃ unit unit' : ExtensionUnit, x.text = unit.code.text ∧ x'.text = unit'.code.text ∧
        unit.Rearranged unit') ∧ x.Bare ∧
      Save.Settled s.workspace.tree u.workspace.tree x ∧
      Save.Settled s.workspace.tree u'.workspace.tree x'

/-- Batches of twin sessions, begun with the same files and nothing exported, that finished the same
types in any order. -/
structure TwinBatches (f : TypeId → TypeId) (g : Graph) (s s' u u' : Session)
    (requests requests' : List Request) (finished finished' : List TypeId) : Prop where
  twins : GraphTwins f (catalogue g) s s'
  wellNamed : WellNamed s.store g
  batched : Batched (catalogue g) s requests finished s u
  batched' : Batched (catalogue g) s' requests' finished' s' u'
  moved : (finished.map f).Perm finished'
  fileExtension : s'.fileExtension = s.fileExtension
  workspace : s'.workspace = s.workspace
  exported : s.exported = []
  exported' : s'.exported = []
  extensions : s.extensions = []
  extensions' : s'.extensions = []

namespace TwinBatches
variable (h : TwinBatches f g s s' u u' requests requests' finished finished')
include h

theorem mem_exported {id : TypeId} : id ∈ u.exported ↔ id ∈ finished := by
  simp [h.batched.marked, h.exported]

theorem mem_exported' {id : TypeId} : id ∈ u'.exported ↔ id ∈ finished' := by
  simp [h.batched'.marked, h.exported']

theorem known : ∀ id ∈ finished, id < s.store.size := fun id hid =>
  ((h.batched.walk trivial).lt_size (by simp [h.exported])).2 id (h.mem_exported.2 hid)

theorem inside : ∀ e ∈ u.extensions, e.Inside s.store := by
  intro e he
  rw [h.batched.extensions, h.extensions, List.nil_append] at he
  obtain ⟨id, hid, he⟩ := List.mem_flatMap.1 he
  exact inside_of_mem_methodsOf h.twins.embeds.linked (h.known id hid) he

theorem methods : (u.extensions.map (ExtensionMethod.relocate f)).Perm u'.extensions := by
  rw [h.batched.extensions, h.batched'.extensions, h.extensions, h.extensions']
  exact methodsOf_moved h.twins.toMirrors h.known h.moved

theorem extended : u.extendedModules.Perm u'.extendedModules := by
  have names : (u.extensions.map fun e => (u.store.type e.library).home.name).Perm
      (u'.extensions.map fun e => (u'.store.type e.library).home.name) := by
    refine List.Perm.trans (.of_eq ?_) (h.methods.map _)
    rw [List.map_map]
    refine List.map_congr_left fun e he => ?_
    rw [Function.comp_apply, ExtensionMethod.relocate_library, h.batched.during.rules.2,
      h.batched'.during.rules.2, h.twins.embeds.node _ (h.inside e he).library, TypeNode.relocate_home]
  refine distinct_perm names fun name hname => ?_
  obtain ⟨e, he, rfl⟩ := List.mem_map.1 hname
  rw [h.batched.during.rules.2]
  exact h.wellNamed.store.homes _ (h.inside e he).library

theorem isUnit {id : TypeId} (hid : id ∈ finished) : ∃ x, IsUnit (catalogue g) s u.registry id x ∧
    IsUnit (catalogue g) s' u'.registry (f id) x := by
  obtain ⟨x, unit⟩ := h.batched.isUnit id hid
  obtain ⟨x', unit'⟩ := h.batched'.isUnit (f id) (h.moved.subset (List.mem_map_of_mem hid))
  obtain rfl := h.twins.isUnit_same h.batched.during h.batched'.during h.fileExtension
    (h.known id hid) unit unit'
  exact ⟨x, unit, unit'⟩

/-- Both save the extension unit of a module at one place, with the same forwarders. -/
theorem isModuleUnit {x x' : Save} (hname : name ∈ u.extendedModules)
    (unit : IsModuleUnit (catalogue g) s u.registry u.extensions name x)
    (unit' : IsModuleUnit (catalogue g) s' u'.registry u'.extensions name x') :
    x'.toTarget = x.toTarget ∧ ∃ unit unit' : ExtensionUnit, x.text = unit.code.text ∧
      x'.text = unit'.code.text ∧ unit.Rearranged unit' := by
  obtain ⟨e, -, named⟩ := List.mem_map.1 (Value.mem_of_mem_distinct hname)
  rw [h.batched.during.rules.2] at named
  obtain ⟨target, unit, unit', text, text', rearranged, -⟩ := h.twins.isModuleUnit_same
    h.batched.during h.batched'.during h.fileExtension (h.twins.knows.home e.library) named h.inside
    h.methods unit unit'
  exact ⟨target.symm, unit, unit', text, text', rearranged⟩

theorem targets : (s.targets u.registry finished u.extendedModules).Perm
    (s'.targets u'.registry finished' u'.extendedModules) := by
  have types : finished.filterMap (s.typeTarget? u.registry) =
      (finished.map f).filterMap (s'.typeTarget? u'.registry) := by
    rw [List.filterMap_map]
    refine List.filterMap_congr fun id hid => ?_
    obtain ⟨x, unit, unit'⟩ := h.isUnit hid
    exact unit.target.trans unit'.target.symm
  have modules : u.extendedModules.filterMap (s.moduleTarget? u.registry) =
      u.extendedModules.filterMap (s'.moduleTarget? u'.registry) := by
    refine List.filterMap_congr fun name hname => ?_
    obtain ⟨x, unit⟩ := h.batched.isModuleUnit name hname
    obtain ⟨x', unit'⟩ := h.batched'.isModuleUnit name (h.extended.mem_iff.1 hname)
    obtain ⟨target, -⟩ := h.isModuleUnit hname unit unit'
    rw [unit.target, unit'.target, target]
  rw [Session.targets, types, modules]
  exact (h.moved.filterMap _).append (h.extended.filterMap _)

theorem words : u.extendedModules.Nodup ∧ ∀ name ∈ u.extendedModules, name.Worded :=
  extendedModules_of_worded (h.batched.during.rules.2 ▸ h.wellNamed.types) fun e he =>
    h.batched.during.rules.2 ▸ (h.inside e he).library

variable (bare : '/' ∉ s.fileExtension.plain.toList)
  (ways : ∀ x ∈ u.outputs, ∀ y ∈ u.outputs, ∀ loc ∈ Path.way x.directory, loc ∉ y.places)
include bare ways

theorem apart : Target.Apart (s.targets u.registry finished u.extendedModules) := by
  exact apart_of_wellNamed bare h.wellNamed h.batched.nodup h.known h.words.1 h.words.2
    (targets_subset_outputs h.batched.during fun id hid => h.mem_exported.2 hid) ways

theorem sameUnits (pending : s.workspace.pending = []) (off : LogOff s.workspace.log u.outputs)
    (housed : Housed u) : SameUnits (catalogue g) s s' u u' := by
  have apart := h.apart bare ways
  have off := off.subset
    (targets_subset_outputs h.batched.during fun id hid => h.mem_exported.2 hid)
  have wrote := h.batched.wrote pending apart off
  have wrote' := h.batched'.wrote (h.workspace ▸ pending) (apart.perm h.targets)
    (h.workspace ▸ off.subset h.targets.symm.subset)
  rw [h.workspace] at wrote'
  have nodup : u.exported.Nodup := (h.batched.walk trivial).nodup (by simp [h.exported])
  have nodup' : u'.exported.Nodup := (h.batched'.walk trivial).nodup (by simp [h.exported'])
  have name {id : TypeId} (hid : id ∈ finished) :
      (u'.store.type (f id)).name = (u.store.type id).name := by
    rw [h.batched.during.rules.2, h.batched'.during.rules.2, h.twins.embeds.name (h.known id hid)]
  refine ⟨?_, fun id hid id' hid' named => ?_, h.extended, fun name hname => ?_⟩
  · have exported : u.exported.Perm finished := (List.perm_ext_iff_of_nodup nodup h.batched.nodup).2
      fun id => h.mem_exported
    have exported' : u'.exported.Perm finished' :=
      (List.perm_ext_iff_of_nodup nodup' h.batched'.nodup).2 fun id => h.mem_exported'
    have names : (finished.map f).map (fun id => (u'.store.type id).name) =
        finished.map fun id => (u.store.type id).name := by
      rw [List.map_map]
      exact List.map_congr_left fun id hid => name hid
    exact (exported.map _).trans ((names ▸ h.moved.map _).trans (exported'.map _).symm)
  · have hid := h.mem_exported.1 hid
    obtain ⟨j, hj, rfl⟩ := List.mem_map.1 (h.moved.mem_iff.2 (h.mem_exported'.1 hid'))
    rw [name hj, h.batched.during.rules.2] at named
    obtain rfl := h.wellNamed.distinct j (h.known j hj) id (h.known id hid) named
    obtain ⟨x, unit, settled⟩ := wrote.units j hj
    obtain ⟨x', unit', settled'⟩ := wrote'.units (f j) (h.moved.subset (List.mem_map_of_mem hj))
    obtain rfl := h.twins.isUnit_same h.batched.during h.batched'.during h.fileExtension
      (h.known j hj) unit unit'
    have bare := bare_of_typeTarget? housed bare (h.wellNamed.types j (h.known j hj)).1 unit.target
    exact ⟨x, unit, unit', settled, settled', fun loc located =>
      settled'.same bare settled located⟩
  · obtain ⟨x, unit, settled⟩ := wrote.modules name hname
    obtain ⟨x', unit', settled'⟩ := wrote'.modules name (h.extended.mem_iff.1 hname)
    obtain ⟨target, texts⟩ := h.isModuleUnit hname unit unit'
    have bare := bare_of_moduleTarget? housed bare (h.words.2 name hname) unit.target
    exact ⟨x, x', unit, unit', target, texts, bare, settled, settled'⟩

end TwinBatches

theorem readGraph_fresh {policy : Policy} {packaging : Packaging} {fileExtension : Value}
    {workspace : Workspace} {data : Value}
    (h : readGraph data (fresh policy packaging fileExtension workspace) = (.ok g, s)) :
    ∃ ext, Graph.ofDocument #[] data = .ok ext ∧ g = ext.graph ∧
      s = { fresh policy packaging fileExtension workspace with store := ext.store } := by
  rw [readGraph_apply] at h
  split at h
  · next ext hext =>
    cases h
    exact ⟨ext, hext, rfl, rfl⟩
  · cases h

structure Standalone (ext : Graph.Extension) : Prop where
  linked : ext.store.Linked
  inside : ext.graph.Inside ext.store
  filed : ext.graph.modules.Filed
  matched : ext.graph.modules.Matched
  homes : ∀ id < ext.store.size, ∃ key, ext.graph.modules.find? key = some (ext.store.type id).home

theorem standalone_of_ofDocument {data : Value} {ext : Graph.Extension}
    (h : Graph.ofDocument #[] data = .ok ext) : Standalone ext := by
  obtain ⟨-, linked, inside⟩ := Graph.extend_grows (fun _ hid => absurd hid (Nat.not_lt_zero _))
    (fun _ hid => absurd hid List.not_mem_nil) h
  refine ⟨linked, inside, Graph.filed_of_extend (fun _ he => absurd he List.not_mem_nil) h,
    Graph.matched_of_extend (fun _ he => absurd he List.not_mem_nil) h, fun id hid =>
      Graph.home_known_of_extend h ?_⟩
  obtain ⟨nodes, -, members, size, -⟩ := Graph.ofDocument_eq_ok h
  obtain ⟨_, _, -, -, hgraph, -⟩ := Graph.extend_eq_ok h
  rw [hgraph] at members
  rw [show ext.added = List.range nodes.length from members]
  exact List.mem_range.2 (size ▸ hid)

theorem graphTwins_of_moved {ext ext' : Graph.Extension} (moved : Graph.Moved f ext ext')
    (alone : Standalone ext) (alone' : Standalone ext') (wellNamed : WellNamed ext.store ext.graph)
    (policy : s'.policy = s.policy) (packaging : s'.packaging = s.packaging)
    (store : s.store = ext.store) (store' : s'.store = ext'.store)
    (graph : s.graph = some ext.graph) (graph' : s'.graph = some ext'.graph) :
    GraphTwins f (catalogue ext.graph) s s' where
  policy := policy
  embeds := store ▸ store' ▸ moved.embeds
  exact := trivial
  packaging := packaging
  knows := by
    refine knows_catalogue wellNamed alone.filed (store ▸ alone.homes) fun name m hm => ⟨name, ?_⟩
    rwa [Session.findModule?, graph] at hm
  knows' := by
    refine knows_catalogue wellNamed alone.filed ?_ fun name m hm => moved.declared name m ?_
    · rw [store']
      intro id hid
      obtain ⟨key, found⟩ := alone'.homes id hid
      exact moved.declared key _ found
    · rwa [Session.findModule?, graph'] at hm
  named := catalogue_named alone.matched
  found name := by
    simpa [Session.findType?, store, store', graph, graph'] using moved.found name
  inside name id hid := by
    simp only [Session.findType?, graph, Option.bind_some, store] at hid ⊢
    exact alone.inside id (List.mem_reverse.1 (List.mem_of_find?_eq_some hid))
  world m hm := by
    rw [Session.findModule?, graph] at hm
    exact alone.matched.name hm
  world' m hm := by
    rw [Session.findModule?, graph'] at hm
    exact alone'.matched.name hm

theorem start_batched_fresh {policy : Policy} {packaging : Packaging} {fileExtension : Value}
    {workspace : Workspace} {data : Value} {x : Unit}
    (hread : readGraph data (fresh policy packaging fileExtension workspace) = (.ok g, s))
    (hstart : start (some g) s = (.ok x, u)) :
    Housed u ∧ (Knows C (s.started g) → ∃ finished, Batched C (s.started g)
      (requestsOf (s.roots g) (g.members.map some)) finished (s.started g) u) := by
  have sound : Sound s := (run_read (sound_fresh _ _ _ _)
    (show (Trigger.read data).run _ = (.ok {}, s) from bind_of_ok hread _)).1
  have ran : (Operation.scan data).run (fresh policy packaging fileExtension workspace) =
      (.ok x, u) := (bind_of_ok hread _).trans hstart
  have housed := housed_after policy packaging fileExtension workspace [.scan data]
  rw [after, List.foldl_cons, List.foldl_nil, ran] at housed
  have during := sound.during (t := s.started g) ⟨rfl, rfl⟩ rfl rfl rfl rfl
  obtain ⟨_, -, -, rfl⟩ := readGraph_fresh hread
  exact ⟨housed, fun knows => batch_batched knows
    (during.in_setting fun _ hm => absurd hm List.not_mem_nil)
    (fun _ he => absurd he List.not_mem_nil) (start_eq_ok hstart)⟩

/-- If the types of a document have different names, it does not matter in which order they are
listed: a start exports types of the same names and leaves the same units of them, and extension
units with the same forwarders. -/
theorem start_in_any_order {policy : Policy} {packaging : Packaging} {fileExtension : Value}
    {workspace : Workspace} {first second : Value} {x y : Unit}
    (bare : '/' ∉ fileExtension.plain.toList) (pending : workspace.pending = [])
    (reordered : Graph.Reordered first second)
    (hread : readGraph first (fresh policy packaging fileExtension workspace) = (.ok g, s))
    (hread' : readGraph second (fresh policy packaging fileExtension workspace) = (.ok g', s'))
    (wellNamed : WellNamed s.store g) (hstart : start (some g) s = (.ok x, u))
    (hstart' : start (some g') s' = (.ok y, u'))
    (ways : ∀ x ∈ u.outputs, ∀ y ∈ u.outputs, ∀ loc ∈ Path.way x.directory, loc ∉ y.places)
    (off : LogOff workspace.log u.outputs) :
    SameUnits (catalogue g) (s.started g) (s'.started g') u u' := by
  obtain ⟨housed, batches⟩ := start_batched_fresh (C := catalogue g) hread hstart
  obtain ⟨-, batches'⟩ := start_batched_fresh (C := catalogue g) hread' hstart'
  obtain ⟨ext, hext, rfl, hs⟩ := readGraph_fresh hread
  obtain ⟨ext', hext', rfl, hs'⟩ := readGraph_fresh hread'
  have store : s.store = ext.store := by rw [hs]
  have store' : s'.store = ext'.store := by rw [hs']
  obtain ⟨f, moved⟩ := Graph.ofDocument_reordered reordered hext hext' (store ▸ wellNamed.store)
  have twins : GraphTwins f (catalogue ext.graph) (s.started ext.graph) (s'.started ext'.graph) :=
    graphTwins_of_moved moved (standalone_of_ofDocument hext) (standalone_of_ofDocument hext')
      (store ▸ wellNamed) (by rw [hs, hs']) (by rw [hs, hs']) store store' rfl rfl
  have roots : s'.roots ext'.graph =
      (([interfaceClass, objectClass].filterMap (ext.graph.find? s.store)).map f).map some := by
    simp only [Session.roots, store, store', moved.found, ← List.map_filterMap]
  obtain ⟨finished, batched⟩ := batches twins.knows
  obtain ⟨finished', batched'⟩ := batches' twins.knows'
  subst hs hs'
  have finishes : (finished.map f).Perm finished' := by
    refine Walk.finished_moved twins.toMirrors (batched.walk trivial) (batched'.walk trivial)
      (fun r => ?_) batched.nodup batched'.nodup
    rw [roots, ← requestsOf_moved]
    exact (requestsOf_perm (moved.members.map some)).mem_iff
  have batches : TwinBatches f ext.graph _ _ u u' _ _ finished finished' :=
    ⟨twins, wellNamed, batched, batched', finishes, rfl, rfl, rfl, rfl, rfl, rfl⟩
  have quiet := (Workspace.Quiet.record workspace ⟨.info, .session, "=== Generating C# glue:"⟩).rested
  exact batches.sameUnits bare ways (quiet.pending.trans pending) (quiet.log.symm ▸ off) housed

def libraryClass (name function : String) : Value :=
  .object [("kind", .text "class"), ("name", .text name), ("super", functionLibraryClass),
    ("module", .text "N"), ("functions", .list [.object [("name", .text function),
      ("flags", .list [.text "static", .text "blueprint_callable"]),
      ("params", .list [.object [("name", .text "WorldContext"), ("kind", .text "bool")]])]])]

/-- The base of function libraries, two of them in one module, and an enum in another. -/
def libraryClasses : List Value :=
  [.object [("kind", .text "class"), ("name", functionLibraryClass), ("module", .text "N")],
    libraryClass "A" "F", .object [("kind", .text "enum"), ("name", .text "E"), ("module", .text "M")],
    libraryClass "B" "G"]

/-- Types in any order, where the libraries belong to the project. -/
abbrev libraries (types : List Value) : Value :=
  .object [("modules", .list [.object [("name", .text "N"), ("plugin_type", .text "project")]]),
    ("types", .list types)]

/-- A file lies where the directory of the project's units would be. -/
def blockedSession : Session :=
  fresh {} { scriptsDir := .text "out", generatedUserContent := .text "p", hostPluginType := .null }
    (.text ".cs") { tree := { entries := [(["p"], .file (.text ""))] } }

/-- Where the units of the types and the extension unit of the libraries go. -/
abbrev librariesUnits : List Target :=
  [{ directory := "p", filename := "B.generated.cs" },
    { directory := "out", filename := "E.generated.cs" },
    { directory := "p", filename := "A.generated.cs" },
    { directory := "p", filename := "BlueprintFunctionLibrary.generated.cs" },
    { directory := "p", filename := "NModule.cs" }]

theorem libraries_start : (readGraph (libraries libraryClasses)).gives blockedSession fun g s =>
    (start (some g)).gives s fun _ u =>
      decide s.store.Worded && decide (∀ entry ∈ g.modules, entry.2.name.Worded) &&
        decide (∀ i < s.store.size, ∀ j < s.store.size,
          (s.store.type i).name = (s.store.type j).name → i = j) &&
        u.outputs == librariesUnits && u.extensions.map (·.library) == [1, 3] := by
  rw [start_eq_direct]
  decide +kernel

theorem libraries_start_reversed :
    (readGraph (libraries libraryClasses.reverse)).gives blockedSession fun g s =>
      (start (some g)).gives s fun _ u => u.extensions.map (·.library) == [0, 2] := by
  rw [start_eq_direct]
  decide +kernel

theorem librariesUnits_ways : ∀ x ∈ librariesUnits, ∀ y ∈ librariesUnits,
    ∀ loc ∈ Path.way x.directory, Path.location? y.path ≠ some loc ∧
      Path.location? y.staged ≠ some loc := by decide +kernel

theorem libraries_reordered {types types' : List Value} (perm : types.Perm types') :
    Graph.Reordered (libraries types) (libraries types') :=
  ⟨_, _, types, types', rfl, rfl, rfl, rfl, rfl, perm⟩

theorem bare_blockedSession : '/' ∉ (Value.text ".cs").plain.toList := by decide

theorem start_in_any_order_of_libraries : ∃ g g' s s' u u',
    readGraph (libraries libraryClasses) blockedSession = (.ok g, s) ∧
      readGraph (libraries libraryClasses.reverse) blockedSession = (.ok g', s') ∧
      start (some g) s = (.ok (), u) ∧ start (some g') s' = (.ok (), u') ∧
      u.extensions.map (·.library) = [1, 3] ∧ u'.extensions.map (·.library) = [0, 2] ∧
      SameUnits (catalogue g) (s.started g) (s'.started g') u u' := by
  obtain ⟨g, s, hread, started⟩ := exists_of_gives libraries_start
  obtain ⟨_, u, hstart, said⟩ := exists_of_gives started
  obtain ⟨g', s', hread', started'⟩ := exists_of_gives libraries_start_reversed
  obtain ⟨_, u', hstart', said'⟩ := exists_of_gives started'
  simp only [Bool.and_eq_true, decide_eq_true_eq, beq_iff_eq] at said said'
  obtain ⟨⟨⟨⟨types, modules⟩, distinct⟩, outputs⟩, libraries⟩ := said
  refine ⟨g, g', s, s', u, u', hread, hread', hstart, hstart', libraries, said',
    start_in_any_order bare_blockedSession rfl (libraries_reordered (List.reverse_perm _).symm)
      hread hread' ⟨types, modules, distinct⟩ hstart hstart' ?_ fun _ hfile => by cases hfile⟩
  rw [outputs]
  intro x hx y hy loc hloc
  obtain ⟨place, staged⟩ := librariesUnits_ways x hx y hy loc hloc
  exact fun here => here.elim place staged

end Session

end ScriptGlue
