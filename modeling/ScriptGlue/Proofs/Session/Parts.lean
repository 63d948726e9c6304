import ScriptGlue.Proofs.Session.Increments

/-! # Documents in two parts

A start on one document and a load of a second one export what a start on both at once exports, in
the same order, and leave the same files.
-/
namespace ScriptGlue.Session
open ScriptGlue.Action

variable {C : Setting} {g g₁ : Graph} {s s₁ t u v : Session} {requests : List Request}
  {finished : List TypeId} {policy : Policy} {packaging : Packaging} {fileExtension : Value}
  {workspace : Workspace} {data first second both : Value} {before after all : Graph.Extension}
  {x y : Unit} {added : List TypeId}

theorem requestsOf_append (forced types more : List (Option TypeId)) :
    requestsOf forced (types ++ more) = requestsOf forced types ++ requestsOf [] more := by
  simp [requestsOf]

theorem rooted_of_start (pending : workspace.pending = [])
    (hread : readGraph data (fresh policy packaging fileExtension workspace) = (.ok g, s))
    (hstart : start (some g) s = (.ok x, u)) : Rooted u := by
  obtain ⟨-, rooted⟩ := Trigger.run_ahead (rooted_fresh policy packaging fileExtension pending)
    (show (Trigger.read data).run _ = (.ok {}, s) from bind_of_ok hread _)
  obtain ⟨asked, run⟩ : ∃ asked, (Trigger.start (some g)).run s = (.ok asked, u) :=
    ⟨_, bind_of_ok hstart _⟩
  exact (Trigger.run_ahead rooted run).2

/-- The modules whose extension methods a batch found first are registered. -/
theorem Batched.nameable (h : Batched C s requests finished s u) (begun : s.extensions = []) :
    ∀ e ∈ u.extensions, Nameable C.modules u.registry (s.store.type e.library).home.name := by
  intro e he
  rw [h.extensions, begun, List.nil_append] at he
  obtain ⟨id, hid, he⟩ := List.mem_flatMap.1 he
  rw [library_of_mem_methodsOf he]
  obtain ⟨x, unit⟩ := h.isUnit id hid
  obtain ⟨m, found, -⟩ := Option.bind_eq_some_iff.1 unit.target
  exact .inl (Option.isSome_iff_exists.2 ⟨m, found⟩)

theorem load_batched (hs : Sound t) (h : moduleLoaded data t = (.ok added, v)) :
    ∃ read, Graph.extend t.store (t.graph.getD {}) data = .ok read ∧ added = read.added ∧
      v.store = read.store ∧ (Knows C (t.loaded read) →
        (∀ m ∈ t.registry, ∃ home, C.modules home ∧ home.name = m.name ∧
          t.packaging.directory home = .ok m.directory) →
        (∀ e ∈ t.extensions, Nameable C.modules t.registry (read.store.type e.library).home.name) →
        ∃ finished, Batched C (t.loaded read) (requestsOf [] (read.added.map some)) finished
          (t.loaded read) v) := by
  obtain ⟨read, hextend, rfl, hbatch⟩ := moduleLoaded_eq_ok h
  obtain ⟨sound, -⟩ := hs.read hs.graph_inside hextend
  have during := sound.during (t := t.loaded read) ⟨rfl, rfl⟩ rfl rfl rfl rfl
  obtain ⟨_, batched⟩ := batch_batched (knows_any _) during (fun _ _ => .inr trivial) hbatch
  exact ⟨read, hextend, rfl, batched.during.rules.2, fun knows registry nameable =>
    batch_batched knows (during.in_setting registry) nameable hbatch⟩

theorem Standalone.joined (alone : Standalone before) (parted : Graph.Parted before after all)
    (h : Graph.extend before.store before.graph second = .ok after) : Standalone after := by
  obtain ⟨-, linked, inside⟩ := Graph.extend_grows alone.linked alone.inside h
  refine ⟨linked, inside, Graph.filed_of_extend alone.filed h, Graph.matched_of_extend alone.matched h,
    fun id hid => ?_⟩
  by_cases early : id < before.store.size
  · obtain ⟨key, found⟩ := alone.homes id early
    obtain ⟨more, grows⟩ := parted.grows
    refine ⟨key, ?_⟩
    rw [← grows, show after.store.type id = before.store.type id from
      (parted.embeds.node id early).trans (TypeNode.relocate_id _)]
    exact ModuleTable.find?_append found
  · exact Graph.home_known_of_extend h (Graph.mem_added_of_extend h (Nat.le_of_not_lt early) hid)

/-- The session on the first part, before its batch, beside that on all. -/
theorem twins_of_parted (parted : Graph.Parted before after all) (alone₁ : Standalone before)
    (alone : Standalone all) (wellNamed : WellNamed all.store all.graph)
    (policy : s.policy = s₁.policy) (packaging : s.packaging = s₁.packaging)
    (store₁ : s₁.store = before.store) (store : s.store = all.store)
    (graph₁ : s₁.graph = some before.graph) (graph : s.graph = some all.graph) :
    Twins id (catalogue all.graph) s₁ s where
  policy := policy
  embeds := by
    rw [store₁, store, ← parted.store]
    exact parted.embeds
  exact := trivial
  packaging := packaging
  knows := by
    have known (key : Name) (m : NativeModule) (found : before.graph.modules.find? key = some m) :
        ∃ key, all.graph.modules.find? key = some m := by
      obtain ⟨more, grows⟩ := parted.grows
      refine parted.moved.declared key m ?_
      rw [← grows]
      exact ModuleTable.find?_append found
    refine knows_catalogue wellNamed alone.filed (fun id hid => ?_) fun name m hm => ?_
    · rw [store₁] at hid ⊢
      obtain ⟨key, found⟩ := alone₁.homes id hid
      exact known key _ found
    · rw [Session.findModule?, graph₁] at hm
      exact known name m hm
  knows' := by
    refine knows_catalogue wellNamed alone.filed (store ▸ alone.homes) fun name m hm => ⟨name, ?_⟩
    rwa [Session.findModule?, graph] at hm
  named := catalogue_named alone.matched

theorem roots_of_parted (parted : Graph.Parted before after all) (store₁ : s₁.store = before.store)
    (store : s.store = all.store)
    (roots : ∀ d ∈ after.added, (after.store.type d).name ≠ interfaceClass ∧
      (after.store.type d).name ≠ objectClass) :
    s.roots all.graph = s₁.roots before.graph := by
  have ofInterfaces : all.graph.find? all.store interfaceClass =
      before.graph.find? before.store interfaceClass :=
    parted.find?_first fun d hd => (roots d hd).1
  have ofObjects : all.graph.find? all.store objectClass =
      before.graph.find? before.store objectClass := parted.find?_first fun d hd => (roots d hd).2
  simp only [Session.roots, store, store₁, List.filterMap_cons, ofInterfaces, ofObjects,
    List.filterMap_nil]

/-- If the types of two documents have different names, no type of the first gives the name of one of
the second, and the second has neither of the roots and declares no module that the first knows, a
start on the first and a load of the second export what a start on both at once exports, and leave
the same files. -/
theorem start_in_parts (bare : '/' ∉ fileExtension.plain.toList) (pending : workspace.pending = [])
    (joined : Graph.Concatenated first second both)
    (hread₁ : readGraph first (fresh policy packaging fileExtension workspace) = (.ok g₁, s₁))
    (hstart₁ : start (some g₁) s₁ = (.ok x, t)) (hload : moduleLoaded second t = (.ok added, v))
    (hread : readGraph both (fresh policy packaging fileExtension workspace) = (.ok g, s))
    (hstart : start (some g) s = (.ok y, u)) (wellNamed : WellNamed s.store g)
    (foreign : ∀ name ∈ Graph.moduleNames second, g₁.modules.find? name = none)
    (free : ∀ id ∈ g₁.members, ∀ d ∈ added,
      (v.store.type d).name ∉ (s₁.store.type id).linkNames)
    (roots : ∀ d ∈ added, (v.store.type d).name ≠ interfaceClass ∧
      (v.store.type d).name ≠ objectClass)
    (ways : ∀ x ∈ u.outputs, ∀ y ∈ u.outputs, ∀ loc ∈ Path.way x.directory, loc ∉ y.places)
    (off : LogOff workspace.log u.outputs) :
    SameFiles (catalogue g) (s.started g) u v := by
  have rooted := rooted_of_start pending hread₁ hstart₁
  obtain ⟨-, batches₁⟩ := start_batched_fresh (C := catalogue g) hread₁ hstart₁
  obtain ⟨-, kept⟩ := start_batched_fresh (C := anyModule) hread₁ hstart₁
  obtain ⟨housed, batches⟩ := start_batched_fresh (C := catalogue g) hread hstart
  obtain ⟨ahead, -⟩ := Trigger.run_ahead rooted
    (show (Trigger.load second).run t = (.ok { gated := added.map some }, v) from bind_of_ok hload _)
  obtain ⟨read, hextend, rfl, store₂, batches₂⟩ := load_batched (C := catalogue g) rooted.sound hload
  obtain ⟨_, kept⟩ := kept (knows_any _)
  obtain ⟨before, hfirst, rfl, hs₁⟩ := readGraph_fresh hread₁
  obtain ⟨all, hall, rfl, hs⟩ := readGraph_fresh hread
  have store₁ : s₁.store = before.store := by rw [hs₁]
  have store : s.store = all.store := by rw [hs]
  have between : t.store = before.store := kept.during.rules.2.trans store₁
  have graph : t.graph = some before.graph := kept.during.graph
  rw [between, graph, Option.getD_some] at hextend
  rw [store₂, store₁] at free
  rw [store₂] at roots
  rw [store] at wellNamed
  have parted : Graph.Parted before read all :=
    Graph.extend_concatenated joined hfirst hextend hall foreign free wellNamed.store
  have alone₁ := standalone_of_ofDocument hfirst
  have alone := standalone_of_ofDocument hall
  have policy : s.policy = s₁.policy := by rw [hs, hs₁]
  have packaging : s.packaging = s₁.packaging := by rw [hs, hs₁]
  have fileExtension : s.fileExtension = s₁.fileExtension := by rw [hs, hs₁]
  have early : Twins id (catalogue all.graph) (s₁.started before.graph) (s.started all.graph) :=
    twins_of_parted parted alone₁ alone wellNamed policy packaging store₁ store rfl rfl
  have late : GraphTwins id (catalogue all.graph) (s.started all.graph) (t.loaded read) :=
    graphTwins_of_moved parted.moved alone (alone₁.joined parted hextend) wellNamed
      (kept.during.rules.1.trans policy.symm) (kept.during.packaging.trans packaging.symm) store rfl rfl rfl
  obtain ⟨finished₁, first⟩ := batches₁ early.knows
  obtain ⟨finished, whole⟩ := batches late.knows
  have registry : ∀ m ∈ t.registry, ∃ home, (catalogue all.graph).modules home ∧
      home.name = m.name ∧ t.packaging.directory home = .ok m.directory :=
    first.during.packaging ▸ first.during.registry trivial
  have nameable : ∀ e ∈ t.extensions,
      Nameable (catalogue all.graph).modules t.registry (read.store.type e.library).home.name := by
    intro e he
    rw [← store₂, ahead.grown.type_eq (rooted.sound.exported _ (rooted.libraries e he)),
      first.during.rules.2]
    exact first.nameable (by rw [hs₁]) e he
  obtain ⟨finished₂, second⟩ := batches₂ late.knows' registry nameable
  have requests : requestsOf (s.roots all.graph) (all.graph.members.map some) =
      requestsOf (s₁.roots before.graph) (before.graph.members.map some) ++
        requestsOf [] (read.added.map some) := by
    rw [roots_of_parted parted store₁ store roots, parted.members, List.map_append, requestsOf_append]
  rw [requests] at whole
  have increments : Increments all.graph (s₁.started before.graph) t (t.loaded read) v
      (s.started all.graph) u _ _ finished₁ finished₂ finished :=
    { early, late, wellNamed := store.symm ▸ wellNamed, first, second, whole, ahead
      exported := rfl
      extensions := rfl
      quiet := .record _ _
      fileExtension
      fileExtension' := kept.during.fileExtension.trans fileExtension.symm
      workspace := by rw [hs, hs₁]
      begun := by rw [hs₁]; exact ⟨rfl, rfl⟩
      begun' := by rw [hs]; exact ⟨rfl, rfl⟩ }
  have quiet := (Workspace.Quiet.record workspace ⟨.info, .session, "=== Generating C# glue:"⟩).rested
  subst hs
  exact increments.sameFiles bare ways (quiet.pending.trans pending) (quiet.log.symm ▸ off) housed

/-- The base of function libraries, a library with a function that is called on the world, and a
struct that no batch exports for itself. -/
def earlyTypes : List Value :=
  [.object [("kind", .text "class"), ("name", functionLibraryClass), ("module", .text "N")],
    libraryClass "A" "F", .object [("kind", .text "struct"), ("name", .text "S"), ("module", .text "M")]]

/-- The class of the world, and a struct that holds the earlier one. -/
def lateTypes : List Value :=
  [.object [("kind", .text "class"), ("name", Receiver.worldClass), ("module", .text "Q")],
    .object [("kind", .text "struct"), ("name", .text "T"), ("module", .text "N"),
      ("flags", .list [.text "blueprint_type"]),
      ("properties", .list [.object [("name", .text "P"), ("kind", .text "struct"),
        ("type", .text "S"), ("flags", .list [.text "blueprint_visible"])]])]]

abbrev listing (types : List Value) : Value := .object [("types", .list types)]

theorem libraries_append (types more : List Value) :
    Graph.Concatenated (libraries types) (listing more) (libraries (types ++ more)) :=
  ⟨_, _, _, _, [], types, more, rfl, rfl, rfl, rfl, rfl, rfl, rfl, rfl, rfl⟩

/-- Where the units of the exported types go, and the extension unit of the library. -/
abbrev partsUnits : List Target :=
  [{ directory := "out", filename := "S.generated.cs" },
    { directory := "p", filename := "T.generated.cs" },
    { directory := "p", filename := "A.generated.cs" },
    { directory := "p", filename := "BlueprintFunctionLibrary.generated.cs" },
    { directory := "p", filename := "NModule.cs" }]

theorem parts_load : (readGraph (libraries earlyTypes)).gives blockedSession fun g s =>
    (start (some g)).gives s fun _ t => (moduleLoaded (listing lateTypes)).gives t fun added v =>
      t.exported == [1, 0] && v.exported == [2, 4, 1, 0] &&
        decide (∀ id ∈ g.members, ∀ d ∈ added, (v.store.type d).name ∉ (s.store.type id).linkNames) &&
        decide (∀ d ∈ added, (v.store.type d).name ≠ interfaceClass ∧
          (v.store.type d).name ≠ objectClass) := by
  rw [start_eq_direct, moduleLoaded_eq_direct]
  decide +kernel

theorem parts_start : (readGraph (libraries (earlyTypes ++ lateTypes))).gives blockedSession
    fun g s => (start (some g)).gives s fun _ u =>
      decide s.store.Worded && decide (∀ entry ∈ g.modules, entry.2.name.Worded) &&
        decide (∀ i < s.store.size, ∀ j < s.store.size,
          (s.store.type i).name = (s.store.type j).name → i = j) &&
        u.outputs == partsUnits := by
  rw [start_eq_direct]
  decide +kernel

theorem partsUnits_ways : ∀ x ∈ partsUnits, ∀ y ∈ partsUnits, ∀ loc ∈ Path.way x.directory,
    Path.location? y.path ≠ some loc ∧ Path.location? y.staged ≠ some loc := by decide +kernel

/-- The start does not export the struct, and the load forces it for the struct that holds it. -/
theorem start_in_parts_of_world : ∃ g₁ s₁ t added v g s u,
    readGraph (libraries earlyTypes) blockedSession = (.ok g₁, s₁) ∧
      start (some g₁) s₁ = (.ok (), t) ∧ moduleLoaded (listing lateTypes) t = (.ok added, v) ∧
      readGraph (libraries (earlyTypes ++ lateTypes)) blockedSession = (.ok g, s) ∧
      start (some g) s = (.ok (), u) ∧ t.exported = [1, 0] ∧ v.exported = [2, 4, 1, 0] ∧
      SameFiles (catalogue g) (s.started g) u v := by
  obtain ⟨g₁, s₁, hread₁, started⟩ := exists_of_gives parts_load
  obtain ⟨_, t, hstart₁, loaded⟩ := exists_of_gives started
  obtain ⟨added, v, hload, said⟩ := exists_of_gives loaded
  obtain ⟨g, s, hread, started'⟩ := exists_of_gives parts_start
  obtain ⟨_, u, hstart, said'⟩ := exists_of_gives started'
  simp only [Bool.and_eq_true, decide_eq_true_eq, beq_iff_eq] at said said'
  obtain ⟨⟨⟨exported, exported'⟩, free⟩, roots⟩ := said
  obtain ⟨⟨⟨types, modules⟩, distinct⟩, outputs⟩ := said'
  refine ⟨g₁, s₁, t, added, v, g, s, u, hread₁, hstart₁, hload, hread, hstart, exported, exported',
    start_in_parts bare_blockedSession rfl (libraries_append earlyTypes lateTypes) hread₁ hstart₁
      hload hread hstart ⟨types, modules, distinct⟩ (fun _ hname => by cases hname) free roots ?_
      fun _ hfile => by cases hfile⟩
  rw [outputs]
  intro x hx y hy loc hloc
  obtain ⟨place, staged⟩ := partsUnits_ways x hx y hy loc hloc
  exact fun here => here.elim place staged

end ScriptGlue.Session
