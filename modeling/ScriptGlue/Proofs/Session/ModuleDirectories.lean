import Mathlib.Data.List.Induction
import ScriptGlue.Proofs.Graph.Concatenation
import ScriptGlue.Proofs.Graph.Declarations
import ScriptGlue.Proofs.Session.Aftermath
import ScriptGlue.Proofs.Session.BalancedUnits
import ScriptGlue.Proofs.Session.Registration

/-! # Directories of modules

In the course of a session every module is registered as some graph of the session held it under its
name, with the directory that the packaging gives it, and stays so: the first that is presented with
a directory is the one. All units of the module go there.
-/
namespace ScriptGlue
open ScriptGlue.Action Registry

namespace Session

variable {H K : NativeModule → Prop} {b s t u : Session} {operation : Operation}
  {operations : List Operation}

/-- What the session knows of modules satisfies `H`, and the modules of the types whose extension
methods it has collected are registered. -/
structure Grounded (H : NativeModule → Prop) (s : Session) : Prop where
  homes : ∀ id, H (s.store.type id).home
  declared : ∀ name m, s.findModule? name = some m → H m
  filed : ∀ g ∈ s.graph, ModuleTable.Filed g.modules
  matched : ∀ g ∈ s.graph, ModuleTable.Matched g.modules
  methods : ∀ e ∈ s.extensions, Lodged s.registry (s.store.type e.library)

theorem Grounded.imp (h : Grounded H s) (weaker : ∀ m, H m → K m) : Grounded K s :=
  { h with
    homes := fun id => weaker _ (h.homes id)
    declared := fun name m found => weaker m (h.declared name m found) }

/-- Is in the graph under its name, if it is called by a text. -/
def HasModule (s : Session) (m : NativeModule) : Prop :=
  m.name.isText → s.findModule? m.name = some m

theorem hasModule_of_find? {g : Graph} (filed : ModuleTable.Filed g.modules) {name : Name}
    {m : NativeModule} (found : g.modules.find? name = some m) (graph : s.graph = some g) :
    s.HasModule m := by
  intro text
  obtain ⟨word, named⟩ := Value.eq_text_of_isText text
  rw [findModule?, graph, named]
  exact filed.find?_name found named

theorem Grounded.extended (h : Grounded H s) {known : Graph}
    (filed : ModuleTable.Filed known.modules) (matched : ModuleTable.Matched known.modules)
    {data : Value} {read : Graph.Extension}
    (hread : Graph.extend s.store known data = .ok read)
    (libraries : ∀ e ∈ s.extensions, e.library < s.store.size) :
    let b := { s with store := read.store, graph := some read.graph }
    Grounded (fun m => H m ∨ b.HasModule m) b := by
  intro b
  have old {id : TypeId} (hid : id < s.store.size) : read.store.type id = s.store.type id := by
    obtain ⟨_, nodes, -, -, -, hstore⟩ := Graph.extend_eq_ok hread
    rw [hstore, Graph.type_append_left hid]
  have filed := Graph.filed_of_extend filed hread
  refine ⟨fun id => ?_, fun name m found => ?_, ?_, ?_, fun e he => ?_⟩
  · show H (read.store.type id).home ∨ b.HasModule (read.store.type id).home
    by_cases hid : id < s.store.size
    · rw [old hid]
      exact .inl (h.homes id)
    · by_cases new : id < read.store.size
      · obtain ⟨key, found⟩ := Graph.home_known_of_extend hread
          (Graph.mem_added_of_extend hread (Nat.le_of_not_lt hid) new)
        exact .inr (hasModule_of_find? filed found rfl)
      · rw [TypeStore.type_of_size_le (Nat.le_of_not_lt new),
          ← TypeStore.type_of_size_le (Nat.le_of_not_lt hid)]
        exact .inl (h.homes id)
  · exact .inr (hasModule_of_find? filed found rfl)
  · rintro _ ⟨⟩
    exact filed
  · rintro _ ⟨⟩
    exact Graph.matched_of_extend matched hread
  · show Lodged s.registry (read.store.type e.library)
    rw [old (libraries e he)]
    exact h.methods e he

theorem Grounded.reads (h : Grounded H s) (libraries : ∀ e ∈ s.extensions, e.library < s.store.size)
    (read : ReadsGraph s b) : Grounded (fun m => H m ∨ b.HasModule m) b := by
  have empty : ModuleTable.Filed (Graph.modules {}) ∧ ModuleTable.Matched (Graph.modules {}) :=
    ⟨fun _ he => absurd he List.not_mem_nil, fun _ he => absurd he List.not_mem_nil⟩
  have current : ModuleTable.Filed (s.graph.getD {}).modules ∧
      ModuleTable.Matched (s.graph.getD {}).modules := by
    cases graph : s.graph with
    | none => exact empty
    | some g => exact ⟨h.filed g graph, h.matched g graph⟩
  cases read with
  | nothing => exact h.imp fun _ => .inl
  | failed =>
    refine ⟨fun id => .inl (h.homes id), fun name m found => ?_, ?_, ?_, h.methods⟩
    · exact .inr (hasModule_of_find? current.1 found rfl)
    · rintro _ ⟨⟩
      exact current.1
    · rintro _ ⟨⟩
      exact current.2
  | @extended known _ _ origin hread =>
    have tables : ModuleTable.Filed known.modules ∧ ModuleTable.Matched known.modules := by
      obtain rfl | rfl := origin
      · exact empty
      · exact current
    exact h.extended tables.1 tables.2 hread libraries

theorem ReadsGraph.same (read : ReadsGraph s b) :
    b.registry = s.registry ∧ b.packaging = s.packaging ∧ b.workspace = s.workspace := by
  cases read <;> exact ⟨rfl, rfl, rfl⟩

theorem Grounded.lodges (h : Grounded H s) {W : Registry → Workspace → Prop}
    (written : W s.registry s.workspace) : Lodges H s W s :=
  ⟨rfl, rfl, rfl, rfl, .refl _, h.methods, written⟩

/-- An operation presents only modules that were known, or that the graph holds which it leaves. -/
theorem Grounded.run (h : Grounded H s) (libraries : ∀ e ∈ s.extensions, e.library < s.store.size)
    (operation : Operation) :
    let t := (operation.run s).2
    Grounded (fun m => H m ∨ t.HasModule m) t ∧ t.packaging = s.packaging ∧
      Presents (HandsOver (fun m => H m ∨ t.HasModule m) t) s.registry t.registry := by
  intro t
  have ground := h.reads libraries (operation.reads s)
  obtain ⟨registry, packaging, -⟩ := (operation.reads s).same
  have left : Lodges _ (operation.base s) (fun _ _ => True) t :=
    leaves_self.1 (((sustained_lodges (shelving_anywhere _) ground.homes ground.declared).generating
      (fun _ _ h => { h with }) fun _ _ h => { h with }).run operation (ground.lodges trivial))
  have same : (operation.base s).HasModule = t.HasModule := by
    funext m
    rw [HasModule, HasModule, findModule?, findModule?, left.graph]
  rw [same] at ground left
  refine ⟨⟨fun id => ?_, fun name m found => ?_, ?_, ?_, fun e he => ?_⟩, ?_, ?_⟩
  · rw [left.store]
    exact ground.homes id
  · rw [findModule?, left.graph] at found
    exact ground.declared name m found
  · rw [left.graph]
    exact ground.filed
  · rw [left.graph]
    exact ground.matched
  · rw [left.store]
    exact left.methods e he
  · exact left.packaging.trans packaging
  · rw [← registry]
    refine left.presents.imp fun u m handed => ?_
    obtain ⟨hm, store, graph, packaging⟩ := handed
    exact ⟨hm, store.trans left.store.symm, graph.trans left.graph.symm,
      packaging.trans left.packaging.symm⟩

/-- After some of the operations, from the first on, the graph held the module under its name. -/
def HeldByGraph (s : Session) (operations : List Operation) (m : NativeModule) : Prop :=
  ∃ before, before <+: operations ∧ (after s before).findModule? m.name = some m

theorem HeldByGraph.grow {more : List Operation} {m : NativeModule} (h : HeldByGraph s operations m)
    (prefixed : operations <+: more) : HeldByGraph s more m := by
  obtain ⟨before, begun, found⟩ := h
  exact ⟨before, begun.trans prefixed, found⟩

/-- The session knows the types and the modules that are known after some of the operations. -/
def OfMoment (s : Session) (operations : List Operation) (u : Session) : Prop :=
  ∃ before, before <+: operations ∧ u.store = (after s before).store ∧
    u.graph = (after s before).graph ∧ u.packaging = (after s before).packaging

theorem OfMoment.grow {more : List Operation} (h : OfMoment s operations u)
    (prefixed : operations <+: more) : OfMoment s more u := by
  obtain ⟨before, begun, known⟩ := h
  exact ⟨before, begun.trans prefixed, known⟩

/-- What was known before an operation, or is in the graph after it, is held after it. -/
theorem heldByGraph_of_run {m : NativeModule} (operation : Operation)
    (h : (m.name.isText → HeldByGraph s operations m) ∨
      (operation.run (after s operations)).2.HasModule m) :
    m.name.isText → HeldByGraph s (operations ++ [operation]) m := fun text => by
  obtain known | has := h
  · exact (known text).grow (List.prefix_append _ _)
  · exact ⟨_, List.prefix_rfl, by rw [after_append]; exact has text⟩

section
variable (policy : Policy) (packaging : Packaging) (fileExtension : Value) (files : Workspace)
  (operations : List Operation)

theorem libraries_after :
    let s := after (fresh policy packaging fileExtension files) operations
    ∀ e ∈ s.extensions, e.library < s.store.size := by
  intro s e he
  have vetted : Linked s ∧ (True → Vetted s.store s) :=
    (stepwise_linked.enduring.and attended_vetted.enduring).after (fun _ h => h.1)
      ⟨linked_fresh policy packaging fileExtension files,
        fun _ => vetted_fresh policy packaging fileExtension files⟩
  exact TypeStore.lt_size_of_mem_functions ((vetted.2 trivial).methods e he).declared

theorem grounded_after :
    let s := fresh policy packaging fileExtension files
    Grounded (fun m => m.name.isText → HeldByGraph s operations m) (after s operations) ∧
      (after s operations).packaging = packaging := by
  intro s
  induction operations using List.reverseRecOn with
  | nil =>
    refine ⟨⟨fun id text => ?_, fun name m found => ?_, fun g hg => ?_, fun g hg => ?_,
      fun e he => ?_⟩, rfl⟩
    · rw [TypeStore.type_of_size_le (Nat.zero_le id)] at text
      cases text
    · cases found
    · cases hg
    · cases hg
    · cases he
  | append_singleton operations operation ih =>
    obtain ⟨ground, same, -⟩ := ih.1.run
      (libraries_after policy packaging fileExtension files operations) operation
    have held := ground.imp fun m => heldByGraph_of_run (m := m) operation
    rw [after_append]
    exact ⟨held, same.trans ih.2⟩

variable {policy packaging fileExtension files} in
theorem OfMoment.packaging_eq (h : OfMoment (fresh policy packaging fileExtension files) operations u) :
    u.packaging = packaging := by
  obtain ⟨before, -, -, -, same⟩ := h
  exact same.trans (grounded_after policy packaging fileExtension files before).2

/-- What an operation of a run presents is held by some graph of the run. -/
theorem presents_after (later : List Operation) :
    let s := fresh policy packaging fileExtension files
    Presents (fun u m => OfMoment s (operations ++ later) u ∧
        (m.name.isText → HeldByGraph s (operations ++ later) m))
      (after s operations).registry (after s (operations ++ later)).registry := by
  intro s
  induction later using List.reverseRecOn with
  | nil =>
    rw [List.append_nil]
    exact .refl _
  | append_singleton later operation ih =>
    obtain ⟨ground, -⟩ :=
      grounded_after policy packaging fileExtension files (operations ++ later)
    obtain ⟨-, -, presents⟩ := ground.run
      (libraries_after policy packaging fileExtension files (operations ++ later)) operation
    rw [← List.append_assoc]
    have longer : operations ++ later <+: operations ++ later ++ [operation] :=
      List.prefix_append _ _
    have here : after s (operations ++ later ++ [operation]) =
        (operation.run (after s (operations ++ later))).2 := after_append ..
    refine (ih.imp fun u m handed =>
      ⟨handed.1.grow longer, fun text => (handed.2 text).grow longer⟩).trans ?_
    rw [here]
    refine presents.imp fun u m handed => ?_
    obtain ⟨known, store, graph, packaging⟩ := handed
    refine ⟨⟨_, List.prefix_rfl, ?_⟩, heldByGraph_of_run operation known⟩
    rw [here]
    exact ⟨store, graph, packaging⟩

end

/-- The units that a run of the session saves go to the directories of their modules, up to its fault
if it has one. -/
def UnitsShelved (s : Session) : Except Fault Unit × Session → Prop
  | (.ok _, t) => t.Shelves t.registry s.workspace t.workspace
  | (.error _, t) => t.ShelvesUntil t.registry s.workspace t.workspace

theorem Shelves.of_same {r : Registry} {w v : Workspace} (h : s.Shelves r w v)
    (store : t.store = s.store) (fileExtension : t.fileExtension = s.fileExtension) :
    t.Shelves r w v := by
  obtain ⟨xs, saves, good⟩ := h
  exact ⟨xs, saves, fun x hx => (good x hx).of_same store fileExtension⟩

theorem ShelvesUntil.of_same {r : Registry} {w v : Workspace} (h : s.ShelvesUntil r w v)
    (store : t.store = s.store) (fileExtension : t.fileExtension = s.fileExtension) :
    t.ShelvesUntil r w v := by
  obtain ⟨u, shelves, broken⟩ := h
  refine ⟨u, shelves.of_same store fileExtension, broken.imp_right ?_⟩
  rintro ⟨x, e, shelved, ran⟩
  exact ⟨x, e, shelved.of_same store fileExtension, ran⟩

theorem Grounded.unitsShelved (h : Grounded H s) {a : Generation Unit}
    (keeps : Keeps (Lodges H s fun r => s.Shelves r s.workspace)
      (Lodges H s fun r => s.ShelvesUntil r s.workspace) a) :
    UnitsShelved s (a s) := by
  have start : Lodges H s (fun r => s.Shelves r s.workspace) s :=
    h.lodges ⟨[], .quiet (.refl _), fun _ hx => absurd hx List.not_mem_nil⟩
  rcases ran : a s with ⟨e | x, t⟩
  · have left := keeps.fault start ran
    exact left.written.of_same left.store left.fileExtension
  · have left := keeps.result start ran
    exact left.written.of_same left.store left.fileExtension

/-- Whatever makes units, it saves them to the directories of their modules. -/
theorem Grounded.makesUnits (h : Grounded H s)
    (libraries : ∀ e ∈ s.extensions, e.library < s.store.size) {a : Generation Unit}
    (makes : MakesUnits a) : UnitsShelved s (a s) := by
  have sustained {H : NativeModule → Prop} {s : Session} (h : Grounded H s) :=
    sustained_lodges (shelving_shelves s) h.homes h.declared
  cases makes with
  | generate forced types => exact h.unitsShelved ((sustained h).generate forced types)
  | visit force id => exact h.unitsShelved ((sustained h).visit force id)
  | exportAs form id => exact h.unitsShelved ((sustained h).exportAs form id)
  | saveModules => exact h.unitsShelved (sustained h).moduleUnits
  | load data =>
    have ground := h.reads libraries ((Operation.load data).reads s)
    have shelved (added : List TypeId) := ground.unitsShelved
      (((sustained ground).tell .info .session
        ("=== Module loaded: " ++ toString added.length ++ " new types")).bind fun _ =>
          (sustained ground).generate [] (added.map some))
    simp only [Operation.base] at shelved
    rcases hread : Graph.extend s.store (s.graph.getD {}) data with e | read
    · rw [loadUnits, bind_of_error (by rw [merge_apply, hread])]
      exact ⟨_, ⟨[], .quiet (.refl _), fun _ hx => absurd hx List.not_mem_nil⟩, .inl rfl⟩
    · rw [loadUnits, bind_of_ok (by rw [merge_apply, hread])]
      simp only [hread] at shelved
      exact shelved read.added

/-- A batch that gives a result has committed units, each in the directory of its module. -/
theorem Grounded.rounds (h : Grounded H s)
    (libraries : ∀ e ∈ s.extensions, e.library < s.store.size) {operation : Operation}
    (batches : operation.batches) (run : operation.run s = (.ok (), t)) :
    ∃ xs, Save.Round xs s.workspace t.workspace ∧ ∀ x ∈ xs, t.Shelved t.registry x.toTarget := by
  obtain ⟨v, forced, types, base, quiet, made⟩ := operation.run_batched batches run
  have ground : Grounded (fun m => H m ∨ (operation.base s).HasModule m) v := by
    rw [base]
    exact { h.reads libraries (operation.reads s) with }
  obtain ⟨u, n, w, generated, committed, w', later, rfl⟩ := batch_ok made
  have shelves := ground.unitsShelved
    ((sustained_lodges (shelving_shelves v) ground.homes ground.declared).generate forced types)
  rw [generated] at shelves
  obtain ⟨xs, saves, good⟩ := shelves
  have before : Save.Saves [] s.workspace v.workspace := .quiet quiet
  exact ⟨xs, ⟨_, n, w, before.append saves, committed, later⟩,
    fun x hx => (good x hx).of_same rfl rfl⟩

/-- One moment of a session and a later one. Modules are registered in between as graphs of the session
held them, and stay; what is registered does not matter for the namespaces; a registration that faults
leaves everything as it was; and units go to the directories of their modules. -/
structure Pinned (p : Packaging) (during : Session → Prop) (held : NativeModule → Prop)
    (s t : Session) : Prop where
  /-- In between modules were handed to `register` that were held under their names. Of those that
  have a directory the first under a new name is registered. -/
  presented : ∃ ms : List NativeModule,
    Registers (fun u m => during u ∧ (m.name.isText → held m)) ms s.registry t.registry ∧
    (∀ m ∈ ms, m.name.isText → held m) ∧
    t.registry = ms.foldl (Registry.present p) s.registry ∧
    ∀ word, t.registry.find? (.text word) =
      (s.registry.find? (.text word)).or (ms.findSome? (p.entryOf? word))
  stays : ∀ word e, s.registry.find? (.text word) = some e → t.registry.find? (.text word) = some e
  entries : ∀ e ∈ t.registry, ∀ word, e.name = .text word →
    t.registry.find? (.text word) = some e ∧ e.space = Naming.moduleNamespace word ∧
      e.directory.truthy ∧ ∃ m, m.name = .text word ∧ held m ∧ p.directory m = .ok e.directory
  spaces : ∀ word, s.registry.spaceOf (.text word) = Naming.moduleNamespace word ∧
    t.registry.spaceOf (.text word) = Naming.moduleNamespace word
  registers : ∀ m : NativeModule, m.name.isText →
    match register m t with
    | (.ok known, u) => u.registry = t.registry.present p m ∧ u.registry.find? m.name = some known
    | (.error _, u) => u = t
  units : ∀ a, MakesUnits a → UnitsShelved t (a t)
  rounds : ∀ (operation : Operation) u, operation.batches → operation.run t = (.ok (), u) →
    ∃ xs, Save.Round xs t.workspace u.workspace ∧ ∀ x ∈ xs, u.Shelved u.registry x.toTarget

theorem modules_pinned (policy : Policy) (packaging : Packaging) (fileExtension : Value)
    (files : Workspace) (earlier later : List Operation) :
    let s := fresh policy packaging fileExtension files
    Pinned packaging (OfMoment s (earlier ++ later)) (HeldByGraph s (earlier ++ later))
      (after s earlier) (after s (earlier ++ later)) := by
  intro s
  obtain ⟨ground, packaged⟩ :=
    grounded_after policy packaging fileExtension files (earlier ++ later)
  obtain ⟨ms, registers⟩ := presents_after policy packaging fileExtension files earlier later
  have libraries := libraries_after policy packaging fileExtension files (earlier ++ later)
  have registry := registers.eq_foldl fun _ _ h => h.1.packaging_eq
  have found (word : String) : (after s (earlier ++ later)).registry.find? (.text word) =
      ((after s earlier).registry.find? (.text word)).or
        (ms.findSome? (packaging.entryOf? word)) := by
    rw [registry, find?_foldl_present]
  have held {before : List Operation} {ms : List NativeModule} {r q : Registry}
      (registers : Registers (fun u m => OfMoment s before u ∧
        (m.name.isText → HeldByGraph s before m)) ms r q) :
      ∀ m ∈ ms, m.name.isText → HeldByGraph s before m := fun m hm => by
    obtain ⟨u, -, known⟩ := registers.all m hm
    exact known
  refine ⟨⟨ms, registers, held registers, registry, found⟩, fun word e known => ?_,
    fun e he word named => ?_, fun word => ⟨spaceOf_text _ word, spaceOf_text _ word⟩,
    fun m text => ?_, fun a makes => ground.makesUnits libraries makes,
    fun _ u batches run => ground.rounds libraries batches run⟩
  · rw [found, known]
    rfl
  · obtain ⟨all, registers⟩ :=
      presents_after policy packaging fileExtension files [] (earlier ++ later)
    have held := held registers
    have registry := registers.eq_foldl fun _ _ h => h.1.packaging_eq
    rw [List.nil_append] at held registry
    have empty : Registry.Indexed [] := fun _ he => absurd he List.not_mem_nil
    have indexed := indexed_foldl_present (p := packaging) empty all
    rw [registry] at he ⊢
    have known := indexed e he word named
    have first := known
    rw [find?_foldl_present] at first
    obtain ⟨m, hm, entry⟩ := List.exists_of_findSome?_eq_some first
    unfold Packaging.entryOf? at entry
    split at entry
    · next name =>
      obtain ⟨directory, truthy, -⟩ := Packaging.entry?_eq_some.1 entry
      refine ⟨known, ?_, truthy, m, name, held m hm (by rw [name]; rfl), directory⟩
      rw [OutputModule.space, OutputModule.label, named, Value.plain]
    · cases entry
  · obtain ⟨word, named⟩ := Value.eq_text_of_isText text
    have presents := register_presents (m := m) (by rw [named]; rfl) (after s (earlier ++ later))
    rw [packaged] at presents
    split
    · next ran =>
      rw [ran] at presents
      exact presents
    · next ran =>
      rw [ran] at presents
      exact presents.1

def pluginDocument (pluginType : String) : Value :=
  .object [
    ("modules", .list [.object [("name", .text "M"), ("plugin_type", .text pluginType)]]),
    ("types", .list [.object [("kind", .text "class"), ("name", .text "C"), ("module", .text "M")]])]

def pluginModule (pluginType : String) : NativeModule :=
  { name := .text "M", pluginType := .text pluginType }

def pluginEntry (directory : String) : OutputModule :=
  { name := .text "M", directory := .text directory }

abbrev pluginPackaging (scriptsDir : String) : Packaging :=
  { scriptsDir := .text scriptsDir, projectDir := .text "P", hostPluginType := .null }

abbrev pluginSession (scriptsDir : String) : Session :=
  fresh {} (pluginPackaging scriptsDir) (.text ".cs") {}

abbrev pluginScan : Operation := .scan (pluginDocument "engine")

theorem pluginSession_runs :
    (readGraph (pluginDocument "engine")).gives (pluginSession "out") fun g s =>
      (generate (s.roots g) (g.members.map some) (s.started g)).2.registry ==
        [pluginEntry "out"] := by decide +kernel

theorem pluginSession_scanned :
    (after (pluginSession "out") [pluginScan]).registry = [pluginEntry "out"] := by
  obtain ⟨g, s, read, runs⟩ := exists_of_gives pluginSession_runs
  obtain ⟨w, left⟩ := after_scan read
  rw [left]
  exact beq_iff_eq.1 runs

/-- A module of the engine stays in its directory when a load declares it to be of the project. -/
theorem modules_pinned_of_redeclared :
    let load := Operation.load (pluginDocument "project")
    (pluginPackaging "out").directory (pluginModule "project") =
        .ok (.text "P/Script/obj/Generated") ∧
      (after (pluginSession "out") ([pluginScan] ++ [load])).registry.find? (.text "M") =
        some (pluginEntry "out") ∧
      ∃ m, m.name = .text "M" ∧ m ≠ pluginModule "project" ∧
        HeldByGraph (pluginSession "out") ([pluginScan] ++ [load]) m := by
  intro load
  have elsewhere : (pluginPackaging "out").directory (pluginModule "project") =
      .ok (.text "P/Script/obj/Generated") := by decide +kernel
  have pinned : Pinned (pluginPackaging "out")
      (OfMoment (pluginSession "out") ([pluginScan] ++ [load]))
      (HeldByGraph (pluginSession "out") ([pluginScan] ++ [load]))
      (after (pluginSession "out") [pluginScan])
      (after (pluginSession "out") ([pluginScan] ++ [load])) :=
    modules_pinned {} (pluginPackaging "out") (.text ".cs") {} [pluginScan] [load]
  have found := pinned.stays "M" (pluginEntry "out") (by rw [pluginSession_scanned]; decide +kernel)
  obtain ⟨-, -, -, m, name, held, directory⟩ :=
    pinned.entries (pluginEntry "out") (List.mem_of_find?_eq_some found) "M" rfl
  refine ⟨elsewhere, found, m, name, ?_, held⟩
  rintro rfl
  exact absurd (elsewhere.symm.trans directory) (by decide +kernel)

theorem pluginSession_refuses :
    let s := after (pluginSession "") [pluginScan]
    ((pluginScan.run (pluginSession "")).1 = .error (.noDirectory (.text "M")) ∧
      s.findModule? (.text "M") = some (pluginModule "engine") ∧
      (pluginPackaging "").directory (pluginModule "engine") = .ok (.text "") ∧ s.registry = []) ∧
      (match Graph.extend s.store (s.graph.getD {}) (pluginDocument "project") with
        | .ok read => (generate [] (read.added.map some) (s.loaded read)).2.registry ==
            [pluginEntry "P/Script/obj/Generated"]
        | _ => false) = true := by
  decide +kernel

/-- A module that has no directory when it is first presented, so that the scan faults over it, is
registered when a load declares it to be of the project. -/
theorem presented_without_directory :
    let s := after (pluginSession "") [pluginScan]
    (pluginScan.run (pluginSession "")).1 = .error (.noDirectory (.text "M")) ∧
      s.findModule? (.text "M") = some (pluginModule "engine") ∧
      (pluginPackaging "").directory (pluginModule "engine") = .ok (.text "") ∧ s.registry = [] ∧
      (after s [.load (pluginDocument "project")]).registry =
        [pluginEntry "P/Script/obj/Generated"] := by
  obtain ⟨⟨faulted, declared, nowhere, none⟩, runs⟩ := pluginSession_refuses
  refine ⟨faulted, declared, nowhere, none, ?_⟩
  split at runs
  · next read hread =>
    obtain ⟨w, left⟩ := after_load hread
    rw [left]
    exact beq_iff_eq.1 runs
  · cases runs

end Session

end ScriptGlue
