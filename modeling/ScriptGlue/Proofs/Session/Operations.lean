import ScriptGlue.Proofs.Graph.Growth
import ScriptGlue.Proofs.Session.Faults
import ScriptGlue.Proofs.Session.Progress

/-! # Operations of a session

Everything that may be asked of a session: scans, loads and batches, single visits and exports, the
questions about members and layouts, and what is done to the files. An operation may fault, and the
session goes on from what it left. An invariant that generations and questions keep, and that looks
at neither the files nor the graph, outlives every operation, whatever its outcome; so does one that
each step of a generation keeps.
-/
namespace ScriptGlue.Session
open ScriptGlue.Action

variable {s t u : Session}

/-- What may be asked of a session; graphs come from documents. -/
inductive Operation where
  /-- A graph is read and all its types are generated. -/
  | scan (data : Value)
  /-- The types of the current graph are generated again. -/
  | rescan
  | load (data : Value)
  /-- A graph becomes the current one. -/
  | adopt (data : Value)
  | batch (forced types : List (Option TypeId))
  | visit (force : Bool) (id : TypeId)
  | exportAs (form : ExportForm) (id : TypeId)
  | saveModules
  | commit
  | discard
  | properties (id : TypeId)
  | functions (id : TypeId)
  /-- A type is asked for its layout; it is one that there is. -/
  | layout (ref : Option TypeId)
  /-- Something else writes files. -/
  | outside (files : Workspace)

/-- Reads a graph and generates the units of all its types. -/
def scan (data : Value) : Generation Unit := do start (some (← readGraph data))

def Operation.run : Operation → Generation Unit
  | .scan data => Session.scan data
  | .rescan => do start (← get).graph
  | .load data => do let _ ← moduleLoaded data
  | .adopt data => do Session.adopt (← readGraph data)
  | .batch forced types => Session.batch forced types
  | .visit force id => Session.visit force id
  | .exportAs form id => Session.exportAs form id
  | .saveModules => saveModuleUnits
  | .commit => do let _ ← onWorkspace Workspace.commit
  | .discard => onWorkspace Workspace.discard
  | .properties id => do let _ ← exportedProperties id
  | .functions id => do let _ ← exportedFunctions (← typeAt id)
  | .layout ref => do
    if ∀ id ∈ ref, id < (← get).store.size then let _ ← isStructBlittable ref
  | .outside files => modify fun s => { s with workspace := files }

def Operation.base : Operation → Session → Session
  | .scan data, s | .adopt data, s =>
    match Graph.ofDocument s.store data with
    | .ok read => { s with store := read.store, graph := some read.graph }
    | .error _ => s
  | .load data, s =>
    match Graph.extend s.store (s.graph.getD {}) data with
    | .ok read => { s with store := read.store, graph := some read.graph }
    | .error _ => { s with graph := some (s.graph.getD {}) }
  | _, s => s

/-- The session after some operations, those that fault included. -/
def after (s : Session) (operations : List Operation) : Session :=
  operations.foldl (fun s operation => (operation.run s).2) s

theorem after_append (s : Session) (earlier later : List Operation) :
    after s (earlier ++ later) = after (after s earlier) later := List.foldl_append

theorem readGraph_apply (data : Value) (s : Session) :
    readGraph data s = match Graph.ofDocument s.store data with
      | .ok read => (.ok read.graph, { s with store := read.store })
      | .error e => (.error e, s) := by
  show (Action.ofExcept (Graph.ofDocument s.store data) >>= fun read =>
    modify (fun s => { s with store := read.store }) >>= fun _ => Pure.pure read.graph) s = _
  cases Graph.ofDocument s.store data <;> rfl

theorem merge_apply (data : Value) (s : Session) :
    merge data s = match Graph.extend s.store (s.graph.getD {}) data with
      | .ok read => (.ok read.added, { s with store := read.store, graph := some read.graph })
      | .error e => (.error e, { s with graph := some (s.graph.getD {}) }) := by
  show (Action.ofExcept (Graph.extend s.store (s.graph.getD {}) data) >>= fun read =>
    modify (fun s => { s with store := read.store, graph := some read.graph }) >>= fun _ =>
      Pure.pure read.added) { s with graph := some (s.graph.getD {}) } = _
  cases Graph.extend s.store (s.graph.getD {}) data <;> rfl

/-- A session reads a graph: one of its own, or its current one with what a document adds. A load
that fails to read leaves at least an empty graph. -/
inductive ReadsGraph (s : Session) : Session → Prop
  | nothing : ReadsGraph s s
  | failed : ReadsGraph s { s with graph := some (s.graph.getD {}) }
  | extended {known : Graph} {data : Value} {read : Graph.Extension}
      (origin : known = {} ∨ known = s.graph.getD {})
      (h : Graph.extend s.store known data = .ok read) :
      ReadsGraph s { s with store := read.store, graph := some read.graph }

theorem Operation.reads (operation : Operation) (s : Session) : ReadsGraph s (operation.base s) := by
  have ofDocument (data : Value) : ReadsGraph s ((Operation.adopt data).base s) := by
    simp only [Operation.base]
    rcases hread : Graph.ofDocument s.store data with e | read
    · exact .nothing
    · exact .extended (.inl rfl) hread
  cases operation with
  | scan data => exact ofDocument data
  | adopt data => exact ofDocument data
  | load data =>
    simp only [Operation.base]
    rcases hread : Graph.extend s.store (s.graph.getD {}) data with e | read
    · exact .failed
    · exact .extended (.inr rfl) hread
  | _ => exact .nothing

/-- Neither a type nor the graph refers to anything outside the store. -/
structure Linked (s : Session) : Prop where
  store : s.store.Linked
  graph : ∀ g ∈ s.graph, g.Inside s.store

theorem Linked.of_same (h : Linked s) (store : t.store = s.store) (graph : t.graph = s.graph) :
    Linked t where
  store := store ▸ h.store
  graph := by
    rw [store, graph]
    exact h.graph

theorem linked_fresh (policy : Policy) (packaging : Packaging) (fileExtension : Value)
    (files : Workspace) :
    Linked { policy, packaging, fileExtension, workspace := files } where
  store := fun _ hid => absurd hid (Nat.not_lt_zero _)
  graph := fun _ hg => by cases hg

theorem Linked.origin (h : Linked s) {known : Graph} (origin : known = {} ∨ known = s.graph.getD {}) :
    known.Inside s.store := by
  obtain rfl | rfl := origin
  · exact fun _ hid => absurd hid List.not_mem_nil
  · cases graph : s.graph with
    | none => exact fun _ hid => absurd hid List.not_mem_nil
    | some g => exact h.graph g graph

theorem ReadsGraph.mirrors (read : ReadsGraph s t) (linked : Linked s) : Mirrors id s t := by
  have same : Embeds id s.store s.store :=
    { linked := linked.store
      inside := fun _ hid => hid
      node := fun _ _ => (TypeNode.relocate_id _).symm
      injective := fun _ _ _ _ same => same }
  cases read with
  | nothing => exact ⟨rfl, same⟩
  | failed => exact ⟨rfl, same⟩
  | extended origin hread => exact ⟨rfl, (Graph.extend_grows linked.store (linked.origin origin) hread).1⟩

theorem Linked.read (h : Linked s) {known : Graph} {data : Value} {read : Graph.Extension}
    (inside : known.Inside s.store) (hread : Graph.extend s.store known data = .ok read) :
    Linked { s with store := read.store } ∧ read.graph.Inside read.store := by
  obtain ⟨embeds, linked, added⟩ := Graph.extend_grows h.store inside hread
  exact ⟨⟨linked, fun g hg id hid => embeds.inside id (h.graph g hg id hid)⟩, added⟩

/-- The modules of a graph, if there is one, have names that can be looked up by. -/
def KeysModules (g : Option Graph) : Prop := ∀ g' ∈ g, Graph.ModulesKeyed g'.modules

theorem keysModules_read {known : Graph} {data : Value} {read : Graph.Extension}
    (keyed : Graph.ModulesKeyed known.modules)
    (h : Graph.extend s.store known data = .ok read) : KeysModules (some read.graph) := by
  rintro _ ⟨⟩
  exact Graph.extend_modulesKeyed keyed h

theorem keysModules_getD {g : Option Graph} (h : KeysModules g) :
    Graph.ModulesKeyed (g.getD {}).modules := by
  cases g with
  | none => exact fun _ he => absurd he List.not_mem_nil
  | some g => exact h g rfl

/-- An invariant that generations and questions keep, whatever the files; a fault may leave less. -/
structure Generating (I J : Session → Prop) : Prop where
  faulted : ∀ s, I s → J s
  generate : ∀ forced types, Keeps I J (generate forced types)
  visit : ∀ force id, Keeps I J (visit force id)
  exportAs : ∀ form id, Keeps I J (exportAs form id)
  saveModules : Keeps I J saveModuleUnits
  properties : ∀ id, Keeps I J (exportedProperties id)
  functions : ∀ id, Keeps I J (typeAt id >>= exportedFunctions)
  layout : ∀ s ref, (∀ id ∈ ref, id < s.store.size) → I s → Leaves I J (isStructBlittable ref s)
  files : ∀ s w, I s → I { s with workspace := w }
  abandoned : ∀ s w, J s → J { s with workspace := w }

/-- An invariant that the reading of graphs keeps too, and every fault leaves. -/
structure Enduring (I : Session → Prop) : Prop extends Generating I I where
  adopted : ∀ s g, (∀ g' ∈ g, g'.Inside s.store) → (KeysModules s.graph → KeysModules g) → I s →
    I { s with graph := g }
  read : ∀ s known data read, Linked s → known.Inside s.store →
    Graph.extend s.store known data = .ok read → I s → I { s with store := read.store }

theorem Sustained.generating {H : NativeModule → Prop} {E : TypeId → Session → Prop}
    {I J : Session → Prop} (h : Sustained H E I J) (files : ∀ s w, I s → I { s with workspace := w })
    (abandoned : ∀ s w, J s → J { s with workspace := w }) : Generating I J where
  faulted := h.faulted
  generate := h.generate
  visit := h.visit
  exportAs := h.exportAs
  saveModules := h.moduleUnits
  properties := h.exportedProperties
  functions id := (Lasting.typeAt id).bind fun t => h.exportedFunctions t
  layout _ ref _ hs := (h.measured ref).leaves hs
  files := files
  abandoned := abandoned

structure Stepwise (I : Session → Prop) : Prop extends Gated I I where
  registered : ∀ s m directory, s.packaging.directory m = .ok directory → directory.truthy → I s →
    I { s with registry := s.registry ++ [{ name := m.name, directory }] }
  measured : ∀ ref, Keeps I I (isStructBlittable ref)
  marked : ∀ s id, I s → I { s with exported := id :: s.exported }
  passedOver : ∀ s v, I s → I { s with skipped := v :: s.skipped }
  extended : ∀ s e, I s → I { s with extensions := s.extensions ++ [e] }
  files : ∀ s w, I s → I { s with workspace := w }
  adopted : ∀ s g, (∀ g' ∈ g, g'.Inside s.store) → I s → I { s with graph := g }
  read : ∀ s known data read, Linked s → known.Inside s.store →
    Graph.extend s.store known data = .ok read → I s → I { s with store := read.store }

namespace Stepwise
variable {I : Session → Prop} (h : Stepwise I)
include h

theorem lasting : Lasting I I where
  toAsking := h.toGated.asking
  recorded s r hs := h.files s (s.workspace.record r) hs
  registered s m directory _ _ _ := h.registered s m directory
  measured := h.measured
  home _ _ _ := trivial
  declared _ _ _ _ _ := trivial
  marked := h.marked
  passedOver := h.passedOver
  extended := h.extended
  saved := keeps_saveUnit h.faulted h.files

theorem enduring : Enduring I where
  toGenerating := h.lasting.sustained.generating h.files h.files
  adopted s g inside _ := h.adopted s g inside
  read := h.read

end Stepwise

theorem stepwise_linked : Stepwise Linked where
  faulted _ h := h
  refused _ _ h := h.of_same rfl rfl
  accepted _ _ _ _ h := h.of_same rfl rfl
  registered _ _ _ _ _ h := h.of_same rfl rfl
  measured ref := Gated.isStructBlittable ⟨fun _ h => h, fun _ _ h => h.of_same rfl rfl,
    fun _ _ _ _ h => h.of_same rfl rfl⟩ (fun _ _ h => h.of_same rfl rfl) ref
  marked _ _ h := h.of_same rfl rfl
  passedOver _ _ h := h.of_same rfl rfl
  extended _ _ h := h.of_same rfl rfl
  files _ _ h := h.of_same rfl rfl
  adopted _ _ inside h := ⟨h.store, inside⟩
  read _ _ _ _ _ inside hread h := (h.read inside hread).1

namespace Generating
variable {I J K L : Session → Prop} (h : Generating I J)
include h

theorem and (g : Generating K L) :
    Generating (fun s => I s ∧ K s) fun s => J s ∧ L s := by
  have both {α : Type} {a : Generation α} (ha : Keeps I J a) (hb : Keeps K L a) :
      Keeps (fun s => I s ∧ K s) (fun s => J s ∧ L s) a :=
    .of_leaves fun _ hs => (ha.leaves hs.1).and (hb.leaves hs.2)
  exact {
    faulted := fun s hs => ⟨h.faulted s hs.1, g.faulted s hs.2⟩
    generate := fun forced types => both (h.generate forced types) (g.generate forced types)
    visit := fun force id => both (h.visit force id) (g.visit force id)
    exportAs := fun form id => both (h.exportAs form id) (g.exportAs form id)
    saveModules := both h.saveModules g.saveModules
    properties := fun id => both (h.properties id) (g.properties id)
    functions := fun id => both (h.functions id) (g.functions id)
    layout := fun s ref inside hs => (h.layout s ref inside hs.1).and (g.layout s ref inside hs.2)
    files := fun s w hs => ⟨h.files s w hs.1, g.files s w hs.2⟩
    abandoned := fun s w hs => ⟨h.abandoned s w hs.1, g.abandoned s w hs.2⟩ }

theorem onWorkspace {α : Type} (a : Action Workspace α) : Keeps I J (onWorkspace a) := by
  refine .of_leaves fun s hs => ?_
  rw [Session.onWorkspace, Action.within]
  rcases a s.workspace with ⟨e | x, w⟩
  · exact h.faulted _ (h.files s w hs)
  · exact h.files s w hs

theorem tell (level : Level) (source : Source) (text : String) :
    Keeps I J (tell level source text) := h.onWorkspace _

theorem tellDiagnostics : Keeps I J tellDiagnostics :=
  Keeps.get.bind fun _ =>
    (Keeps.forM fun _ _ => .forM fun _ _ => .ite (h.tell _ _ _) (.pure _)).bind fun _ =>
      .forM fun _ _ => .ite (h.tell _ _ _) (.pure _)

theorem batch (forced types : List (Option TypeId)) : Keeps I J (batch forced types) := by
  have dropped (e : Fault) (s : Session) (hs : J s) : Leaves I J
      ((Session.onWorkspace Workspace.discard >>= fun _ => throw e : Generation Unit) s) := by
    rw [bind_apply, Session.onWorkspace, Action.within]
    rcases Workspace.discard s.workspace with ⟨e | x, w⟩ <;> exact h.abandoned s w hs
  exact (Keeps.tryCatch (h.generate forced types) dropped).bind fun _ =>
    (h.onWorkspace _).bind fun _ => (h.tell _ _ _).bind fun _ => h.tellDiagnostics

theorem start {g : Option Graph} {s : Session} (hs : I { s with graph := g }) :
    Leaves I J (start g s) := by
  have told : I { s with
      graph := g
      workspace := s.workspace.record ⟨.info, .session, "=== Generating C# glue:"⟩ } := h.files _ _ hs
  cases g with
  | none => exact h.faulted _ told
  | some g =>
    exact (Keeps.get.bind fun _ => h.batch _ _ :
      Keeps I J (do
        let store := (← get).store
        let forced := [interfaceClass, objectClass].filterMap (g.find? store)
        Session.batch (forced.map some) (g.members.map some))).leaves told

theorem readGraph {data : Value} {f : Graph → Generation Unit}
    (hf : ∀ s g, I { s with graph := some g } → Leaves I J (f g s)) {s : Session}
    (hs : I ((Operation.adopt data).base s)) : Leaves I J ((readGraph data >>= f) s) := by
  unfold Operation.base at hs
  rcases hread : Graph.ofDocument s.store data with e | read <;> simp only [hread] at hs
  · rw [bind_of_error (by rw [readGraph_apply, hread])]
    exact h.faulted s hs
  · rw [bind_of_ok (by rw [readGraph_apply, hread])]
    exact hf _ _ hs

theorem moduleLoaded {data : Value} {s : Session} (hs : I ((Operation.load data).base s)) :
    Leaves I J (moduleLoaded data s) := by
  unfold Operation.base at hs
  rcases hread : Graph.extend s.store (s.graph.getD {}) data with e | read <;>
    simp only [hread] at hs
  · rw [Session.moduleLoaded, bind_of_error (by rw [merge_apply, hread])]
    exact h.faulted _ hs
  · rw [Session.moduleLoaded, bind_of_ok (by rw [merge_apply, hread])]
    exact ((h.tell _ _ _).bind fun _ => (h.batch _ _).bind fun _ => .pure _).leaves hs

/-- Once its graph is read an operation that gives a result keeps the invariant. -/
theorem run (operation : Operation) {s : Session} (hs : I (operation.base s)) :
    Leaves I J (operation.run s) := by
  have ignored {α : Type} {a : Generation α} (ha : Leaves I J (a s)) :
      Leaves I J ((a >>= fun _ => Pure.pure () : Generation Unit) s) := by
    rcases he : a s with ⟨e | x, t⟩ <;> rw [he] at ha
    · rwa [bind_of_error he]
    · rwa [bind_of_ok he]
  cases operation with
  | scan data => exact h.readGraph (fun _ _ => h.start) hs
  | rescan => exact h.start hs
  | load data => exact ignored (h.moduleLoaded hs)
  | adopt data => exact h.readGraph (f := Session.adopt) (fun _ _ hs => hs) hs
  | batch forced types => exact (h.batch forced types).leaves hs
  | visit force id => exact (h.visit force id).leaves hs
  | exportAs form id => exact (h.exportAs form id).leaves hs
  | saveModules => exact h.saveModules.leaves hs
  | commit => exact ignored ((h.onWorkspace _).leaves hs)
  | discard => exact (h.onWorkspace _).leaves hs
  | properties id => exact ignored ((h.properties id).leaves hs)
  | functions id => exact ((h.functions id).bind fun _ => Keeps.pure ()).leaves hs
  | layout ref =>
    show Leaves I J ((if ∀ id ∈ ref, id < s.store.size then
      isStructBlittable ref >>= fun _ => Pure.pure () else Pure.pure () : Generation Unit) s)
    split
    · next inside => exact ignored (h.layout s ref inside hs)
    · exact hs
  | outside files => exact h.files s files hs

end Generating

namespace Enduring
variable {I J : Session → Prop} (h : Enduring I)
include h

theorem and (g : Enduring J) : Enduring fun s => I s ∧ J s where
  toGenerating := h.toGenerating.and g.toGenerating
  adopted s graph inside keyed hs :=
    ⟨h.adopted s graph inside keyed hs.1, g.adopted s graph inside keyed hs.2⟩
  read s known data read linked inside hread hs :=
    ⟨h.read s known data read linked inside hread hs.1,
      g.read s known data read linked inside hread hs.2⟩

end Enduring

namespace Enduring
variable {I : Session → Prop} (h : Enduring I) (links : ∀ s, I s → Linked s)
include h links

theorem reads {s t : Session} (hs : I s) (read : ReadsGraph s t) : I t := by
  cases read with
  | nothing => exact hs
  | failed =>
    exact h.adopted s _ (by simpa using (links s hs).origin (.inr rfl))
      (fun keyed => by simpa [KeysModules] using keysModules_getD keyed) hs
  | @extended known data read origin hread =>
    have inside := (links s hs).origin origin
    have keyed (keys : KeysModules s.graph) : Graph.ModulesKeyed known.modules := by
      obtain rfl | rfl := origin
      · exact fun _ he => absurd he List.not_mem_nil
      · exact keysModules_getD keys
    exact h.adopted { s with store := read.store } _
      (by simpa using ((links s hs).read inside hread).2)
      (fun keys => keysModules_read (keyed keys) hread)
      (h.read s known data read (links s hs) inside hread hs)

theorem run (operation : Operation) {s : Session} (hs : I s) : I (operation.run s).2 :=
  leaves_self.1 (h.toGenerating.run operation (h.reads links hs (operation.reads s)))

theorem after {operations : List Operation} {s : Session} (hs : I s) : I (after s operations) := by
  induction operations generalizing s with
  | nil => exact hs
  | cons operation rest ih => exact ih (h.run links operation hs)

end Enduring

theorem linked_after (operations : List Operation) (h : Linked s) : Linked (after s operations) :=
  stepwise_linked.enduring.after (fun _ h => h) h

end ScriptGlue.Session
