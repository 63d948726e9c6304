import ScriptGlue.Proofs.Session.Reachability
import ScriptGlue.Proofs.Session.Vetted

/-! # Members that pass are safe

What the gates let through has the references and elements that its emitters ask for, is a single
value where one is needed, and is of a kind that a fixed-size array can hold where it is one. So
with names that are texts no emitter ever asks something of what does not have it, whatever the
session went through, faults and edits of the policy included; and if a scan or a load does, then
because of a category, or of what an enum says of its values.
-/
namespace ScriptGlue.Session
open ScriptGlue.Action

variable {strict : Prop} {σ τ : TypeStore} {s t u : Session}

/-- The properties that passed were declared and fit, extension methods fit, and what is registered
went to a directory. -/
structure Attends (σ : TypeStore) (s : Session) : Prop where
  store : s.store = σ
  packaging : s.packaging.Textual
  registry : ∀ m ∈ s.registry, m.directory.isText
  modules : KeysModules s.graph
  passed : ∀ id ps, s.acceptedProperties.lookup id = some ps → PassedOf σ id ps
  methods : ∀ m ∈ s.extensions, MethodFits σ m

namespace Attends

theorem vetted (h : Attends σ s) : Vetted σ s := ⟨h.store, h.passed, h.methods⟩

theorem of_same (h : Attends σ s) (store : t.store = s.store) (packaging : t.packaging = s.packaging)
    (registry : t.registry = s.registry) (graph : t.graph = s.graph)
    (passed : t.acceptedProperties = s.acceptedProperties)
    (methods : t.extensions = s.extensions) : Attends σ t where
  store := store ▸ h.store
  packaging := packaging ▸ h.packaging
  registry := registry ▸ h.registry
  modules := graph ▸ h.modules
  passed := passed ▸ h.passed
  methods := methods ▸ h.methods

theorem accepting (h : Attends σ s) {id : TypeId} (there : (σ.type id).properties?.isSome) :
    Attends σ (s.accepting id) where
  store := h.store
  packaging := h.packaging
  registry := h.registry
  modules := h.modules
  passed := (h.vetted.accepting there).passed
  methods := h.methods

theorem registered (h : Attends σ s) {m : NativeModule} {directory : Value}
    (found : s.packaging.directory m = .ok directory) :
    Attends σ { s with registry := s.registry ++ [{ name := m.name, directory }] } where
  store := h.store
  packaging := h.packaging
  registry := by
    obtain ⟨d, hd, text⟩ := h.packaging.directory m
    cases found.symm.trans hd
    exact List.forall_mem_append.2 ⟨h.registry, List.forall_mem_singleton.2 text⟩
  modules := h.modules
  passed := h.passed
  methods := h.methods

theorem declared (h : Attends σ s) {name : Name} {m : NativeModule}
    (found : s.findModule? name = some m) : m.name.isKey := by
  obtain ⟨g, hg, found⟩ := Option.bind_eq_some_iff.1 found
  obtain ⟨entry, hentry, rfl⟩ := Option.map_eq_some_iff.1 found
  exact h.modules g hg entry (List.mem_of_find?_eq_some hentry)

end Attends

theorem watchful_attends {J : Fault → Session → Prop}
    (faulted : ∀ s e, Attends σ s → (strict → e.isUnsound = false) → J e s)
    (named : strict → σ.Named) : Watchful strict σ (Attends σ) J where
  store _ h := h.store
  faulted := faulted
  named := named
  passed _ id ps h := h.passed id ps
  refused _ _ h := h.of_same rfl rfl rfl rfl rfl rfl
  accepted _ _ _ there h := h.accepting there

theorem careful_attends {J : Fault → Session → Prop}
    (faulted : ∀ s e, Attends σ s → (strict → e.isUnsound = false) → J e s)
    (named : strict → σ.Named) : Careful strict σ (Attends σ) J where
  toWatchful := watchful_attends faulted named
  textual _ _ h := h.packaging
  placed _ _ h := h.registry
  declared _ _ _ _ h := h.declared
  recorded _ _ h := h.of_same rfl rfl rfl rfl rfl rfl
  registered _ _ _ found h := h.registered found
  measured id there := (watchful_attends faulted named).isStructBlittable
    (fun _ _ h => h.of_same rfl rfl rfl rfl rfl rfl) fun _ => ⟨id, rfl, there⟩

theorem attentive_attends {J : Fault → Session → Prop}
    (faulted : ∀ s e, Attends σ s → (strict → e.isUnsound = false) → J e s)
    (named : strict → σ.Named) (linked : strict → σ.Linked) :
    Attentive strict σ (Attends σ) J where
  toCareful := careful_attends faulted named
  linked := linked
  marked _ _ h := h.of_same rfl rfl rfl rfl rfl rfl
  passedOver _ _ h := h.of_same rfl rfl rfl rfl rfl rfl
  extended _ _ fits h :=
    { h with methods := List.forall_mem_append.2 ⟨h.methods, List.forall_mem_singleton.2 fits⟩ }
  methods _ h := h.methods
  files _ _ h := h.of_same rfl rfl rfl rfl rfl rfl

theorem Attends.grow (h : Attends s.store s) (embeds : Embeds id s.store τ) :
    Attends τ { s with store := τ } where
  store := rfl
  packaging := h.packaging
  registry := h.registry
  modules := h.modules
  passed := (h.vetted.grow embeds).passed
  methods := (h.vetted.grow embeds).methods

theorem attended_attends : Attended (fun _ => True) (fun s => Attends s.store s)
    fun s => Attends s.store where
  starts _ h := h
  ends s t h := by rwa [h.store]
  attentive _ _ := attentive_attends (fun _ _ h _ => h) False.elim False.elim
  layout s ref _ _ h := by
    have watchful : Watchful False s.store (Attends s.store) fun _ => Attends s.store :=
      watchful_attends (fun _ _ h _ => h) False.elim
    have asked : Tame (Attends s.store) (fun _ => Attends s.store) (isStructBlittable ref) :=
      watchful.isStructBlittable (fun _ _ h => h.of_same rfl rfl rfl rfl rfl rfl) False.elim
    rcases run : isStructBlittable ref s with ⟨e | b, u⟩
    · have left := asked.fault h run
      rwa [left.store]
    · have left := (asked.result h run).2
      rwa [left.store]
  files _ _ h := h.of_same rfl rfl rfl rfl rfl rfl
  adopted _ _ keyed h := { h with modules := keyed h.modules }
  fewer _ _ _ _ := trivial
  read _ _ embeds h := h.grow embeds

theorem attends_course (linked : Linked s) (h : Attends s.store s) (events : List Event) :
    Linked (s.course events) ∧ Attends (s.course events).store (s.course events) := by
  have kept := attended_attends.enduring.course
    (fun _ _ h here => (h here).of_same rfl rfl rfl rfl rfl rfl) linked (fun _ => h) events
  exact ⟨kept.1, kept.2 trivial⟩

theorem attends_fresh {packaging : Packaging} (textual : packaging.Textual) (policy : Policy)
    (fileExtension : Value) (files : Workspace) :
    Attends #[] (fresh policy packaging fileExtension files) where
  store := rfl
  packaging := textual
  registry _ hm := absurd hm List.not_mem_nil
  modules _ hg := by cases hg
  passed _ _ known := by cases known
  methods _ hm := absurd hm List.not_mem_nil

/-- Whatever fault the computation ends with at the session, it does not ask something of what does
not have it. -/
def Finds {α : Type} (s : Session) (a : Generation α) : Prop :=
  ∀ e t, a s = (.error e, t) → e.isUnsound = false

/-- All that is made of a property or parameter finds what it asks for. -/
structure Emits (s : Session) (p : Property) : Prop where
  typeName : s.Finds (typeName p)
  scriptType : s.Finds (scriptType p)
  marshaller : ∀ slot, s.Finds (marshaller p slot)
  readInto : ∀ slot owner buffer displacement assignment,
    s.Finds (readInto p slot owner buffer displacement assignment)
  writeFrom : ∀ slot owner buffer displacement source,
    s.Finds (writeFrom p slot owner buffer displacement source)
  wrapperProperty : ∀ name relaxed forced, s.Finds (wrapperProperty p name relaxed forced)
  parameter : s.Finds (parameter p)

/-- So does all that is made of a function. -/
structure FunctionEmits (s : Session) (f : Function) : Prop where
  params : ∀ p ∈ f.params, p.Fits s.store ∧ p.arrayDim = 1 ∧ s.Emits p
  returnType : s.Finds (returnType f)
  wrapper : ∀ owner, owner.isText → s.Finds (wrapper f owner)
  eventStub : ∀ owner, owner.isText → s.Finds (eventStub f owner)
  interfaceMethod : ∀ owner, owner.isText → s.Finds (interfaceMethod f owner)

/-- So does all that is made of an extension method. -/
structure MethodEmits (s : Session) (m : ExtensionMethod) : Prop where
  fits : MethodFits s.store m
  function : s.FunctionEmits m.function
  receiverType : s.Finds (receiverType m)
  forwarder : s.Finds (forwarder m)

section
variable (attends : Attends σ s) (named : σ.Named)
include attends named

omit attends in
theorem careful_finds : Careful True σ (Attends σ) fun e _ => e.isUnsound = false :=
  careful_attends (fun _ _ _ sound => sound trivial) fun _ => named

omit named in
theorem Attends.finds {α : Type} {a : Generation α}
    (tame : Tame (Attends σ) (fun e _ => e.isUnsound = false) a) : s.Finds a :=
  fun _ _ he => tame.fault attends he

theorem emits_of_fits {p : Property} (fits : p.Fits σ) (name : p.name.isText) : s.Emits p :=
  have careful := careful_finds named
  { typeName := attends.finds ((careful.typeName fits).imp fun _ _ => trivial)
    scriptType := attends.finds (careful.scriptType fits)
    marshaller := fun slot => attends.finds (careful.marshaller fits slot)
    readInto := fun _ _ _ _ _ => attends.finds (careful.readInto fits _ _ _ _ _)
    writeFrom := fun _ _ _ _ _ => attends.finds (careful.writeFrom fits _ _ _ _ _)
    wrapperProperty := fun _ _ _ => attends.finds (careful.wrapperProperty fits _ _ _)
    parameter := attends.finds (careful.parameter fits fun _ => name) }

theorem functionEmits {f : Function} (good : DeclaredPassable σ f) : s.FunctionEmits f :=
  have careful := careful_finds named
  { params := fun p hp => by
      obtain ⟨fits, single⟩ := good.passable p hp
      exact ⟨attends.store ▸ fits, single,
        emits_of_fits attends named fits (named.param good.declared hp)⟩
    returnType := attends.finds (careful.returnType good)
    wrapper := fun _ text => attends.finds (careful.wrapper good fun _ => text)
    eventStub := fun _ text => attends.finds (careful.eventStub good fun _ => text)
    interfaceMethod := fun _ text => attends.finds (careful.interfaceMethod good fun _ => text) }

theorem methodEmits {m : ExtensionMethod} (fits : MethodFits σ m) : s.MethodEmits m :=
  have careful := careful_finds named
  { fits := attends.store ▸ fits
    function := functionEmits attends named ⟨⟨m.library, fits.declared⟩, fits.passable⟩
    receiverType := attends.finds (careful.receiverType fits)
    forwarder := attends.finds (careful.forwarder fits) }

end

section
variable (named : σ.Named) (plain : σ.Plain) (linked : σ.Linked)
include named plain linked

omit plain in
theorem attentive_finds : Attentive True σ (Attends σ) fun e s => Attends σ s ∧ e.isUnsound = false :=
  attentive_attends (fun _ _ h sound => ⟨h, sound trivial⟩) (fun _ => named) fun _ => linked

theorem tame_batch {forced types : List (Option TypeId)}
    (inside : ∀ ref ∈ forced ++ types, ∃ id, ref = some id ∧ id < σ.size) :
    Tame (Attends σ) (fun e s => Attends σ s ∧ e.isUnsound = false) (batch forced types) := by
  have attentive := attentive_finds named linked
  have handled {e : Fault} (sound : e.isUnsound = false) :
      Meets (Attends σ) (fun e s => Attends σ s ∧ e.isUnsound = false) (do
        onWorkspace Workspace.discard
        throw e : Generation PUnit) fun _ => False :=
    (attentive.onWorkspace Workspace.mild_discard).bind fun _ _ => .throw fun _ h => ⟨h, sound⟩
  have told : Tame (Attends σ) (fun e s => Attends σ s ∧ e.isUnsound = false) tellDiagnostics :=
    .get_bind fun _ _ => (Meets.forM fun _ _ => .forM fun _ _ =>
      .ite (fun _ => attentive.tell _ _ _) fun _ => .pure trivial).bind fun _ _ =>
        .forM fun _ _ => .ite (fun _ => attentive.tell _ _ _) fun _ => .pure trivial
  refine Meets.bind (Q := fun _ => True) ((attentive.generate (fun _ => plain) fun _ => inside).tryCatch
    (fun left he => ((handled left.2).result left.1 he).1.elim)
    fun left he => (handled left.2).fault left.1 he) fun _ _ => ?_
  exact (attentive.onWorkspace Workspace.mild_commit).bind fun _ _ =>
    (attentive.tell _ _ _).bind fun _ _ => told

theorem tame_start {g : Graph} (inside : g.Inside σ) (keyed : Graph.ModulesKeyed g.modules) :
    Tame (Attends σ) (fun e s => Attends σ s ∧ e.isUnsound = false) (start (some g)) := by
  refine ((attentive_finds named linked).tell _ _ _).bind fun _ _ =>
    (Meets.modify fun s h => ?_).bind fun _ _ => .get_bind fun s h => ?_
  · exact { h with modules := by simpa [KeysModules] using keyed }
  · refine tame_batch named plain linked fun ref href => ?_
    obtain href | href := List.mem_append.1 href
    · obtain ⟨id, hid, rfl⟩ := List.mem_map.1 href
      obtain ⟨name, -, found⟩ := List.mem_filterMap.1 hid
      exact ⟨id, rfl, inside id (List.mem_reverse.1 (List.mem_of_find?_eq_some found))⟩
    · obtain ⟨id, hid, rfl⟩ := List.mem_map.1 href
      exact ⟨id, rfl, inside id hid⟩

end

section
variable {read : Graph.Extension} {data : Value} {e : Fault} (linked : Linked s)
  (attends : Attends s.store s) (named : read.store.Named) (plain : read.store.Plain)
include linked attends named plain

theorem scan_finds (hread : Graph.ofDocument s.store data = .ok read)
    (h : scan data s = (.error e, t)) : e.isUnsound = false := by
  have none : Graph.Inside s.store {} := fun _ hid => absurd hid List.not_mem_nil
  obtain ⟨embeds, readLinked, inside⟩ := Graph.extend_grows linked.store none hread
  have keyed := Graph.extend_modulesKeyed (fun _ he => absurd he List.not_mem_nil) hread
  have run : readGraph data s = (.ok read.graph, { s with store := read.store }) := by
    rw [readGraph_apply, hread]
  rw [scan, bind_of_ok run] at h
  exact ((tame_start named plain readLinked inside keyed).fault (attends.grow embeds) h).2

theorem moduleLoaded_finds (hread : Graph.extend s.store (s.graph.getD {}) data = .ok read)
    (h : moduleLoaded data s = (.error e, t)) : e.isUnsound = false := by
  have known : (s.graph.getD {}).Inside s.store := by
    cases graph : s.graph with
    | none => exact fun _ hid => absurd hid List.not_mem_nil
    | some g => exact linked.graph g graph
  obtain ⟨embeds, readLinked, inside⟩ := Graph.extend_grows linked.store known hread
  obtain ⟨modules, nodes, -, -, members, -⟩ := Graph.extend_eq_ok hread
  have merged : Attends read.store { s with store := read.store, graph := some read.graph } :=
    { attends.grow embeds with
      modules := keysModules_read (keysModules_getD attends.modules) hread }
  have run : merge data s =
      (.ok read.added, { s with store := read.store, graph := some read.graph }) := by
    rw [merge_apply, hread]
  rw [moduleLoaded, bind_of_ok run] at h
  have attentive := attentive_finds named readLinked
  have loaded : Tame (Attends read.store)
      (fun e s => Attends read.store s ∧ e.isUnsound = false) (do
        tell .info .session ("=== Module loaded: " ++ toString read.added.length ++ " new types")
        batch [] (read.added.map some)
        return read.added) :=
    (attentive.tell _ _ _).bind fun _ _ =>
      (tame_batch named plain readLinked fun ref href => by
        obtain ⟨id, hid, rfl⟩ := List.mem_map.1 href
        exact ⟨id, rfl, inside id (by rw [members]; exact List.mem_append_right _ hid)⟩).bind
          fun _ _ => .pure trivial
  exact (loaded.fault merged h).2

end

section
variable (attends : Attends σ s) (named : σ.Named) {id : TypeId}
include attends named

theorem exportedProperties_emit {ps : List Property} (h : exportedProperties id s = (.ok ps, t)) :
    ∀ p ∈ ps, p.Passable σ ∧ s.Emits p ∧ ∀ name relaxed, s.Finds (mirrorField p name relaxed) := by
  have kept : Careful False σ (Attends σ) fun _ => Attends σ :=
    careful_attends (fun _ _ h _ => h) False.elim
  obtain ⟨declared, hdeclared, all⟩ := ((kept.exportedProperties False.elim).result attends h).1
  intro p hp
  obtain ⟨mem, passable⟩ := all p hp
  exact ⟨passable, emits_of_fits attends named passable.toFits (named.property hdeclared mem),
    fun name relaxed => attends.finds ((careful_finds named).mirrorField passable name relaxed)⟩

theorem exportedFunctions_emit {fs events : List Function}
    (h : exportedFunctions (σ.type id) s = (.ok (fs, events), t)) :
    ∀ f ∈ fs ++ events, s.FunctionEmits f := by
  have kept : Careful False σ (Attends σ) fun _ => Attends σ :=
    careful_attends (fun _ _ h _ => h) False.elim
  obtain ⟨own, all⟩ := ((kept.exportedFunctions False.elim id).result attends h).1
  intro f hf
  exact functionEmits attends named ((List.mem_append.1 hf).elim (fun hf => (own f hf).2) (all f))

theorem canExportFunction_emit {f : Function} (declared : f ∈ (σ.type id).functions)
    (h : canExportFunction (σ.type id) f s = (.ok true, t)) : s.FunctionEmits f := by
  refine functionEmits attends named ⟨⟨id, declared⟩, ?_⟩
  rw [← attends.store] at h ⊢
  exact passable_of_passesFunction (canExportFunction_ok h).1.symm

end

/-- At every moment with the types of `s`, half-way through a generation too, what the gates let
through has what its emitters ask for. -/
theorem members_emit {policy : Policy} {packaging : Packaging} {fileExtension : Value}
    {files : Workspace} {events : List Event} (textual : packaging.Textual)
    (after : s = course (fresh policy packaging fileExtension files) events)
    (named : s.store.Named) :
    Attends s.store s ∧
    (∀ u, Attends s.store u →
      (∀ id ps v, exportedProperties id u = (.ok ps, v) → ∀ p ∈ ps, p.Passable s.store ∧
        u.Emits p ∧ ∀ name relaxed, u.Finds (mirrorField p name relaxed)) ∧
      (∀ id fs events v, exportedFunctions (s.store.type id) u = (.ok (fs, events), v) →
        ∀ f ∈ fs ++ events, u.FunctionEmits f) ∧
      (∀ id f v, f ∈ (s.store.type id).functions →
        canExportFunction (s.store.type id) f u = (.ok true, v) → u.FunctionEmits f) ∧
      ∀ m ∈ u.extensions, u.MethodEmits m) ∧
    (∀ data read e t, Graph.ofDocument s.store data = .ok read → read.store.Named →
      scan data s = (.error e, t) → e.isUnsound → ¬read.store.Plain) ∧
    (∀ g e t, s.graph = some g → start s.graph s = (.error e, t) → e.isUnsound →
      ¬s.store.Plain) ∧
    ∀ data read e t, Graph.extend s.store (s.graph.getD {}) data = .ok read → read.store.Named →
      moduleLoaded data s = (.error e, t) → e.isUnsound → ¬read.store.Plain := by
  obtain ⟨linked, attends⟩ : Linked s ∧ Attends s.store s :=
    after ▸ attends_course (linked_fresh ..) (attends_fresh textual ..) events
  refine ⟨attends, fun u hu => ⟨fun id ps v => exportedProperties_emit hu named,
    fun id fs events v => exportedFunctions_emit hu named,
    fun id f v => canExportFunction_emit hu named,
    fun m hm => methodEmits hu named (hu.methods m hm)⟩, ?_, ?_, ?_⟩
  · intro data read e t hread named h unsound plain
    cases (scan_finds linked attends named plain hread h).symm.trans unsound
  · intro g e t hg h unsound plain
    rw [hg] at h
    have sound := ((tame_start named plain linked.store (linked.graph g hg)
      (attends.modules g hg)).fault attends h).2
    cases sound.symm.trans unsound
  · intro data read e t hread named h unsound plain
    cases (moduleLoaded_finds linked attends named plain hread h).symm.trans unsound

/-- A struct whose properties want of a reference, of the right variant, of an element, of an
element that is no container, or of a kind that an array of fixed size can hold; two want of
nothing. -/
def wantingDocument : Value :=
  .object [("types", .list [
    .object [("kind", .text "enum"), ("name", .text "E"), ("module", .text "M")],
    .object [("kind", .text "struct"), ("name", .text "S"), ("module", .text "M"),
      ("properties", .list [
        wanting "unresolved" [("kind", .text "object"), ("type", .text "Nowhere")],
        wanting "variant" [("kind", .text "struct"), ("type", .text "E")],
        wanting "element" [("kind", .text "array")],
        wanting "nested" [("kind", .text "array"), ("inner", .object [("name", .text "inner"),
          ("kind", .text "array"), ("inner", .object [("name", .text "inner"),
            ("kind", .text "int32")])])],
        wanting "strings" [("kind", .text "string"), ("array_dim", .int 2)],
        wanting "enums" [("kind", .text "enum"), ("type", .text "E"), ("array_dim", .int 2)],
        wanting "numbers" [("kind", .text "array"), ("inner", .object [("name", .text "inner"),
          ("kind", .text "int32")])]])]])]
where
  wanting (name : String) (fields : List (String × Value)) : Value :=
    .object ([("name", .text name), ("flags", .list [.text "blueprint_visible"])] ++ fields)

def wantingSession : Session :=
  course (fresh {} { scriptsDir := .text "out" } (.text ".cs") {}) [.run (.adopt wantingDocument)]

theorem wantingSession_holds : wantingSession.store.Named ∧
    (exportedProperties 1).gives wantingSession fun ps _ =>
      ps.map Property.name == [.text "enums", .text "numbers"] := by
  decide +kernel

theorem members_emit_of_wanting : ∃ ps v, exportedProperties 1 wantingSession = (.ok ps, v) ∧
    ps.map Property.name = [.text "enums", .text "numbers"] ∧
    ∀ p ∈ ps, p.Passable wantingSession.store ∧ wantingSession.Emits p := by
  obtain ⟨named, runs⟩ := wantingSession_holds
  have after : wantingSession = course (fresh {} { scriptsDir := .text "out" } (.text ".cs") {})
      [.run (.adopt wantingDocument)] := rfl
  obtain ⟨attends, emit, -⟩ := members_emit ⟨rfl, rfl, rfl⟩ after named
  obtain ⟨ps, v, asked, names⟩ := exists_of_gives runs
  refine ⟨ps, v, asked, beq_iff_eq.1 names, fun p hp => ?_⟩
  obtain ⟨passable, emits, -⟩ := (emit _ attends).1 1 ps v asked p hp
  exact ⟨passable, emits⟩

end ScriptGlue.Session
