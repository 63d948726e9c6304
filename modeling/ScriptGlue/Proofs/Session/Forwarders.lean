import ScriptGlue.Proofs.Session.Collected
import ScriptGlue.Proofs.Session.ForwarderCalls
import ScriptGlue.Proofs.Session.Revisions
import ScriptGlue.Proofs.Session.TwinSaves

/-! # Forwarders

The extension unit of a module is made anew by every batch, out of all extension methods collected
so far: it has one forwarder for each. A type that was exported first by an operation that faulted
may lack some for good, and a library that is declared again has those of all its declarations.
-/
namespace ScriptGlue.Session
open ScriptGlue.Action

variable {s t u v : Session} {id : TypeId}

/-- The forwarder calls the function of the extension method. -/
structure Calls (s : Session) (e : ExtensionMethod) (made : Forwarder) : Prop where
  name : ∃ name, functionName e.function (scriptName (s.store.type e.library)) = .ok name ∧
    made.name = name.plain
  library : ∃ space, made.library = space ++ "." ++ scriptLabel (s.store.type e.library)
  returnsValue : made.returnsValue = e.function.returned?.isSome
  arguments : made.arguments = e.function.positioned.map fun (p, i) => forwarded e p i
  code : ∃ shown, List.Forall₂ Declares (e.function.argumentsBut e.receiver.position) shown ∧
    made.code = Code.braced
      ("public static " ++ made.returnType ++ " " ++ made.name ++ "(" ++
        String.intercalate ", " (("this " ++ made.receiverType ++ " self") :: shown) ++ ")")
      [.line ((if e.function.returned?.isSome then "return " else "") ++ made.library ++ "." ++
        made.name ++ "(" ++ String.intercalate ", "
          (e.function.positioned.map fun (p, i) => forwarded e p i) ++ ");")]

theorem qualifiedName_ok {name : String} (h : qualifiedName id t = (.ok name, u)) :
    ∃ space, name = space ++ "." ++ scriptLabel (t.store.type id) := by
  obtain ⟨node, _, hnode, h⟩ := bind_eq_ok.1 h
  cases hnode
  obtain ⟨space, v, -, h⟩ := bind_eq_ok.1 h
  exact ⟨space, (pure_eq_ok.1 h).1.symm⟩

theorem Forwards.calls {C : Setting} {e : ExtensionMethod} {made : Forwarder}
    (h : Forwards C s e made) : Calls s e made := by
  obtain ⟨t, u, during, h⟩ := h
  have steady := (inert_gathers t []).steady
  obtain ⟨node, _, hnode, h⟩ := bind_eq_ok.1 h
  cases hnode
  obtain ⟨name, _, hname, h⟩ := bind_eq_ok.1 h
  obtain ⟨made, rfl⟩ := ofExcept_eq_ok.1 hname
  obtain ⟨receiver, v, hreceiver, h⟩ := bind_eq_ok.1 h
  obtain ⟨shown, w, hshown, h⟩ := bind_eq_ok.1 h
  obtain ⟨library, _, hlibrary, h⟩ := bind_eq_ok.1 h
  obtain ⟨returned, _, -, h⟩ := bind_eq_ok.1 h
  obtain ⟨rfl, rfl⟩ := pure_eq_ok.1 h
  have kept : Gathers t [] w := (Keeps.mapM fun p _ => steady.parameter p).result
    ((steady.receiverType e).result (.refl t) hreceiver) hshown
  have store : w.store = s.store := kept.rules.2.trans during.rules.2
  refine ⟨⟨name, during.rules.2 ▸ made, rfl⟩, ?_, rfl, rfl,
    _, declarations_of_made (made_parameters hshown), Forwarder.code_printed _⟩
  rw [← store]
  exact qualifiedName_ok hlibrary

theorem Calls.of_store {e : ExtensionMethod} {made : Forwarder} (h : Calls s e made)
    (same : t.store = s.store) : Calls t e made where
  name := same ▸ h.name
  library := same ▸ h.library
  returnsValue := h.returnsValue
  arguments := h.arguments
  code := h.code

/-- The save of a module's extension unit: one forwarder for each of its extension methods, in their
order. -/
structure ForwardsAll (s : Session) (name : Name) (x : Save) : Prop where
  target : s.moduleTarget? s.registry name = some x.toTarget
  text : ∃ m forwarders, s.registry.find? name = some m ∧
    List.Forall₂ (Calls s) (s.extensionsOf name) forwarders ∧
    x.text = ({ module := m.label, space := m.space, forwarders } : ExtensionUnit).code.text ∧
    x.text = Code.text (Code.opening m.space ++
      Code.braced ("public static partial class " ++ m.label ++ "Extensions")
        (List.intercalate [Layout.line ""] (forwarders.map Forwarder.code)))

theorem IsModuleUnit.forwardsAll {C : Setting} (k : Knows C s) (during : During C s t) {name : Name}
    {x : Save} (h : IsModuleUnit C s t.registry t.extensions name x) : ForwardsAll t name x := by
  obtain ⟨m, made, found, target, forwards, text⟩ := h.forwarders k
  have printed := ExtensionUnit.code_printed
    { module := m.label, space := m.space, forwarders := made }
  refine ⟨?_, m, made, found, ?_, text, text.trans (congrArg Code.text printed)⟩
  · rw [moduleTarget?, found, Option.bind_some, during.fileExtension]
    exact target
  · rw [extensionsOf, during.rules.2]
    exact forwards.imp fun _ _ h => h.calls.of_store during.rules.2

/-- A batch leaves the extension units in place, if they keep to themselves. -/
theorem Batched.modules_rest {C : Setting} {requests : List Request} {finished : List TypeId}
    (h : Batched C s requests finished t u) (pending : t.workspace.pending = [])
    (orderly : u.Orderly) (off : LogOff t.workspace.log u.outputs) :
    ∀ name ∈ u.extendedModules, ∃ x, IsModuleUnit C s u.registry u.extensions name x ∧
      x.Rests u.workspace.tree := by
  obtain ⟨units, modules, v, n, w, isUnit, isModule, saves, commit, quiet⟩ := h.output
  have ofType := isUnit.imp fun id x (unit : IsUnit C s u.registry id x) =>
    (typeTarget?_of_during h.during u.registry id).trans unit.target
  have ofModule : List.Forall₂ (fun name x => u.moduleTarget? u.registry name = some x.toTarget)
      u.extendedModules modules := isModule.imp fun name x unit => by
    rw [moduleTarget?, h.during.fileExtension]
    exact unit.target
  have known : ∀ id ∈ finished, id ∈ u.exported := fun id hid => (h.marked id).2 (.inr hid)
  have outputs := mem_outputs known ofType ofModule
  have inside : ∀ x ∈ units ++ modules, x.places ⊆ {loc | ∃ y ∈ u.outputs, loc ∈ y.places} :=
    fun x hx loc hloc => ⟨x.toTarget, outputs x hx, hloc⟩
  have log : w.log = t.workspace.log := saves.commit_log pending inside off commit
  intro name hname
  obtain ⟨x, hx, unit⟩ := exists_of_forall₂ isModule hname
  obtain ⟨clean, lone⟩ := lone_of_orderly known ofType ofModule orderly x hx
  have off := off_of_mem off (outputs x (List.mem_append_right _ hx))
  exact ⟨x, unit, (saves.commit_rests pending clean lone off commit).aside
    (Save.aside_of_rested quiet.rested (log.symm ▸ off))⟩

theorem forM_ran {α σ : Type} {f : α → Action σ PUnit} {xs : List α} {s t : σ} {x : PUnit}
    (h : xs.forM f s = (.ok x, t)) : ∀ a ∈ xs, ∃ u v, f a u = (.ok (), v) := by
  induction xs generalizing s with
  | nil => exact fun _ ha => absurd ha List.not_mem_nil
  | cons a xs ih =>
    rw [forM_cons] at h
    obtain ⟨_, u, first, rest⟩ := bind_eq_ok.1 h
    exact List.forall_mem_cons.2 ⟨⟨s, u, first⟩, ih rest⟩

theorem texts_of_batch {forced types : List (Option TypeId)} {x : Unit}
    (h : batch forced types s = (.ok x, t)) : ∀ name ∈ t.extendedModules, name.isText := by
  obtain ⟨v, n, w, hgenerate, -, w', -, rfl⟩ := batch_ok h
  obtain ⟨_, _, -, h⟩ := bind_eq_ok.1 hgenerate
  obtain ⟨_, u, -, hmodules⟩ := bind_eq_ok.1 h
  have kept := (saving_gathers u).saveModuleUnits.result (.refl u) hmodules
  have names : Session.extendedModules { v with workspace := w' } = u.extendedModules := by
    rw [extendedModules, extendedModules, kept.extensions, List.append_nil, kept.rules.2]
  obtain ⟨_, _, hget, hforM⟩ := bind_eq_ok.1 hmodules
  obtain ⟨rfl, rfl⟩ := get_eq_ok.1 hget
  intro name hname
  obtain ⟨_, _, saved⟩ := forM_ran hforM name (names ▸ hname)
  obtain ⟨_, _, registered, -⟩ := bind_eq_ok.1 saved
  obtain ⟨_, _, named, -⟩ := bind_eq_ok.1 registered
  obtain ⟨named, -⟩ := ofExcept_eq_ok.1 named
  unfold Value.named at named
  split at named
  · assumption
  · cases named

/-- If all modules were found by names, each extension method is in the unit of its module. -/
theorem home_mem_extendedModules (texts : ∀ name ∈ s.extendedModules, name.isText)
    {e : ExtensionMethod} (he : e ∈ s.extensions) :
    (s.store.type e.library).home.name ∈ s.extendedModules := by
  obtain known | ⟨w, hw, same⟩ := Value.mem_distinct_or_alike
    (List.mem_map_of_mem (f := fun e : ExtensionMethod => (s.store.type e.library).home.name) he)
  · exact known
  · obtain ⟨word, rfl⟩ := Value.eq_text_of_isText (texts w hw)
    rw [(Value.alike_text_left word _).1 same]
    exact hw

/-- The extension methods in the unit of a type's module whose library is called as the type are
those of the type, if no other exported type of the module is called so. -/
theorem extensionsOf_named (hs : Collected s) (texts : ∀ name ∈ s.extendedModules, name.isText)
    (alone : ∀ other ∈ s.exported, (s.store.type other).home.name = (s.store.type id).home.name →
      (s.store.type other).name = (s.store.type id).name → other = id) :
    (s.extensionsOf (s.store.type id).home.name).filter
        (fun e => (s.store.type e.library).name = (s.store.type id).name) =
      methodsFrom id s.extensions := by
  rw [extensionsOf, List.filter_filter, methodsFrom]
  refine List.filter_congr fun e he => ?_
  obtain ⟨word, named⟩ := Value.eq_text_of_isText (texts _ (home_mem_extendedModules texts he))
  rw [Bool.eq_iff_iff, Bool.and_eq_true, decide_eq_true_eq, decide_eq_true_eq]
  constructor
  · rintro ⟨name, home⟩
    rw [named] at home
    have same := (Value.alike_text_left word _).1 home
    exact alone _ (hs.libraries e he) (named.trans same.symm) name
  · rintro same
    rw [← same, named]
    exact ⟨rfl, (Value.alike_text_left word _).2 rfl⟩

/-- Over any session, operations that fault included, a batch that gives a result makes, for each
module with extension methods, a unit with one forwarder for each of them. They come from exported
types. Of each type they are the first of its extension methods, in order, and all of them if the
operation that exported it first gave a result; so a library that shares its name with no exported
type of its module has one forwarder for each of its methods. The unit is in place, or its directory
cannot be made. -/
theorem forwarders_of_methods {policy : Policy} {packaging : Packaging} {fileExtension : Value}
    {files : Workspace} {history : List Operation} {last : Operation}
    (indirect : ∀ operation ∈ history, operation.isDirect = false)
    (run : s = after (fresh policy packaging fileExtension files) history)
    (batches : last.batches) (succeeds : last.run s = (.ok (), t)) :
    (∀ e ∈ t.extensions, e.library ∈ t.exported ∧
      (t.store.type e.library).home.name ∈ t.extendedModules) ∧
    (∀ id, methodsFrom id t.extensions <+: t.methodsOf id) ∧
    (∀ id, ExportedWhole (fresh policy packaging fileExtension files) (history ++ [last]) id →
      methodsFrom id t.extensions = t.methodsOf id ∧
      ((∀ other ∈ t.exported, (t.store.type other).home.name = (t.store.type id).home.name →
          (t.store.type other).name = (t.store.type id).name → other = id) →
        (t.extensionsOf (t.store.type id).home.name).filter
          (fun e => (t.store.type e.library).name = (t.store.type id).name) = t.methodsOf id)) ∧
    ∀ name ∈ t.extendedModules, ∃ x, ForwardsAll t name x ∧
      (s.workspace.pending = [] → t.Orderly → LogOff s.workspace.log t.outputs →
        x.Rests t.workspace.tree) := by
  have start : Collected (fresh policy packaging fileExtension files) :=
    ⟨linked_fresh _ _ _ _, by simp, by simp, fun _ => List.nil_prefix⟩
  have direct : last.isDirect = false := by
    cases last <;> first | rfl | cases batches
  have all : ∀ operation ∈ history ++ [last], operation.isDirect = false :=
    List.forall_mem_append.2 ⟨indirect, by simpa using direct⟩
  have ended : t = after (fresh policy packaging fileExtension files) (history ++ [last]) := by
    rw [after_append, ← run]
    exact (congrArg Prod.snd succeeds).symm
  have collected : Collected t := ended ▸ collected_after all start
  obtain ⟨v, forced, types, -, quiet, made⟩ := last.run_batched batches succeeds
  obtain ⟨finished, batched⟩ :=
    batch_batched (knows_anySession v) (during_any v) (fun _ _ => .inr trivial) made
  have texts := texts_of_batch made
  refine ⟨fun e he => ⟨collected.libraries e he, home_mem_extendedModules texts he⟩, collected.part,
    fun id whole => ?_, fun name hname => ?_⟩
  · have complete := (ended ▸ whole.complete all start).2
    exact ⟨complete, fun alone => (extensionsOf_named collected texts alone).trans complete⟩
  · obtain ⟨units, modules, -, -, -, -, isModule, -⟩ := batched.output
    by_cases settled : s.workspace.pending = [] ∧ t.Orderly ∧ LogOff s.workspace.log t.outputs
    · obtain ⟨pending, orderly, off⟩ := settled
      have rested := quiet.rested
      obtain ⟨x, unit, rests⟩ := batched.modules_rest (rested.pending.trans pending) orderly
        (rested.log.symm ▸ off) name hname
      exact ⟨x, unit.forwardsAll (knows_anySession v) batched.during, fun _ _ _ => rests⟩
    · obtain ⟨x, -, unit⟩ := exists_of_forall₂ isModule hname
      exact ⟨x, unit.forwardsAll (knows_anySession v) batched.during,
        fun pending orderly off => absurd ⟨pending, orderly, off⟩ settled⟩

def worldLibrary : Value :=
  .object [("kind", .text "class"), ("name", .text "L"), ("module", .text "M"),
    ("super", functionLibraryClass),
    ("functions", .list [.object [("name", .text "F"),
      ("flags", .list [.text "static", .text "blueprint_callable"]),
      ("params", .list [.object [("name", .text "WorldContext"), ("kind", .text "bool")]])]])]

def redeclaredDocument : Value :=
  .object [("types", .list [
    .object [("kind", .text "class"), ("name", functionLibraryClass), ("module", .text "M")],
    worldLibrary, worldLibrary])]

theorem redeclared_runs : (Operation.scan redeclaredDocument).run.gives ringSession fun _ t =>
    t.exported == [2, 1, 0] && t.extendedModules == [.text "M"] &&
      (t.extensionsOf (.text "M")).map (fun e => (e.library, (t.store.type e.library).name,
        e.function.name)) == [(1, .text "L", .text "F"), (2, .text "L", .text "F")] &&
      decide (∀ e ∈ t.extensionsOf (.text "M"), functionName e.function
        (scriptName (t.store.type e.library)) = .ok (.text "F")) &&
      decide (∀ e ∈ t.extensionsOf (.text "M"), scriptLabel (t.store.type e.library) = "L") := by
  unfold Operation.run scan
  rw [start_eq_direct]
  decide +kernel

/-- What the scan of the library that is declared twice leaves. -/
structure Redeclared (t : Session) : Prop where
  scan : (Operation.scan redeclaredDocument).run ringSession = (.ok (), t)
  exported : t.exported = [2, 1, 0]
  modules : t.extendedModules = [.text "M"]
  methods : (t.extensionsOf (.text "M")).map (fun e => (e.library, (t.store.type e.library).name,
    e.function.name)) = [(1, .text "L", .text "F"), (2, .text "L", .text "F")]
  named : ∀ e ∈ t.extensionsOf (.text "M"),
    functionName e.function (scriptName (t.store.type e.library)) = .ok (.text "F") ∧
      scriptLabel (t.store.type e.library) = "L"

theorem redeclared : ∃ t, Redeclared t := by
  obtain ⟨⟨⟩, t, scan, runs⟩ := exists_of_gives redeclared_runs
  simp only [Bool.and_eq_true, beq_iff_eq, decide_eq_true_eq] at runs
  obtain ⟨⟨⟨⟨exported, modules⟩, methods⟩, names⟩, labels⟩ := runs
  exact ⟨t, scan, exported, modules, methods, fun e he => ⟨names e he, labels e he⟩⟩

theorem forwarders_of_redeclared : ∃ t,
    (Operation.scan redeclaredDocument).run ringSession = (.ok (), t) ∧
    (∀ id ∈ [1, 2], methodsFrom id t.extensions = t.methodsOf id) ∧
    ∃ x, ForwardsAll t (.text "M") x := by
  obtain ⟨t, h⟩ := redeclared
  obtain ⟨-, -, whole, units⟩ := forwarders_of_methods
    (fun _ early => absurd early List.not_mem_nil) (rfl : ringSession = after ringSession [])
    (rfl : (Operation.scan redeclaredDocument).batches) h.scan
  refine ⟨t, h.scan, fun id hid => ?_, ?_⟩
  · refine (whole id ⟨[], .scan redeclaredDocument, [], rfl, congrArg Prod.fst h.scan,
      List.not_mem_nil, ?_⟩).1
    show id ∈ ((Operation.scan redeclaredDocument).run ringSession).2.exported
    rw [h.scan, h.exported]
    revert id
    decide
  · obtain ⟨x, forwards, -⟩ := units (.text "M") (by simp [h.modules])
    exact ⟨x, forwards⟩

/-- A library with a function that takes a struct. -/
def structLibraryDocument : Value :=
  .object [("types", .list [
    .object [("kind", .text "class"), ("name", functionLibraryClass), ("module", .text "M"),
      ("functions", .list [.object [("name", .text "F"),
        ("flags", .list [.text "static", .text "blueprint_callable"]),
        ("params", .list [.object [("name", .text "WorldContext"), ("kind", .text "bool")],
          .object [("name", .text "s"), ("kind", .text "struct"), ("type", .text "S")]])]])],
    .object [("kind", .text "struct"), ("name", .text "S"), ("module", .text "M")]])]

/-- What lies where the unit of the struct goes is no text. -/
abbrev structLibrarySession : Session :=
  fresh {} { scriptsDir := .text "out" } (.text ".cs")
    { tree := { entries :=
        [(["out"], .directory), (["out", "S.generated.cs"], .file (.binary [255]))] } }

theorem structLibrary_runs :
    (Operation.load structLibraryDocument).run.faults structLibrarySession fun _ s =>
      s.exported == [1, 0] && s.extensions.isEmpty &&
        (s.methodsOf 0).map (fun e => e.function.name) == [.text "F"] && s.graph.isSome &&
        s.workspace.pending.isEmpty && s.workspace.log.isNone &&
        s.workspace.tree.fileAt ["out", "MModule.cs"] == none := by
  decide +kernel

/-- Forwarders may be lost and may be repeated. A library whose first export faulted has no
forwarder for its function after a batch with a result, and a library that is declared twice has
two. -/
theorem forwarders_lost_or_repeated :
    (∃ s t fault,
      (Operation.load structLibraryDocument).run structLibrarySession = (.error fault, s) ∧
      (Operation.load emptyDocument).run s = (.ok (), t) ∧ 0 ∈ t.exported ∧
      (t.methodsOf 0).map (fun e => e.function.name) = [.text "F"] ∧ t.extendedModules = [] ∧
      t.workspace.tree.fileAt ["out", "MModule.cs"] = none) ∧
    ∃ t, ∃ x : Save, ∃ first second,
      (Operation.scan redeclaredDocument).run ringSession = (.ok (), t) ∧
      t.moduleTarget? t.registry (.text "M") = some x.toTarget ∧
      x.text = ({
        module := "M"
        space := Naming.moduleNamespace "M"
        forwarders := [first, second] } : ExtensionUnit).code.text ∧
      ∀ made ∈ [first, second], made.name = "F" ∧ ∃ space, made.library = space ++ "." ++ "L" := by
  constructor
  · obtain ⟨fault, s, failed, runs⟩ := exists_of_faults structLibrary_runs
    simp only [Bool.and_eq_true, beq_iff_eq, List.isEmpty_iff, Option.isNone_iff_eq_none] at runs
    obtain ⟨⟨⟨⟨⟨⟨exported, methods⟩, functions⟩, graph⟩, pending⟩, log⟩, files⟩ := runs
    obtain ⟨g, hg⟩ := Option.isSome_iff_exists.1 graph
    obtain ⟨asked, w, loaded, tree⟩ := load_nothing hg methods pending log
    obtain ⟨added, _, hload, hasked⟩ := bind_eq_ok.1 loaded
    obtain ⟨-, rfl⟩ := pure_eq_ok.1 hasked
    refine ⟨s, _, fault, failed, bind_of_ok hload _, ?_, functions, ?_, tree.symm ▸ files⟩
    · simp [exported]
    · rw [extendedModules, methods]
      rfl
  · obtain ⟨t, h⟩ := redeclared
    obtain ⟨v, forced, types, -, -, made⟩ := Operation.run_batched rfl h.scan
    obtain ⟨finished, batched⟩ :=
      batch_batched (knows_anySession v) (during_any v) (fun _ _ => .inr trivial) made
    obtain ⟨units, modules, -, -, -, -, isModule, -⟩ := batched.output
    obtain ⟨x, -, unit⟩ := exists_of_forall₂ isModule (h.modules ▸ List.mem_singleton_self _)
    obtain ⟨target, m, forwarders, found, calls, text, -⟩ :=
      unit.forwardsAll (knows_anySession v) batched.during
    have name : m.name = .text "M" := (Value.alike_text_right _ _).1
      (List.find?_some (p := fun m : OutputModule => m.name.alike (.text "M")) found)
    have count : forwarders.length = 2 := by
      rw [← calls.length_eq, ← List.length_map, h.methods]
      rfl
    obtain ⟨first, second, rfl⟩ := List.length_eq_two.1 count
    rw [OutputModule.space, OutputModule.label, name] at text
    refine ⟨t, x, first, second, h.scan, target, text, fun made hmade => ?_⟩
    obtain ⟨e, he, call⟩ := exists_of_forall₂ calls.flip hmade
    obtain ⟨named, label⟩ := h.named e he
    obtain ⟨name, found, same⟩ := call.name
    obtain ⟨space, library⟩ := call.library
    obtain rfl := Except.ok.inj (found.symm.trans named)
    exact ⟨same, space, label ▸ library⟩

end ScriptGlue.Session
