import ScriptGlue.Proofs.Files.Standing
import ScriptGlue.Proofs.Session.Aftermath

/-! # Parts made again

The makers of extension units read the types and the graph, and register modules. Once one gave a
result, the modules it needs are registered: later in the session it gives the same result and
changes nothing. So the extension units are saved with the same texts again.
-/
namespace ScriptGlue.Session
open ScriptGlue.Action

variable {s t u v : Session}

/-- Later in a session in which only modules are registered and files change. -/
structure Subsequent (t u : Session) : Prop where
  store : u.store = t.store
  graph : u.graph = t.graph
  fileExtension : u.fileExtension = t.fileExtension
  extensions : u.extensions = t.extensions
  registry : t.registry <+: u.registry

theorem Subsequent.refl (t : Session) : Subsequent t t := ⟨rfl, rfl, rfl, rfl, List.prefix_rfl⟩

theorem Subsequent.trans (h : Subsequent t u) (g : Subsequent u v) : Subsequent t v where
  store := g.store.trans h.store
  graph := g.graph.trans h.graph
  fileExtension := g.fileExtension.trans h.fileExtension
  extensions := g.extensions.trans h.extensions
  registry := h.registry.trans g.registry

theorem Subsequent.files (h : Subsequent t u) (w : Workspace) : Subsequent t { u with workspace := w } :=
  ⟨h.store, h.graph, h.fileExtension, h.extensions, h.registry⟩

def Repeats {α : Type} (a : Generation α) : Prop := ∀ t x u, a t = (.ok x, u) →
  Subsequent t u ∧ ∀ v, Subsequent u v → a v = (.ok x, v)

namespace Repeats
variable {α β : Type}

theorem pure (x : α) : Repeats (Pure.pure x) := fun t y u h => by
  obtain ⟨rfl, rfl⟩ := pure_eq_ok.1 h
  exact ⟨.refl t, fun v _ => rfl⟩

theorem throw (e : Fault) : Repeats (throw e : Generation α) := fun _ _ _ h => by cases h

theorem ofExcept (r : Except Fault α) : Repeats (Action.ofExcept r) := fun t x u h => by
  obtain ⟨rfl, rfl⟩ := ofExcept_eq_ok.1 h
  exact ⟨.refl t, fun v _ => rfl⟩

theorem bind {a : Generation α} {f : α → Generation β} (ha : Repeats a) (hf : ∀ x, Repeats (f x)) :
    Repeats (a >>= f) := fun t y u h => by
  obtain ⟨x, t', hx, hy⟩ := bind_eq_ok.1 h
  obtain ⟨first, again⟩ := ha t x t' hx
  obtain ⟨second, again'⟩ := hf x t' y u hy
  exact ⟨first.trans second, fun v later =>
    (bind_of_ok (again v (second.trans later)) f).trans (again' v later)⟩

theorem get_bind {f : Session → Generation α} {γ : Type} (read : Session → γ)
    (stays : ∀ t u, Subsequent t u → read u = read t) (g : γ → Generation α)
    (reads : ∀ s, f s = g (read s)) (hg : ∀ x, Repeats (g x)) :
    Repeats (get >>= f) := fun t x u h => by
  obtain ⟨_, _, hget, h⟩ := bind_eq_ok.1 h
  obtain ⟨rfl, rfl⟩ := get_eq_ok.1 hget
  rw [reads] at h
  obtain ⟨later, again⟩ := hg _ t x u h
  refine ⟨later, fun v further => ?_⟩
  show f v v = _
  rw [reads, stays t v (later.trans further)]
  exact again v further

theorem mapM {f : α → Generation β} {xs : List α} (h : ∀ x ∈ xs, Repeats (f x)) :
    Repeats (xs.mapM f) := by
  induction xs with
  | nil =>
    rw [List.mapM_nil]
    exact pure _
  | cons x xs ih =>
    rw [List.mapM_cons]
    exact (h x List.mem_cons_self).bind fun _ =>
      (ih fun y hy => h y (List.mem_cons_of_mem _ hy)).bind fun _ => pure _

theorem register (m : NativeModule) : Repeats (register m) := by
  have known {r : Registry} {o : OutputModule} {v : Session} (key : m.name.isKey)
      (found : r.find? m.name = some o) (later : r <+: v.registry) :
      Session.register m v = (.ok o, v) := by
    rw [register_apply, if_pos key, find?_grows later found]
  intro t o u h
  have found := register_ok h
  rw [register_apply] at h
  split at h
  · next key =>
    refine ⟨?_, fun v later => known key found later.registry⟩
    split at h
    · cases h
      exact .refl _
    · split at h
      · cases h
      · split at h <;> cases h
        exact ⟨rfl, rfl, rfl, rfl, List.prefix_append _ _⟩
  · cases h

theorem registerByName (name : Name) : Repeats (registerByName name) :=
  (ofExcept _).bind fun _ => register _

theorem typeAt (id : TypeId) : Repeats (typeAt id) :=
  get_bind (fun s => s.store.type id) (fun _ _ later => by rw [later.store]) Pure.pure
    (fun _ => rfl) pure

theorem spaceOf (t : TypeNode) : Repeats (spaceOf t) := (register _).bind fun _ => pure _

theorem qualifiedName (id : TypeId) : Repeats (qualifiedName id) :=
  (typeAt id).bind fun t => (spaceOf t).bind fun _ => pure _

theorem qualifiedRef (ref : Option TypeId) : Repeats (qualifiedRef ref) := by
  cases ref with
  | none => exact throw _
  | some id => exact qualifiedName id

theorem simpleType (kind : PropertyKind) (refName : Value) (ref : Option TypeId) :
    Repeats (simpleType kind refName ref) := by
  unfold Session.simpleType
  split
  all_goals first
    | exact pure _
    | exact (qualifiedRef ref).bind fun _ => pure _

theorem typeArguments (types : List Name) : Repeats (typeArguments types) := by
  unfold Session.typeArguments
  split
  · exact pure _
  · exact throw _

mutual

theorem typeName : ∀ p : Property, Repeats (typeName p)
  | ⟨_, kind, _, refName, ref, inner, value, _, _, _⟩ => by
    unfold Session.typeName
    split
    · exact (elementTypeName inner).bind fun _ => (typeArguments _).bind fun _ => pure _
    · exact (elementTypeName inner).bind fun _ => (typeArguments _).bind fun _ => pure _
    · exact (elementTypeName inner).bind fun _ => (elementTypeName value).bind fun _ =>
        (typeArguments _).bind fun _ => pure _
    · exact simpleType _ _ _

theorem elementTypeName : ∀ p : Option Property, Repeats (elementTypeName p)
  | some p => typeName p
  | none => throw _

end

theorem scriptType (p : Property) : Repeats (scriptType p) := (typeName p).bind fun _ => pure _

theorem parameter (p : Property) : Repeats (parameter p) :=
  (scriptType p).bind fun _ => (ofExcept _).bind fun _ => pure _

theorem returnType (f : Function) : Repeats (returnType f) := by
  unfold Session.returnType
  split
  · exact scriptType _
  · exact pure _

/-- A module that is not declared has the same namespace before and after it is registered. -/
theorem spaceOf_worldModule (r : Registry) :
    r.spaceOf worldModule = Naming.moduleNamespace worldModule.plain := by
  unfold Registry.spaceOf
  split
  · next m found =>
    have alike : m.name.alike worldModule = true :=
      List.find?_some (p := fun m : OutputModule => m.name.alike worldModule) found
    rw [OutputModule.space, OutputModule.label, (Value.alike_text_right _ _).1 alike]
    rfl
  · rfl

/-- The type of an override, by what its name and that of the world are found to be. -/
def overridden (className : Name) : Option TypeId → Option NativeModule → Generation String
  | some id, _ => Session.qualifiedName id
  | none, found => do
    let space ← match found with
      | some m => OutputModule.space <$> Session.register m
      | none => Pure.pure (Naming.moduleNamespace worldModule.plain)
    return space ++ "." ++ className.plain

theorem overrideType (className : Name) : Repeats (overrideType className) := by
  refine get_bind (fun s => (s.findType? className, s.findModule? worldModule))
    (fun t u later => ?_) (fun found => overridden className found.1 found.2) (fun s => ?_)
    fun found => ?_
  · simp only [findType?, findModule?, later.graph, later.store]
  · rcases s.findType? className with _ | id
    · rcases s.findModule? worldModule with _ | m
      · simp only [spaceOf_worldModule, overridden]
      · rfl
    · rfl
  · obtain ⟨_ | id, _ | m⟩ := found
    · exact (pure _).bind fun _ => pure _
    · exact ((register m).bind fun _ => pure _).bind fun _ => pure _
    · exact qualifiedName id
    · exact qualifiedName id

theorem receiverType (m : ExtensionMethod) : Repeats (receiverType m) := by
  unfold Session.receiverType
  split
  · exact overrideType _
  · split
    · exact scriptType _
    · exact throw _

theorem forwarder (m : ExtensionMethod) : Repeats (forwarder m) :=
  (typeAt _).bind fun _ => (ofExcept _).bind fun _ => (receiverType m).bind fun _ =>
    (mapM fun p _ => parameter p).bind fun _ => (qualifiedName _).bind fun _ =>
      (returnType _).bind fun _ => pure _

theorem extensionUnit (m : OutputModule) (methods : List ExtensionMethod) :
    Repeats (extensionUnit m methods) := (mapM fun m _ => forwarder m).bind fun _ => pure _

end Repeats

/-- The extension methods of a module have this save, now and later. -/
structure SavedAgain (u : Session) (name : Name) (x : Save) : Prop where
  target : u.moduleTarget? u.registry name = some x.toTarget
  again : ∀ v w, Subsequent u v → x.run v.workspace = (.ok (), w) →
    saveExtensions name v = (.ok (), { v with workspace := w })

theorem SavedAgain.later {name : Name} {x : Save} (h : SavedAgain t name x) (later : Subsequent t u) :
    SavedAgain u name x where
  target := by
    obtain ⟨m, found, placed⟩ := Option.bind_eq_some_iff.1 h.target
    unfold moduleTarget?
    rw [find?_grows later.registry found, later.fileExtension]
    exact placed
  again v w further := h.again v w (later.trans further)

theorem saveExtensions_again {name : Name} {x : Unit} (h : saveExtensions name t = (.ok x, u)) :
    Subsequent t u ∧ ∃ save, SavedAgain u name save ∧ Save.Saves [save] t.workspace u.workspace := by
  obtain ⟨m, t₁, hm, h⟩ := bind_eq_ok.1 h
  obtain ⟨first, again⟩ := Repeats.registerByName name t m t₁ hm
  obtain ⟨-, still, found⟩ := registerByName_ok (knows_anySession t) (during_any t) (.inr trivial) hm
  obtain ⟨_, _, hget, h⟩ := bind_eq_ok.1 h
  obtain ⟨rfl, rfl⟩ := get_eq_ok.1 hget
  obtain ⟨unit, t₂, hunit, h⟩ := bind_eq_ok.1 h
  obtain ⟨second, again'⟩ := Repeats.extensionUnit m _ t₁ unit t₂ hunit
  obtain ⟨-, still'⟩ := Still.of_keeps ((steady_still (knows_anySession t₁) t₁).extensionUnit m _)
    (during_any t₁) hunit
  obtain ⟨target, w, placed, rfl, run⟩ := saveUnit_ok h
  refine ⟨(first.trans second).files w, { target with text := unit.code.text }, ⟨?_, ?_⟩,
    .single (still.quiet.trans still'.quiet) run⟩
  · unfold moduleTarget?
    rw [find?_grows second.registry found, second.fileExtension]
    exact placed
  · intro v w' later saved
    have later : Subsequent t₂ v := ⟨later.store, later.graph, later.fileExtension, later.extensions,
      later.registry⟩
    have later' := second.trans later
    have methods : v.extensionsOf name = t₁.extensionsOf name := by
      rw [extensionsOf, extensionsOf, later'.extensions, later'.store]
    refine (bind_of_ok (again v later') _).trans ?_
    show (Session.extensionUnit m (v.extensionsOf name) >>= fun unit =>
      saveUnit m (m.unitName ++ v.fileExtension.plain) unit.code.text) v = _
    have placed : target? m (m.unitName ++ v.fileExtension.plain) = some target := by
      rw [later'.fileExtension]
      exact placed
    rw [methods, bind_of_ok (again' v later), saveUnit_eq, placed]
    simp only [onWorkspace, within, saved]

/-- What is saved for the extension methods of some modules is saved again later. -/
theorem forM_saveExtensions_again {names : List Name} {x : Unit}
    (h : names.forM saveExtensions t = (.ok x, u)) :
    Subsequent t u ∧ ∃ saves, List.Forall₂ (SavedAgain u) names saves ∧
      Save.Saves saves t.workspace u.workspace := by
  induction names generalizing t with
  | nil =>
    obtain rfl := (pure_eq_ok.1 h).2
    exact ⟨.refl t, [], .nil, .quiet (.refl _)⟩
  | cons name names ih =>
    rw [forM_cons] at h
    obtain ⟨_, v, hname, hrest⟩ := bind_eq_ok.1 h
    obtain ⟨first, save, again, run⟩ := saveExtensions_again hname
    obtain ⟨rest, saves, agains, runs⟩ := ih hrest
    exact ⟨first.trans rest, save :: saves, .cons (again.later rest) agains, run.append runs⟩

theorem forM_saveExtensions_of_runs {names : List Name} {saves : List Save} {w : Workspace}
    (again : List.Forall₂ (SavedAgain u) names saves) (later : Subsequent u v)
    (runs : saves.forM Save.run v.workspace = (.ok (), w)) :
    names.forM saveExtensions v = (.ok (), { v with workspace := w }) := by
  induction again generalizing v with
  | nil =>
    cases runs
    rfl
  | cons first _ ih =>
    rw [forM_cons] at runs ⊢
    obtain ⟨_, w', run, runs⟩ := bind_eq_ok.1 runs
    rw [bind_of_ok (first.again v w' later run)]
    exact ih (later.files w') runs

end ScriptGlue.Session
