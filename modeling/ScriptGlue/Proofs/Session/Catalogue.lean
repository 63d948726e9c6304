import ScriptGlue.Proofs.Graph.Declarations
import ScriptGlue.Proofs.Graph.Reordering
import ScriptGlue.Proofs.Session.Runs
import ScriptGlue.Proofs.Session.TwinSaves

/-! # Modules known by their names

Where types and modules are called by words, the modules that a graph knows are told by their names.
So a batch over it registers each with one directory, whatever it meets first, and if no two types
have one name the units of the batch are apart from each other.
-/
namespace ScriptGlue.Session
open ScriptGlue.Action

variable {C : Setting} {g : Graph} {s t u : Session} {x : Target}

/-- Types and modules are called by words, and no two types by the same. -/
structure WellNamed (σ : TypeStore) (g : Graph) : Prop where
  types : σ.Worded
  modules : ∀ entry ∈ g.modules, entry.2.name.Worded
  distinct : ∀ i < σ.size, ∀ j < σ.size, (σ.type i).name = (σ.type j).name → i = j

theorem WellNamed.store {σ : TypeStore} (h : WellNamed σ g) : σ.Distinct where
  names i hi := by
    obtain ⟨word, -, named⟩ := Value.eq_text_of_worded (h.types i hi).1
    rw [named]
    rfl
  homes i hi := by
    obtain ⟨word, -, named⟩ := Value.eq_text_of_worded (h.types i hi).2
    rw [named]
    rfl
  distinct := h.distinct

/-- The modules that the graph knows by texts may be registered. -/
def catalogue (g : Graph) : Setting where
  modules m := m = default ∨ ∃ word, g.modules.find? (.text word) = some m
  exact := True

theorem catalogue_named (matched : g.modules.Matched) : ∀ m, (catalogue g).modules m →
    ∀ m', (catalogue g).modules m' → m.name.alike m'.name → m = m' := by
  rintro m (rfl | ⟨word, found⟩) m' (rfl | ⟨word', found'⟩) alike
  · rfl
  · rw [matched.name found', Value.alike_text_right] at alike
    cases alike
  · rw [matched.name found, Value.alike_text_left] at alike
    cases alike
  · rw [matched.name found, matched.name found', Value.alike_text_left] at alike
    cases alike
    exact Option.some_inj.1 (found.symm.trans found')

theorem catalogue_of_find? {σ : TypeStore} (wellNamed : WellNamed σ g) (filed : g.modules.Filed)
    {key : Name} {m : NativeModule} (found : g.modules.find? key = some m) :
    (catalogue g).modules m := by
  obtain ⟨entry, hentry, rfl⟩ := Option.map_eq_some_iff.1 found
  obtain ⟨word, -, named⟩ := Value.eq_text_of_worded
    (wellNamed.modules entry (List.mem_of_find?_eq_some hentry))
  exact .inr ⟨word, filed.find?_name found named⟩

/-- All that a session knows of modules is in the catalogue, if its graph knows no other modules. -/
theorem knows_catalogue {σ : TypeStore} (wellNamed : WellNamed σ g) (filed : g.modules.Filed)
    (homes : ∀ id < s.store.size, ∃ key, g.modules.find? key = some (s.store.type id).home)
    (declared : ∀ name m, s.findModule? name = some m → ∃ key, g.modules.find? key = some m) :
    Knows (catalogue g) s where
  home id := by
    by_cases hid : id < s.store.size
    · obtain ⟨key, found⟩ := homes id hid
      exact catalogue_of_find? wellNamed filed found
    · rw [TypeStore.type_of_size_le (Nat.le_of_not_lt hid)]
      exact .inl rfl
  declared name m hm := by
    obtain ⟨key, found⟩ := declared name m hm
    exact catalogue_of_find? wellNamed filed found

theorem During.in_setting (h : During anyModule s s) (registry : ∀ m ∈ s.registry, ∃ home,
    C.modules home ∧ home.name = m.name ∧ s.packaging.directory home = .ok m.directory) :
    During C s s where
  rules := .refl s
  graph := rfl
  packaging := rfl
  fileExtension := rfl
  registry _ := registry
  remembers _ := h.remembers trivial
  consults := .refl

theorem moduleTarget?_of_during (h : During C s t) (r : Registry) (name : Name) :
    t.moduleTarget? r name = s.moduleTarget? r name := by
  unfold moduleTarget?
  rw [h.fileExtension]

theorem targets_subset_outputs (h : During C s u) {ids : List TypeId}
    (known : ∀ id ∈ ids, id ∈ u.exported) :
    s.targets u.registry ids u.extendedModules ⊆ u.outputs := by
  intro x hx
  obtain hx | hx := List.mem_append.1 hx
  · obtain ⟨id, hid, placed⟩ := List.mem_filterMap.1 hx
    exact List.mem_append_left _ (List.mem_filterMap.2
      ⟨id, known id hid, (typeTarget?_of_during h _ id).trans placed⟩)
  · obtain ⟨name, hname, placed⟩ := List.mem_filterMap.1 hx
    exact List.mem_append_right _ (List.mem_filterMap.2
      ⟨name, hname, (moduleTarget?_of_during h _ name).trans placed⟩)

theorem extendedModules_of_worded (worded : u.store.Worded)
    (inside : ∀ e ∈ u.extensions, e.library < u.store.size) :
    u.extendedModules.Nodup ∧ ∀ name ∈ u.extendedModules, name.Worded := by
  have words : ∀ name ∈ u.extensions.map fun e => (u.store.type e.library).home.name,
      name.Worded := by
    intro name hname
    obtain ⟨e, he, rfl⟩ := List.mem_map.1 hname
    exact (worded _ (inside e he)).2
  refine ⟨Value.nodup_distinct fun v hv => ?_, fun name hname =>
    words name (Value.mem_of_mem_distinct hname)⟩
  obtain ⟨word, -, rfl⟩ := Value.eq_text_of_worded (words v hv)
  rfl

/-- Units of different names are apart, where no directory of one is in the way of another. -/
theorem apart_of_wellNamed (bare : '/' ∉ s.fileExtension.plain.toList)
    (wellNamed : WellNamed s.store g) {ids : List TypeId} (nodup : ids.Nodup)
    (known : ∀ id ∈ ids, id < s.store.size) {names : List Name} (different : names.Nodup)
    (words : ∀ name ∈ names, name.Worded) {r : Registry} {outputs : List Target}
    (subset : s.targets r ids names ⊆ outputs)
    (ways : ∀ x ∈ outputs, ∀ y ∈ outputs, ∀ loc ∈ Path.way x.directory, loc ∉ y.places) :
    Target.Apart (s.targets r ids names) := by
  have separate : Target.Separate (s.targets r ids names) :=
    separate_targets bare wellNamed.types nodup known
      (fun i hi j hj differ => .inl fun same =>
        differ (wellNamed.distinct i (known i hi) j (known j hj) same)) different words
  exact ⟨separate.own, separate.others, fun x hx y hy => ways x (subset hx) y (subset hy)⟩

theorem housed_after (policy : Policy) (packaging : Packaging) (fileExtension : Value)
    (workspace : Workspace) (operations : List Operation) :
    Housed (after (fresh policy packaging fileExtension workspace) operations) :=
  ((stepwise_linked.enduring.and stepwise_housed.enduring).after (fun _ h => h.1)
    ⟨linked_fresh policy packaging fileExtension workspace, fun _ hm => absurd hm List.not_mem_nil⟩).2

end ScriptGlue.Session
