import ScriptGlue.Proofs.Files.Rounds
import ScriptGlue.Proofs.Graph.Concatenation
import ScriptGlue.Proofs.Session.Order

/-! # Incremental scans

A session that starts on one document and loads another exports the same types in the same order as
one that starts on both at once, and leaves the same units: those of its first batch are those of the
whole, but for the extension units, which its second batch makes anew.
-/
namespace ScriptGlue.Session
open ScriptGlue.Action

variable {g : Graph} {s₁ t s₂ v s u : Session} {requests₁ requests₂ : List Request}
  {finished₁ finished₂ finished : List TypeId} {name : Name}

/-- Two sessions exported the same types and found the same extension methods, have the same outputs
and ended with the same files, where each unit is settled from the first on. -/
structure SameFiles (C : Setting) (s u v : Session) : Prop where
  exported : v.exported = u.exported
  extensions : v.extensions = u.extensions
  outputs : v.outputs = u.outputs
  units : ∀ id ∈ u.exported, ∃ x, IsUnit C s u.registry id x ∧
    Save.Settled s.workspace.tree u.workspace.tree x ∧
    Save.Settled s.workspace.tree v.workspace.tree x
  modules : ∀ name ∈ u.extendedModules, ∃ x, IsModuleUnit C s u.registry u.extensions name x ∧
    Save.Settled s.workspace.tree u.workspace.tree x ∧
    Save.Settled s.workspace.tree v.workspace.tree x
  files : ∀ x ∈ u.outputs, ∀ loc, Path.location? x.path = some loc →
    v.workspace.tree.fileAt loc = u.workspace.tree.fileAt loc
  others : ∀ loc, LogFile.Off s.workspace.log {loc} → (∀ x ∈ u.outputs, loc ∉ x.places) →
    v.workspace.tree.fileAt loc = u.workspace.tree.fileAt loc

/-- Two batches, the second over a session that has read more types since the first, and a batch over
all these types that asks for what both ask for, begun with the same files and nothing exported. -/
structure Increments (g : Graph) (s₁ t s₂ v s u : Session) (requests₁ requests₂ : List Request)
    (finished₁ finished₂ finished : List TypeId) : Prop where
  early : Twins id (catalogue g) s₁ s
  late : GraphTwins id (catalogue g) s s₂
  wellNamed : WellNamed s.store g
  first : Batched (catalogue g) s₁ requests₁ finished₁ s₁ t
  second : Batched (catalogue g) s₂ requests₂ finished₂ s₂ v
  whole : Batched (catalogue g) s (requests₁ ++ requests₂) finished s u
  ahead : Ahead t v
  exported : s₂.exported = t.exported
  extensions : s₂.extensions = t.extensions
  quiet : t.workspace.Quiet s₂.workspace
  fileExtension : s.fileExtension = s₁.fileExtension
  fileExtension' : s₂.fileExtension = s.fileExtension
  workspace : s₁.workspace = s.workspace
  begun : s₁.exported = [] ∧ s₁.extensions = []
  begun' : s.exported = [] ∧ s.extensions = []

namespace Increments
variable (h : Increments g s₁ t s₂ v s u requests₁ requests₂ finished₁ finished₂ finished)
include h

theorem walked : finished = finished₁ ++ finished₂ ∧ v.exported = u.exported := by
  have first := (h.first.walk trivial).grown (h.early.toMirrors.grown_trans h.late.toMirrors)
    (by simp [h.begun.1])
  have second := h.second.walk trivial
  have whole := (h.whole.walk trivial).grown h.late.toMirrors (by simp [h.begun'.1])
  rw [h.begun.1] at first
  rw [h.exported] at second
  rw [h.begun'.1] at whole
  obtain ⟨after, finishes⟩ := whole.unique (first.append second)
  exact ⟨finishes, after.symm⟩

theorem known₁ : ∀ id ∈ finished₁, id < s₁.store.size := fun id hid =>
  ((h.first.walk trivial).lt_size (by simp [h.begun.1])).2 id ((h.first.marked id).2 (.inr hid))

theorem known : ∀ id ∈ finished, id < s.store.size := fun id hid =>
  ((h.whole.walk trivial).lt_size (by simp [h.begun'.1])).2 id ((h.whole.marked id).2 (.inr hid))

theorem known₂ : ∀ id ∈ finished₂, id < s.store.size := fun id hid =>
  h.known id (h.walked.1 ▸ List.mem_append_right _ hid)

theorem mem_exported {id : TypeId} : id ∈ u.exported ↔ id ∈ finished := by
  simp [h.whole.marked, h.begun'.1]

theorem methods : v.extensions = u.extensions := by
  rw [h.second.extensions, h.extensions, h.first.extensions, h.begun.2, h.whole.extensions,
    h.begun'.2, List.nil_append, List.nil_append, h.walked.1, List.flatMap_append]
  congr 1
  · refine List.flatMap_congr fun id hid => ?_
    rw [← ExtensionMethod.map_relocate_id (s₁.methodsOf id)]
    exact (h.early.toMirrors.methodsOf (h.known₁ id hid)).symm
  · refine List.flatMap_congr fun id hid => ?_
    rw [← ExtensionMethod.map_relocate_id (s.methodsOf id)]
    exact h.late.toMirrors.methodsOf (h.known₂ id hid)

theorem inside : ∀ e ∈ u.extensions, e.Inside s.store := by
  intro e he
  rw [h.whole.extensions, h.begun'.2, List.nil_append] at he
  obtain ⟨id, hid, he⟩ := List.mem_flatMap.1 he
  exact inside_of_mem_methodsOf h.late.embeds.linked (h.known id hid) he

theorem extended : v.extendedModules = u.extendedModules := by
  rw [extendedModules, extendedModules, h.methods, h.second.during.rules.2, h.whole.during.rules.2]
  refine congrArg _ (List.map_congr_left fun e he => ?_)
  rw [← Mirrors.type_eq h.late.toMirrors (h.inside e he).library]

theorem words : u.extendedModules.Nodup ∧ ∀ name ∈ u.extendedModules, name.Worded :=
  extendedModules_of_worded (h.whole.during.rules.2 ▸ h.wellNamed.types) fun e he =>
    h.whole.during.rules.2 ▸ (h.inside e he).library

theorem self : GraphTwins id (catalogue g) s s where
  policy := rfl
  embeds := ((SameRules.refl s).grown h.late.embeds.linked).embeds
  exact := trivial
  packaging := rfl
  knows := h.late.knows
  knows' := h.late.knows
  named := h.late.named
  found _ := (Option.map_id_apply).symm
  inside := h.late.inside
  world := h.late.world
  world' := h.late.world

theorem isUnit₁ {id : TypeId} (hid : id ∈ finished₁) {x : Save}
    (unit : IsUnit (catalogue g) s₁ t.registry id x) : IsUnit (catalogue g) s u.registry id x := by
  obtain ⟨y, whole⟩ := h.whole.isUnit id (h.walked.1 ▸ List.mem_append_left _ hid)
  obtain rfl := h.early.isUnit_same h.first.during h.whole.during h.fileExtension (h.known₁ id hid)
    unit whole
  exact whole

theorem isUnit₂ {id : TypeId} (hid : id ∈ finished₂) {x : Save}
    (unit : IsUnit (catalogue g) s₂ v.registry id x) : IsUnit (catalogue g) s u.registry id x := by
  obtain ⟨y, whole⟩ := h.whole.isUnit id (h.walked.1 ▸ List.mem_append_right _ hid)
  obtain rfl := h.late.isUnit_same h.whole.during h.second.during h.fileExtension' (h.known₂ id hid)
    whole unit
  exact whole

theorem isUnit_unique {id : TypeId} (hid : id ∈ finished) {x y : Save}
    (hx : IsUnit (catalogue g) s u.registry id x) (hy : IsUnit (catalogue g) s u.registry id y) :
    x = y :=
  h.self.isUnit_same h.whole.during h.whole.during rfl (h.known id hid) hx hy

section
variable (hname : name ∈ u.extendedModules)
include hname

theorem home : ∃ home, (catalogue g).modules home ∧ home.name = name := by
  obtain ⟨e, -, named⟩ := List.mem_map.1 (Value.mem_of_mem_distinct hname)
  rw [h.whole.during.rules.2] at named
  exact ⟨_, h.late.knows.home e.library, named⟩

theorem isModuleUnit {x : Save}
    (unit : IsModuleUnit (catalogue g) s₂ v.registry v.extensions name x) :
    IsModuleUnit (catalogue g) s u.registry u.extensions name x := by
  obtain ⟨y, whole⟩ := h.whole.isModuleUnit name hname
  obtain ⟨home, known, named⟩ := h.home hname
  obtain rfl := h.late.isModuleUnit_eq h.whole.during h.second.during h.fileExtension' known named
    h.inside ((ExtensionMethod.map_relocate_id _).trans h.methods.symm) whole unit
  exact whole

theorem isModuleUnit_unique {x y : Save}
    (hx : IsModuleUnit (catalogue g) s u.registry u.extensions name x)
    (hy : IsModuleUnit (catalogue g) s u.registry u.extensions name y) : x = y := by
  obtain ⟨home, known, named⟩ := h.home hname
  exact h.self.isModuleUnit_eq h.whole.during h.whole.during rfl known named h.inside
    (ExtensionMethod.map_relocate_id _) hx hy

end

/-- The modules that the first batch finds methods for are the first of all. -/
theorem extended_grows : t.extendedModules <+: u.extendedModules := by
  obtain ⟨more, joined⟩ := h.ahead.extensions
  rw [← h.extended, extendedModules, extendedModules, ← joined, List.map_append]
  have same : (t.extensions.map fun e => (v.store.type e.library).home.name) =
      t.extensions.map fun e => (t.store.type e.library).home.name := by
    refine List.map_congr_left fun e he => ?_
    rw [h.ahead.grown.type_eq]
    rw [h.first.extensions, h.begun.2, List.nil_append] at he
    obtain ⟨id, hid, he⟩ := List.mem_flatMap.1 he
    rw [library_of_mem_methodsOf he, h.first.during.rules.2]
    exact h.known₁ id hid
  rw [same]
  exact Value.distinct_grows _ _

/-- Where an extension unit of the first batch goes, that of the second goes. -/
theorem moduleTarget?_later {x : Target} (placed : s₁.moduleTarget? t.registry name = some x) :
    s₂.moduleTarget? v.registry name = some x := by
  rw [← moduleTarget?_of_during h.first.during] at placed
  rw [← moduleTarget?_of_during h.second.during]
  exact h.ahead.moduleTarget? placed

theorem outputs : v.outputs = u.outputs := by
  have types : u.exported.filterMap (v.typeTarget? v.registry) =
      u.exported.filterMap (u.typeTarget? u.registry) := by
    refine List.filterMap_congr fun id hid => ?_
    have hid := h.mem_exported.1 hid
    rw [h.walked.1] at hid
    obtain hid | hid := List.mem_append.1 hid
    · obtain ⟨x, unit⟩ := h.first.isUnit id hid
      have inside : id < t.store.size := h.first.during.rules.2 ▸ h.known₁ id hid
      have placed : t.typeTarget? t.registry id = some x.toTarget :=
        (typeTarget?_of_during h.first.during _ _).trans unit.target
      rw [h.ahead.typeTarget? inside placed, typeTarget?_of_during h.whole.during,
        (h.isUnit₁ hid unit).target]
    · obtain ⟨x, unit⟩ := h.second.isUnit id hid
      rw [typeTarget?_of_during h.second.during, typeTarget?_of_during h.whole.during, unit.target,
        (h.isUnit₂ hid unit).target]
  have modules : u.extendedModules.filterMap (v.moduleTarget? v.registry) =
      u.extendedModules.filterMap (u.moduleTarget? u.registry) := by
    refine List.filterMap_congr fun name hname => ?_
    obtain ⟨x, unit⟩ := h.second.isModuleUnit name (h.extended.symm ▸ hname)
    rw [moduleTarget?_of_during h.second.during, moduleTarget?_of_during h.whole.during, unit.target,
      (h.isModuleUnit hname unit).target]
  rw [Session.outputs, Session.outputs, Session.targets, Session.targets, h.walked.2, h.extended, types,
    modules]

section
variable (bare : '/' ∉ s.fileExtension.plain.toList)
  (ways : ∀ x ∈ u.outputs, ∀ y ∈ u.outputs, ∀ loc ∈ Path.way x.directory, loc ∉ y.places)
include bare ways

theorem apart : Target.Apart (s.targets u.registry finished u.extendedModules) :=
  apart_of_wellNamed bare h.wellNamed h.whole.nodup h.known h.words.1 h.words.2
    (targets_subset_outputs h.whole.during fun _ hid => h.mem_exported.2 hid) ways

theorem rounds {more : Set Location} (pending : s.workspace.pending = [])
    (off : LogOff s.workspace.log u.outputs) (away : LogFile.Off s.workspace.log more) :
    ∃ early preview late shared,
      Save.Rounds ({loc | ∃ x ∈ u.outputs, loc ∈ x.places} ∪ more) early preview late shared
        s.workspace s₂.workspace v.workspace ∧
      List.Forall₂ (IsUnit (catalogue g) s u.registry) finished (early ++ late) ∧
      List.Forall₂ (IsModuleUnit (catalogue g) s u.registry u.extensions) u.extendedModules shared := by
  obtain ⟨early, preview, w, n, m, ofType, ofModule, saves, commit, quiet⟩ := h.first.output
  obtain ⟨late, shared, w', n', m', ofType', ofModule', saves', commit', quiet'⟩ := h.second.output
  have units : List.Forall₂ (IsUnit (catalogue g) s u.registry) finished (early ++ late) := by
    rw [h.walked.1]
    refine List.rel_append (((List.forall₂_and_left _ _).2 ⟨fun _ hid => hid, ofType⟩).imp ?_)
      (((List.forall₂_and_left _ _).2 ⟨fun _ hid => hid, ofType'⟩).imp ?_)
    · exact fun _ _ ⟨hid, unit⟩ => h.isUnit₁ hid unit
    · exact fun _ _ ⟨hid, unit⟩ => h.isUnit₂ hid unit
  have modules : List.Forall₂ (IsModuleUnit (catalogue g) s u.registry u.extensions)
      u.extendedModules shared :=
    ((List.forall₂_and_left _ _).2 ⟨fun _ hname => hname, h.extended ▸ ofModule'⟩).imp
      fun _ _ ⟨hname, unit⟩ => h.isModuleUnit hname unit
  have targets : (early ++ late ++ shared).map Save.toTarget =
      s.targets u.registry finished u.extendedModules := by
    rw [List.map_append, map_toTarget units fun _ _ h => h.target,
      map_toTarget modules fun _ _ h => h.target]
    rfl
  have outputs := targets_subset_outputs h.whole.during fun _ hid => h.mem_exported.2 hid
  refine ⟨early, preview, late, shared, ⟨pending, ⟨w, n, m, h.workspace ▸ saves, commit,
    quiet.trans h.quiet⟩, ⟨w', n', m', saves', commit', quiet'⟩, ?_, ?_, fun x hx loc hloc => ?_,
    off.union away⟩, units, modules⟩
  · rw [map_toTarget ofModule fun _ _ unit => h.moduleTarget?_later unit.target,
      map_toTarget ofModule' fun _ _ unit => unit.target, h.extended]
    exact h.extended_grows.sublist.filterMap _
  · rw [Save.Apart, targets]
    exact h.apart bare ways
  · exact .inl ⟨x.toTarget, outputs (targets ▸ List.mem_map_of_mem hx), hloc⟩

/-- The unit of a finished type is settled by the whole and by the increments. -/
theorem units (pending : s.workspace.pending = []) (off : LogOff s.workspace.log u.outputs)
    (housed : Housed u) : (∀ id ∈ finished, ∃ x, IsUnit (catalogue g) s u.registry id x ∧ x.Bare ∧
        Save.Settled s.workspace.tree u.workspace.tree x ∧
        Save.Settled s.workspace.tree v.workspace.tree x) ∧
      ∀ name ∈ u.extendedModules, ∃ x,
        IsModuleUnit (catalogue g) s u.registry u.extensions name x ∧ x.Bare ∧
        Save.Settled s.workspace.tree u.workspace.tree x ∧
        Save.Settled s.workspace.tree v.workspace.tree x := by
  have wrote := h.whole.wrote pending (h.apart bare ways)
    (off.subset (targets_subset_outputs h.whole.during fun _ hid => h.mem_exported.2 hid))
  have nowhere : LogFile.Off s.workspace.log ∅ := fun _ _ _ _ _ hother => absurd hother id
  obtain ⟨early, preview, late, shared, rounds, ofType, ofModule⟩ :=
    h.rounds bare ways pending off nowhere
  have typeBare {id : TypeId} (hid : id ∈ finished) {x : Save}
      (unit : IsUnit (catalogue g) s u.registry id x) : x.Bare :=
    bare_of_typeTarget? housed bare (h.wellNamed.types id (h.known id hid)).1 unit.target
  have moduleBare {name : Name} (hname : name ∈ u.extendedModules) {x : Save}
      (unit : IsModuleUnit (catalogue g) s u.registry u.extensions name x) : x.Bare :=
    bare_of_moduleTarget? housed bare (h.words.2 name hname) unit.target
  have settled := rounds.settled fun x hx => by
    obtain hx | hx := List.mem_append.1 hx
    · obtain ⟨id, hid, unit⟩ := exists_of_forall₂ ofType.flip hx
      exact typeBare hid unit
    · obtain ⟨name, hname, unit⟩ := exists_of_forall₂ ofModule.flip hx
      exact moduleBare hname unit
  refine ⟨fun id hid => ?_, fun name hname => ?_⟩
  · obtain ⟨x, unit, before⟩ := wrote.units id hid
    obtain ⟨y, hy, unit'⟩ := exists_of_forall₂ ofType hid
    obtain rfl := h.isUnit_unique hid unit unit'
    exact ⟨x, unit, typeBare hid unit, before, settled x (List.mem_append_left _ hy)⟩
  · obtain ⟨x, unit, before⟩ := wrote.modules name hname
    obtain ⟨y, hy, unit'⟩ := exists_of_forall₂ ofModule hname
    obtain rfl := h.isModuleUnit_unique hname unit unit'
    exact ⟨x, unit, moduleBare hname unit, before, settled x (List.mem_append_right _ hy)⟩

theorem sameFiles (pending : s.workspace.pending = []) (off : LogOff s.workspace.log u.outputs)
    (housed : Housed u) : SameFiles (catalogue g) s u v := by
  obtain ⟨units, modules⟩ := h.units bare ways pending off housed
  refine ⟨h.walked.2, h.methods, h.outputs, fun id hid => ?_, fun name hname => ?_,
    fun x hx loc located => ?_, fun loc away outside => ?_⟩
  · obtain ⟨x, unit, -, settled⟩ := units id (h.mem_exported.1 hid)
    exact ⟨x, unit, settled⟩
  · obtain ⟨x, unit, -, settled⟩ := modules name hname
    exact ⟨x, unit, settled⟩
  · obtain hx | hx := List.mem_append.1 hx
    · obtain ⟨id, hid, placed⟩ := List.mem_filterMap.1 hx
      rw [typeTarget?_of_during h.whole.during] at placed
      obtain ⟨y, unit, bare, settled, settled'⟩ := units id (h.mem_exported.1 hid)
      obtain rfl := Option.some_inj.1 (unit.target.symm.trans placed)
      exact settled'.same bare settled located
    · obtain ⟨name, hname, placed⟩ := List.mem_filterMap.1 hx
      rw [moduleTarget?_of_during h.whole.during] at placed
      obtain ⟨y, unit, bare, settled, settled'⟩ := modules name hname
      obtain rfl := Option.some_inj.1 (unit.target.symm.trans placed)
      exact settled'.same bare settled located
  · have subset := targets_subset_outputs h.whole.during fun _ hid => h.mem_exported.2 hid
    have wrote := h.whole.wrote pending (h.apart bare ways) (off.subset subset)
    obtain ⟨early, preview, late, shared, rounds, ofType, ofModule⟩ :=
      h.rounds bare ways pending off away
    rw [wrote.others loc away fun x hx => outside x (subset hx)]
    refine rounds.others loc (.inr rfl) fun x hx there => ?_
    refine outside x.toTarget ?_ there
    obtain hx | hx := List.mem_append.1 hx
    · obtain ⟨id, hid, unit⟩ := exists_of_forall₂ ofType.flip hx
      exact subset (List.mem_append_left _ (List.mem_filterMap.2 ⟨id, hid, unit.target⟩))
    · obtain ⟨name, hname, unit⟩ := exists_of_forall₂ ofModule.flip hx
      exact subset (List.mem_append_right _ (List.mem_filterMap.2 ⟨name, hname, unit.target⟩))

end

end Increments

end ScriptGlue.Session
