import ScriptGlue.Proofs.Files.Revisions
import ScriptGlue.Proofs.Session.Runs

/-! # Revisions of a type

Types of one name in one module share the file of their units. What a batch leaves there is decided
by the order in which it finished them, not by which of them is the newest, and what a run leaves
there by its last batch that changed it.
-/
namespace ScriptGlue.Session
open ScriptGlue.Action

variable {s t u v : Session} {id : TypeId} {x : Target}

def namesakes (s : Session) (id : TypeId) (ids : List TypeId) : List TypeId :=
  ids.filter fun other => (s.store.type other).name = (s.store.type id).name

section
variable (orderly : u.Orderly) (hid : id ∈ u.exported)
  (placed : u.typeTarget? u.registry id = some x)
include orderly hid placed

theorem clean_of_orderly (text : String) : Save.Clean { x with text } := by
  obtain ⟨word, isWord, named⟩ := Value.eq_text_of_worded (orderly.types id hid)
  have isFile := isFile_of_typeTarget? orderly.bare isWord named placed
  have output : x ∈ u.outputs := List.mem_append_left _ (List.mem_filterMap.2 ⟨id, hid, placed⟩)
  refine ⟨?_, ?_, fun loc => isFile.own, orderly.ways x output x output⟩
  · show x.filename ≠ ""
    rw [isFile.filename]
    exact (isFile.bare false).2
  · show '/' ∉ x.filename.toList
    rw [isFile.filename]
    exact (isFile.bare false).1

/-- If they are of one module, the types of one name are those with this target. -/
theorem target_eq_iff (together : ∀ other ∈ u.exported,
      (u.store.type other).name = (u.store.type id).name →
        (u.store.type other).home.name = (u.store.type id).home.name)
    {other : TypeId} (hother : other ∈ u.exported) {y : Target}
    (placed' : u.typeTarget? u.registry other = some y) :
    y = x ↔ (u.store.type other).name = (u.store.type id).name := by
  constructor
  · rintro rfl
    obtain ⟨v, isWord, named⟩ := Value.eq_text_of_worded (orderly.types id hid)
    obtain ⟨w, isWord', named'⟩ := Value.eq_text_of_worded (orderly.types other hother)
    have same := (isFile_of_typeTarget? orderly.bare isWord named placed).filename.symm.trans
      (isFile_of_typeTarget? orderly.bare isWord' named' placed').filename
    rw [named, named', (unitName_inj isWord isWord' (congrArg Path.listed same)).1]
  · intro same
    have : u.typeTarget? u.registry other = u.typeTarget? u.registry id := by
      unfold typeTarget? unitFile TypeNode.label
      rw [together other hother same, same]
    exact Option.some.inj (placed'.symm.trans (this.trans placed))

theorem module_target_ne {name : Name} (hname : name ∈ u.extendedModules) {y : Target}
    (placed' : u.moduleTarget? u.registry name = some y) : y ≠ x := by
  rintro rfl
  obtain ⟨v, isWord, named⟩ := Value.eq_text_of_worded (orderly.types id hid)
  obtain ⟨w, isWord', rfl⟩ := Value.eq_text_of_worded (orderly.worded hname)
  have same := (isFile_of_typeTarget? orderly.bare isWord named placed).filename.symm.trans
    (isFile_of_moduleTarget? orderly.bare isWord' placed').filename
  have kinds := (unitName_inj isWord isWord' (congrArg Path.listed same)).2.1
  cases kinds

/-- The units with other targets, and the extension units, keep off this one. -/
theorem gathered_of_orderly {saves : List Save} (outputs : ∀ y ∈ saves, y.toTarget ∈ u.outputs)
    (together : ∀ other ∈ u.exported, (u.store.type other).name = (u.store.type id).name →
        (u.store.type other).home.name = (u.store.type id).home.name) (text : String) :
    Save.Gathered { x with text } saves := by
  intro y hy differs
  obtain ⟨word, isWord, named⟩ := Value.eq_text_of_worded (orderly.types id hid)
  have isFile := isFile_of_typeTarget? orderly.bare isWord named placed
  have output : x ∈ u.outputs := List.mem_append_left _ (List.mem_filterMap.2 ⟨id, hid, placed⟩)
  refine aloof_of_disjoint ?_ (orderly.ways x output _ (outputs y hy))
  obtain hy | hy := List.mem_append.1 (outputs y hy)
  · obtain ⟨other, hother, placed'⟩ := List.mem_filterMap.1 hy
    obtain ⟨word', isWord', named'⟩ := Value.eq_text_of_worded (orderly.types other hother)
    refine isFile.disjoint (isFile_of_typeTarget? orderly.bare isWord' named' placed')
      (.inr (.inl fun same => differs ?_))
    exact (target_eq_iff orderly hid placed together hother placed').2 (by rw [named, named', same])
  · obtain ⟨name, hname, placed'⟩ := List.mem_filterMap.1 hy
    obtain ⟨word', isWord', rfl⟩ := Value.eq_text_of_worded (orderly.worded hname)
    exact isFile.disjoint (isFile_of_moduleTarget? orderly.bare isWord' placed')
      (.inr (.inr (by decide)))

end

theorem forall₂_sharing {R : TypeId → Save → Prop} {P : TypeId → Bool} {ids : List TypeId}
    {saves : List Save} (h : List.Forall₂ R ids saves)
    (iff : ∀ id ∈ ids, ∀ y, R id y → (y.toTarget = x ↔ P id = true)) :
    List.Forall₂ R (ids.filter P) (Save.sharing x saves) := by
  unfold Save.sharing
  induction h with
  | nil => exact .nil
  | @cons id y ids saves first _ ih =>
    have rest := ih fun other hother => iff other (List.mem_cons_of_mem _ hother)
    have here := iff id List.mem_cons_self y first
    by_cases same : y.toTarget = x
    · rw [List.filter_cons_of_pos (here.1 same), List.filter_cons_of_pos (by simpa using same)]
      exact .cons first rest
    · rw [List.filter_cons_of_neg fun named => same (here.2 named),
        List.filter_cons_of_neg (by simpa using same)]
      exact rest

/-- What a batch does to the file of the types of one name is what the saves of those it finished
do, in the order in which it finished them. -/
theorem Batched.turns {requests : List Request} {finished : List TypeId} {w : Workspace}
    (h : Batched anyModule v requests finished v t) (ht : Rooted t) (ahead : Ahead t u)
    (orderly : u.Orderly) (hid : id ∈ u.exported) (placed : u.typeTarget? u.registry id = some x)
    (together : ∀ other ∈ u.exported, (u.store.type other).name = (u.store.type id).name →
      (u.store.type other).home.name = (u.store.type id).home.name)
    (quiet : w.Quiet v.workspace) (pending : w.pending = []) (off : LogOff w.log u.outputs) :
    t.workspace.log = w.log ∧ ∃ saves,
      List.Forall₂ (IsUnit anyModule v t.registry) (u.namesakes id finished) saves ∧
        Save.Turns x w.tree t.workspace.tree saves := by
  obtain ⟨units, modules, f, n, c, isUnit, isModule, saves, commit, quiet'⟩ := h.output
  have saves : Save.Saves (units ++ modules) w f := (Save.Saves.quiet quiet).append saves
  have inside : ∀ other ∈ finished, other ∈ t.exported := fun other hother =>
    (h.marked other).2 (.inr hother)
  have target {other : TypeId} (hother : other ∈ finished) {y : Save}
      (unit : IsUnit anyModule v t.registry other y) :
      u.typeTarget? u.registry other = some y.toTarget :=
    ahead.typeTarget? (ht.sound.exported other (inside other hother))
      ((typeTarget?_of_during h.during _ _).trans unit.target)
  have moduleTarget {name : Name} {y : Save}
      (unit : IsModuleUnit anyModule v t.registry t.extensions name y) :
      u.moduleTarget? u.registry name = some y.toTarget := by
    refine ahead.moduleTarget? ?_
    have placed := unit.target
    unfold moduleTarget? at placed ⊢
    rw [h.during.fileExtension]
    exact placed
  have outputs : ∀ y ∈ units ++ modules, y.toTarget ∈ u.outputs := by
    intro y hy
    obtain hy | hy := List.mem_append.1 hy
    · obtain ⟨other, hother, unit⟩ := exists_of_forall₂ isUnit.flip hy
      exact List.mem_append_left _ (List.mem_filterMap.2
        ⟨other, ahead.exported (inside other hother), target hother unit⟩)
    · obtain ⟨name, hname, unit⟩ := exists_of_forall₂ isModule.flip hy
      exact List.mem_append_right _ (List.mem_filterMap.2
        ⟨name, ahead.extendedModules ht orderly hname, moduleTarget unit⟩)
  have output : x ∈ u.outputs := List.mem_append_left _ (List.mem_filterMap.2 ⟨id, hid, placed⟩)
  have places : ∀ y ∈ units ++ modules, y.places ⊆ {loc | ∃ y ∈ u.outputs, loc ∈ y.places} :=
    fun y hy loc hloc => ⟨y.toTarget, outputs y hy, hloc⟩
  have log : c.log = w.log := saves.commit_log pending places off commit
  refine ⟨quiet'.rested.log.trans log, Save.sharing x units, forall₂_sharing isUnit ?_, ?_⟩
  · intro other hother y unit
    rw [decide_eq_true_iff]
    exact target_eq_iff orderly hid placed together (ahead.exported (inside other hother))
      (target hother unit)
  · have alone : Save.sharing x (units ++ modules) = Save.sharing x units := by
      unfold Save.sharing
      rw [List.filter_append, List.append_right_eq_self, List.filter_eq_nil_iff]
      intro y hy
      obtain ⟨name, hname, unit⟩ := exists_of_forall₂ isModule.flip hy
      simpa using module_target_ne orderly hid placed (ahead.extendedModules ht orderly hname)
        (moduleTarget unit)
    have turns := saves.commit_turns pending (clean_of_orderly orderly hid placed "")
      (gathered_of_orderly orderly hid placed outputs together "") (off_of_mem off output) commit
    rw [alone] at turns
    refine turns.of_file (fun y hy => (Save.mem_sharing.1 hy).2) fun loc located => ?_
    exact quiet'.rested.files loc fun file hfile at_ hat other hother =>
      off_of_mem off output file (log ▸ hfile) at_ hat other (.inl (hother ▸ located))

/-- Types in the order in which a run finished them, and what it made of the file at their place:
batch by batch, what the saves of those that the batch finished do to the file they found. -/
inductive Succession (u : Session) (x : Target) : List TypeId → FileTree → FileTree → Prop
  | nil (t : FileTree) : Succession u x [] t t
  | batch {v : Session} {r : Registry} {ids rest : List TypeId} {saves : List Save}
      {before mid after : FileTree} (earlier : Ahead v u)
      (made : List.Forall₂ (IsUnit anyModule v r) ids saves) (turns : Save.Turns x before mid saves)
      (later : Succession u x rest mid after) : Succession u x (ids ++ rest) before after

theorem Succession.append {ids rest : List TypeId} {before mid after : FileTree}
    (h : Succession u x ids before mid) (g : Succession u x rest mid after) :
    Succession u x (ids ++ rest) before after := by
  induction h with
  | nil t => exact g
  | batch earlier made turns _ ih =>
    rw [List.append_assoc]
    exact .batch earlier made turns (ih g)

/-- The types of this one's name that were exported from one session to another, in some order. -/
structure Exported (id : TypeId) (s t u : Session) (ids : List TypeId) : Prop where
  nodup : ids.Nodup
  mem : ∀ other, other ∈ ids ↔
    (other ∈ t.exported ∧ other ∉ s.exported) ∧ (u.store.type other).name = (u.store.type id).name

theorem Exported.append {ids rest : List TypeId} (h : Exported id s t u ids)
    (g : Exported id t v u rest) (first : s.exported ⊆ t.exported) (later : t.exported ⊆ v.exported) :
    Exported id s v u (ids ++ rest) where
  nodup := List.nodup_append'.2 ⟨h.nodup, g.nodup, fun other hids hrest =>
    ((g.mem other).1 hrest).1.2 ((h.mem other).1 hids).1.1⟩
  mem other := by
    rw [List.mem_append, h.mem, g.mem]
    have first := @first other
    have later := @later other
    tauto

section
variable (orderly : u.Orderly) (hid : id ∈ u.exported)
  (placed : u.typeTarget? u.registry id = some x)
  (together : ∀ other ∈ u.exported, (u.store.type other).name = (u.store.type id).name →
    (u.store.type other).home.name = (u.store.type id).home.name)
include orderly hid placed together

theorem Trigger.run_succession {trigger : Trigger} {asked : Asked} (hs : Rooted s)
    (h : trigger.run s = (.ok asked, t)) (ahead : Ahead t u) (off : LogOff s.workspace.log u.outputs) :
    t.workspace.log = s.workspace.log ∧ ∃ ids, Exported id s t u ids ∧
      Succession u x ids s.workspace.tree t.workspace.tree := by
  obtain ⟨before, rooted⟩ := Trigger.run_ahead hs h
  obtain ⟨v, prepared, ⟨rfl, same⟩ | ⟨requests, finished, batched⟩⟩ := Trigger.run_prepared hs.sound h
  · refine ⟨by rw [same], [], ⟨.nil, fun other => ?_⟩, same ▸ .nil _⟩
    rw [prepared.exported]
    simp
  · have linked : v.store.Linked := batched.during.rules.2 ▸ rooted.sound.linked
    obtain ⟨log, saves, made, turns⟩ := batched.turns rooted ahead orderly hid placed together
      prepared.quiet hs.pending off
    refine ⟨log, u.namesakes id finished, ⟨batched.nodup.filter _, fun other => ?_⟩, ?_⟩
    · have fresh := batched.fresh other
      rw [namesakes, List.mem_filter, decide_eq_true_iff, batched.marked, prepared.exported] at *
      tauto
    · rw [← List.append_nil (u.namesakes id finished)]
      exact .batch ((batched.ahead linked).trans ahead) made turns (.nil _)

theorem Trigger.mapM_succession {triggers : List Trigger} {asked : List Asked} (hs : Rooted s)
    (h : triggers.mapM Trigger.run s = (.ok asked, t)) (ahead : Ahead t u)
    (off : LogOff s.workspace.log u.outputs) :
    ∃ ids, Exported id s t u ids ∧ Succession u x ids s.workspace.tree t.workspace.tree := by
  induction triggers generalizing s asked with
  | nil =>
    obtain ⟨-, rfl⟩ := pure_eq_ok.1 h
    exact ⟨[], ⟨.nil, fun other => by simp⟩, .nil _⟩
  | cons trigger triggers ih =>
    rw [List.mapM_cons] at h
    obtain ⟨first, v, hfirst, h⟩ := bind_eq_ok.1 h
    obtain ⟨rest, w, hrest, h⟩ := bind_eq_ok.1 h
    obtain ⟨-, rfl⟩ := pure_eq_ok.1 h
    obtain ⟨step, rooted⟩ := Trigger.run_ahead hs hfirst
    obtain ⟨run, -⟩ := Trigger.mapM_ahead rooted hrest
    obtain ⟨log, ids, exported, turns⟩ := Trigger.run_succession orderly hid placed together hs hfirst
      (run.trans ahead) off
    obtain ⟨ids', exported', turns'⟩ := ih rooted hrest (log ▸ off)
    exact ⟨ids ++ ids', exported.append exported' step.exported run.exported, turns.append turns'⟩

end

/-- If the exported types of one name are of one module, what a run of a fresh session makes of
their file is told by the order in which it finished them: in each batch the file becomes the unit of
the last one that differs from what the file held before the batch, and stays if there is none. -/
theorem unit_file_of_revisions {policy : Policy} {packaging : Packaging} {fileExtension : Value}
    {workspace : Workspace} {triggers : List Trigger} {asked : List Asked}
    (pending : workspace.pending = [])
    (run : triggers.mapM Trigger.run (fresh policy packaging fileExtension workspace) = (.ok asked, u))
    (orderly : u.Orderly) (off : LogOff workspace.log u.outputs) (hid : id ∈ u.exported)
    (placed : u.typeTarget? u.registry id = some x)
    (together : ∀ other ∈ u.exported, (u.store.type other).name = (u.store.type id).name →
      (u.store.type other).home.name = (u.store.type id).home.name) :
    ∃ revisions : List TypeId, revisions.Nodup ∧ (∀ other, other ∈ revisions ↔
        other ∈ u.exported ∧ (u.store.type other).name = (u.store.type id).name) ∧
      Succession u x revisions workspace.tree u.workspace.tree := by
  have rooted := rooted_fresh policy packaging fileExtension pending
  obtain ⟨-, ended⟩ := Trigger.mapM_ahead rooted run
  obtain ⟨ids, exported, turns⟩ := Trigger.mapM_succession orderly hid placed together rooted run
    ⟨SameRules.grown (.refl u) ended.sound.linked, List.Subset.refl _, List.prefix_rfl,
      List.prefix_rfl, rfl⟩ off
  refine ⟨ids, exported.nodup, fun other => ?_, turns⟩
  rw [exported.mem]
  simp

/-- An older and a newer enum of one name, after a struct that holds the newer. -/
def revisedDocument : Value :=
  .object [("types", .list [
    .object [("kind", .text "struct"), ("name", .text "S"), ("module", .text "M"),
      ("flags", .list [.text "blueprint_type"]),
      ("properties", .list [.object [("name", .text "P"), ("kind", .text "enum"),
        ("type", .text "N"), ("flags", .list [.text "blueprint_visible"])]])],
    .object [("kind", .text "enum"), ("name", .text "N"), ("module", .text "M"),
      ("entries", .list [.text "Old"])],
    .object [("kind", .text "enum"), ("name", .text "N"), ("module", .text "M"),
      ("entries", .list [.text "New"])]])]

abbrev revisedSession : Session := fresh {} { scriptsDir := .text "out" } (.text ".cs") {}

def revisionUnit (entry : String) : EnumUnit :=
  { space := "UnrealSharp.M", name := "N", underlying := "byte", values := [(entry, 0)] }

abbrev revisedUnit : Target := { directory := "out", filename := "N.generated.cs" }

abbrev revisedUnits : List Target :=
  [revisedUnit, revisedUnit, { directory := "out", filename := "S.generated.cs" }]

theorem revisedSession_runs : (readGraph revisedDocument).gives revisedSession fun g s =>
    g.find? s.store (.text "N") == some 2 && (s.store.type 2).name == .text "N" &&
      (match (s.store.type 2).body with
        | .enum [.text "New"] underlying => underlying == .text "uint8"
        | _ => false) &&
      (start (some g)).gives s fun _ u => u.exported == [1, 2, 0] && u.extensions.isEmpty &&
        u.fileExtension == .text ".cs" && u.outputs == revisedUnits &&
        u.typeTarget? u.registry 2 == some revisedUnit &&
        decide (∀ id ∈ u.exported, (u.store.type id).name.Worded) &&
        decide (∀ id ∈ u.exported, (u.store.type id).home.name = .text "M") &&
        u.workspace.log.isNone && u.workspace.pending.isEmpty &&
        u.workspace.tree.fileAt ["out", "N.generated.cs"] ==
          some (.text (revisionUnit "Old").code.text) := by
  rw [start_eq_direct]
  decide +kernel

structure Revised (g : Graph) (s u : Session) : Prop where
  read : readGraph revisedDocument revisedSession = (.ok g, s)
  start : start (some g) s = (.ok (), u)
  newest : g.find? s.store (.text "N") = some 2
  exported : u.exported = [1, 2, 0]
  extensions : u.extensions = []
  fileExtension : u.fileExtension = .text ".cs"
  outputs : u.outputs = revisedUnits
  placed : u.typeTarget? u.registry 2 = some revisedUnit
  types : ∀ id ∈ u.exported, (u.store.type id).name.Worded
  homes : ∀ id ∈ u.exported, (u.store.type id).home.name = .text "M"
  log : u.workspace.log = none
  pending : u.workspace.pending = []
  file : u.workspace.tree.fileAt ["out", "N.generated.cs"] =
    some (.text (revisionUnit "Old").code.text)
  named : (s.store.type 2).name = .text "N"
  body : (s.store.type 2).body = .enum [.text "New"] (.text "uint8")

theorem revised : ∃ g s u, Revised g s u := by
  obtain ⟨g, s, hread, runs⟩ := exists_of_gives revisedSession_runs
  simp only [Bool.and_eq_true, beq_iff_eq] at runs
  obtain ⟨⟨⟨newest, named⟩, body⟩, runs⟩ := runs
  split at body
  · next underlying hbody =>
    obtain rfl := beq_iff_eq.1 body
    obtain ⟨_, u, hstart, runs⟩ := exists_of_gives runs
    simp only [Bool.and_eq_true, beq_iff_eq, decide_eq_true_eq, List.isEmpty_iff,
      Option.isNone_iff_eq_none] at runs
    obtain ⟨⟨⟨⟨⟨⟨⟨⟨⟨exported, methods⟩, extension⟩, outputs⟩, placed⟩, types⟩, homes⟩, log⟩, pending⟩,
      file⟩ := runs
    exact ⟨g, s, u, hread, hstart, newest, exported, methods, extension, outputs, placed, types,
      homes, log, pending, file, named, hbody⟩
  · cases body

theorem Revised.sound {g : Graph} (h : Revised g s u) : Sound s :=
  (run_read (sound_fresh _ _ _ _)
    (show (Trigger.read revisedDocument).run _ = (.ok {}, s) from bind_of_ok h.read _)).1

theorem revisedUnits_ways : ∀ x ∈ revisedUnits, ∀ y ∈ revisedUnits, ∀ loc ∈ Path.way x.directory,
    Path.location? y.path ≠ some loc ∧ Path.location? y.staged ≠ some loc := by decide +kernel

theorem Revised.orderly {g : Graph} (h : Revised g s u) : u.Orderly where
  bare := by
    rw [h.fileExtension]
    decide
  types := h.types
  modules := by
    rw [h.extensions]
    exact fun _ he => absurd he List.not_mem_nil
  ways := by
    rw [h.outputs]
    intro x hx y hy loc hloc
    obtain ⟨place, staged⟩ := revisedUnits_ways x hx y hy loc hloc
    exact fun here => here.elim place staged

theorem unit_file_of_revisions_of_enums : ∃ g asked u,
    [Trigger.read revisedDocument, .start (some g)].mapM Trigger.run revisedSession = (.ok asked, u) ∧
      u.Orderly ∧ LogOff revisedSession.workspace.log u.outputs ∧ u.exported = [1, 2, 0] ∧
      u.typeTarget? u.registry 2 = some revisedUnit ∧
      ∃ revisions : List TypeId, revisions.Nodup ∧ (∀ other, other ∈ revisions ↔
          other ∈ u.exported ∧ (u.store.type other).name = (u.store.type 2).name) ∧
        Succession u revisedUnit revisions revisedSession.workspace.tree u.workspace.tree := by
  obtain ⟨g, s, u, h⟩ := revised
  obtain ⟨asked, second⟩ : ∃ asked, (Trigger.start (some g)).run s = (.ok asked, u) :=
    ⟨_, bind_of_ok h.start _⟩
  have run : [Trigger.read revisedDocument, .start (some g)].mapM Trigger.run revisedSession =
      (.ok [{}, asked], u) := mapM_cons_of_ok (bind_of_ok h.read _) (mapM_cons_of_ok second rfl)
  have newest : 2 ∈ u.exported := by simp [h.exported]
  have off : LogOff revisedSession.workspace.log u.outputs := fun _ hfile => by cases hfile
  exact ⟨g, _, u, run, h.orderly, off, h.exported, h.placed,
    unit_file_of_revisions rfl run h.orderly off newest h.placed fun other hother _ =>
      (h.homes other hother).trans (h.homes 2 newest).symm⟩

def emptyDocument : Value := .object [("types", .list [])]

theorem extend_nothing (σ : TypeStore) (g : Graph) :
    Graph.extend σ g emptyDocument = .ok { store := σ, graph := g, added := [] } := by
  have read : Graph.readDocument g.modules emptyDocument = .ok (g.modules, []) := by rfl
  have joined : σ ++ ([] : List TypeNode).toArray = σ := Array.append_empty
  simp only [Graph.extend, read, Bind.bind, Except.bind, List.map_nil, List.length_nil,
    List.range'_zero, List.append_nil, joined]
  rfl

theorem Records.tree (h : Records t u) (log : t.workspace.log = none) :
    u.workspace.tree = t.workspace.tree := by
  obtain ⟨w, ⟨rs, hw⟩, rfl⟩ := h
  show w.tree = _
  rw [hw]
  clear hw
  generalize t.workspace = v at log
  induction rs generalizing v with
  | nil => rfl
  | cons r rs ih =>
    rw [List.foldl_cons, Workspace.record_of_no_log r log]
    exact ih _ log

/-- Where no extension methods are known, a module that declares nothing changes nothing. -/
theorem load_nothing {g : Graph} (graph : s.graph = some g) (methods : s.extensions = [])
    (pending : s.workspace.pending = []) (log : s.workspace.log = none) :
    ∃ asked w, (Trigger.load emptyDocument).run s = (.ok asked, { s with workspace := w }) ∧
      w.tree = s.workspace.tree := by
  let loaded : Session := { s with workspace := s.workspace.record ⟨.info, .session,
    "=== Module loaded: " ++ toString ([] : List TypeId).length ++ " new types"⟩ }
  have hmerge : merge emptyDocument s = (.ok [], s) := by
    have same : ({ s with graph := some (s.graph.getD {}) } : Session) = s := by
      rw [graph, Option.getD_some, ← graph]
    simp only [merge_apply, extend_nothing, same]
  have hgenerate : generate [] [] loaded = (.ok (), loaded) := by
    have names : loaded.extendedModules = [] := by
      unfold extendedModules
      rw [show loaded.extensions = [] from methods]
      rfl
    show saveModuleUnits loaded = _
    simp only [saveModuleUnits, bind_apply, get_apply, names]
    rfl
  have hcommit : Workspace.commit loaded.workspace = (.ok 0, loaded.workspace) := by
    have pending : loaded.workspace.pending = [] := pending
    have same : ({ loaded.workspace with pending := [] } : Workspace) = loaded.workspace := by
      rw [← pending]
    simp only [Workspace.commit, bind_apply, get_apply, pending]
    exact congrArg (fun w => (Except.ok 0, w)) same
  obtain ⟨u, hbatch, records⟩ := batch_of_ok hgenerate hcommit
  have tree := records.tree (t := loaded) log
  obtain ⟨w, -, rfl⟩ := records
  refine ⟨{ gated := [] }, w, ?_, tree.trans ?_⟩
  · refine bind_of_ok (?_ : moduleLoaded emptyDocument s = (.ok [], _)) _
    exact (bind_of_ok hmerge _).trans (bind_of_ok hbatch _)
  · show (s.workspace.record _).tree = _
    rw [Workspace.record_of_no_log _ log]

theorem revision_values : enumValues {} (.text "N") [.text "New"] = .ok [("New", 0)] := by
  decide +kernel

theorem renders_revision {code : Code} (policy : s.policy = {})
    (named : (s.store.type 2).name = .text "N") (home : (s.store.type 2).home.name = .text "M")
    (body : (s.store.type 2).body = .enum [.text "New"] (.text "uint8"))
    (h : Renders anyModule s 2 code) : code = (revisionUnit "New").code := by
  have enum : (s.store.type 2).variant = .enum := by rw [TypeNode.variant, body]
  have noClass : (s.store.type 2).isClass = false := by
    rw [TypeNode.isClass, TypeNode.classBody?, body]
    rfl
  cases h with
  | interface variant => cases noClass.symm.trans variant
  | plainClass variant => cases noClass.symm.trans variant
  | struct variant => cases enum.symm.trans variant
  | @enum v w unit _ during made =>
    obtain ⟨space, name, sort, values⟩ := enumUnit_ok body home made
    obtain ⟨during', -⟩ := Still.of_keeps ((steady_still (knows_any s) v).enumUnit trivial) during made
    rw [during'.rules.1, policy, named, revision_values] at values
    obtain ⟨_, _, _, _⟩ := unit
    cases sort
    cases space
    cases values
    rw [scriptLabel, scriptName, named] at name
    cases name
    rfl

theorem revisionUnit_differs : Text.characters? (revisionUnit "New").code.text ≠
    some (revisionUnit "Old").code.text := by
  rw [Text.characters?_of_ascii (Code.isAscii_text (by decide +kernel))]
  decide +kernel

theorem revisedUnit_located : Path.location? revisedUnit.path = some ["out", "N.generated.cs"] := by
  decide +kernel

/-- The newest of the types of one name may lose its unit for good: it is exported first, for a
struct that holds it, and the older one, which the same batch finishes after it, is what the file
holds from then on. -/
theorem older_revision_stays : ∃ g s asked u,
    readGraph revisedDocument revisedSession = (.ok g, s) ∧
      [Trigger.start (some g), .load emptyDocument].mapM Trigger.run s = (.ok asked, u) ∧
      u.graph = some g ∧ g.find? u.store (.text "N") = some 2 ∧ u.exported = [1, 2, 0] ∧
      (∀ id ∈ u.exported, (u.store.type id).home.name = .text "M") ∧
      ∀ y, IsUnit anyModule (s.started g) u.registry 2 y → ¬y.AtPlace u.workspace.tree := by
  obtain ⟨g, s, u, h⟩ := revised
  obtain ⟨requests, finished, batched⟩ := start_batched h.sound h.start
  have during := batched.during
  have graph : u.graph = some g := during.graph
  have store : u.store = s.store := during.rules.2
  obtain ⟨asked, w, load, tree⟩ := load_nothing graph h.extensions h.pending h.log
  obtain ⟨asked', first⟩ : ∃ asked, (Trigger.start (some g)).run s = (.ok asked, u) :=
    ⟨_, bind_of_ok h.start _⟩
  refine ⟨g, s, [asked', asked], { u with workspace := w }, h.read, ?_, graph, store ▸ h.newest,
    h.exported, h.homes, fun y unit => ?_⟩
  · exact mapM_cons_of_ok first (mapM_cons_of_ok load rfl)
  · rintro ⟨loc, characters, located, kept, there⟩
    obtain ⟨code, renders, text⟩ := unit.text
    have policy : s.policy = {} := by
      obtain ⟨_, rfl⟩ := readGraph_ok h.read
      rfl
    have home : (s.store.type 2).home.name = .text "M" := by
      rw [← store]
      exact h.homes 2 (by simp [h.exported])
    rw [text, renders_revision (s := s.started g) policy h.named home h.body renders] at kept
    have target : some y.toTarget = some revisedUnit :=
      unit.target.symm.trans ((typeTarget?_of_during during _ 2).symm.trans h.placed)
    rw [Option.some_inj.1 target, revisedUnit_located] at located
    cases located
    rw [tree, h.file] at there
    cases there
    exact revisionUnit_differs kept

end ScriptGlue.Session
