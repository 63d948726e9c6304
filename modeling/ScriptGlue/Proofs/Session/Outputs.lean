import ScriptGlue.Proofs.Files.Drafts
import ScriptGlue.Proofs.Session.Collected
import ScriptGlue.Proofs.Session.FailedBatch
import ScriptGlue.Proofs.Session.UnitFiles

/-! # Output paths

All that a session stages goes below one of its two directories, under the name of a type or of a
type's module. As long as a generation does not fault over a file it has made drafts of such units
only, so its fault leaves nothing of it, and no commit moves anything else.
-/
namespace ScriptGlue

def Packaging.Offers (p : Packaging) (directory : Value) : Prop :=
  directory = p.scriptsDir ∨ p.userContentDir = .ok directory

theorem Packaging.offers_directory {p : Packaging} {m : NativeModule} {directory : Value}
    (h : p.directory m = .ok directory) : p.Offers directory := by
  unfold Packaging.directory at h
  split at h
  · exact .inr h
  · cases h
    exact .inl rfl

namespace Session
open ScriptGlue.Action

variable {base s t u : Session} {x y : Target} {id : TypeId}

def moduleFile (s : Session) (name : Name) : String :=
  name.plain ++ "Module" ++ s.fileExtension.plain

/-- A unit of one of the types, or of the module of one, goes there. -/
structure Output (s : Session) (x : Target) : Prop where
  directory : s.packaging.Offers (.text x.directory)
  filename : ∃ id < s.store.size, x.filename = s.unitFile id ∨
    x.filename = s.moduleFile (s.store.type id).home.name

/-- The session makes its units under the same names in the same directories. -/
structure SameOutputs (s t : Session) : Prop where
  grown : Grown s t
  packaging : t.packaging = s.packaging
  fileExtension : t.fileExtension = s.fileExtension

theorem SameOutputs.trans (h : SameOutputs s t) (g : SameOutputs t u) : SameOutputs s u :=
  ⟨h.grown.grown_trans g.grown, g.packaging.trans h.packaging,
    g.fileExtension.trans h.fileExtension⟩

theorem SameOutputs.output (h : SameOutputs s t) (hx : s.Output x) : t.Output x := by
  obtain ⟨directory, id, inside, filename⟩ := hx
  refine ⟨h.packaging ▸ directory, id, h.grown.embeds.inside id inside, ?_⟩
  simpa only [unitFile, moduleFile, h.grown.type_eq inside, h.fileExtension] using filename

theorem SameOutputs.worded (h : SameOutputs s t) (words : t.store.Worded) : s.store.Worded := by
  intro id inside
  rw [← h.grown.type_eq inside]
  exact words id (h.grown.embeds.inside id inside)

section
variable (bare : '/' ∉ s.fileExtension.plain.toList) (words : s.store.Worded)
include bare words

theorem Output.isFile (h : s.Output x) :
    ∃ ofType word, x.IsFile ofType word s.fileExtension.plain := by
  obtain ⟨-, id, inside, filename⟩ := h
  obtain ⟨named, housed⟩ := words id inside
  obtain ⟨word, isWord, name⟩ := Value.eq_text_of_worded named
  obtain ⟨word', isWord', home⟩ := Value.eq_text_of_worded housed
  obtain ofType | ofModule := filename
  · refine ⟨true, word, ?_, isWord, bare⟩
    rw [ofType, unitFile, TypeNode.label, name]
    simp [unitName, Value.plain, String.append_assoc]
  · refine ⟨false, word', ?_, isWord', bare⟩
    rw [ofModule, moduleFile, home]
    simp [unitName, Value.plain, String.append_assoc]

theorem Output.apart (hx : s.Output x) (hy : s.Output y) {loc : Location}
    (placed : Path.location? x.path = some loc) : Path.location? y.staged ≠ some loc := by
  intro drafted
  obtain ⟨_, _, first⟩ := hx.isFile bare words
  obtain ⟨_, _, second⟩ := hy.isFile bare words
  have same := (first.of_path placed).symm.trans (second.of_staged drafted)
  obtain ⟨-, -, staged⟩ := unitName_inj first.word second.word
    (List.singleton_inj.1 (List.append_inj' same rfl).2)
  cases staged

end

/-- The settings of the units, with the modules registered so far in one of the directories. -/
structure Equipped (p : Packaging) (extension : Value) (s : Session) : Prop where
  packaging : s.packaging = p
  fileExtension : s.fileExtension = extension
  offered : ∀ m ∈ s.registry, p.Offers m.directory

theorem Equipped.registering {p : Packaging} {extension directory : Value} {m : NativeModule}
    (h : Equipped p extension s) (found : s.packaging.directory m = .ok directory) :
    Equipped p extension { s with registry := s.registry ++ [{ name := m.name, directory }] } :=
  ⟨h.packaging, h.fileExtension, List.forall_mem_append.2 ⟨h.offered, List.forall_mem_singleton.2
    (Packaging.offers_directory (m := m) (h.packaging ▸ found))⟩⟩

theorem stepwise_equipped (p : Packaging) (extension : Value) :
    Stepwise (Equipped p extension) where
  faulted _ h := h
  refused _ _ h := ⟨h.packaging, h.fileExtension, h.offered⟩
  accepted _ _ _ _ h := ⟨h.packaging, h.fileExtension, h.offered⟩
  registered _ _ _ found _ h := h.registering found
  measured ref := Gated.isStructBlittable ⟨fun _ h => h,
    fun _ _ h => ⟨h.packaging, h.fileExtension, h.offered⟩,
    fun _ _ _ _ h => ⟨h.packaging, h.fileExtension, h.offered⟩⟩
    (fun _ _ h => ⟨h.packaging, h.fileExtension, h.offered⟩) ref
  marked _ _ h := ⟨h.packaging, h.fileExtension, h.offered⟩
  passedOver _ _ h := ⟨h.packaging, h.fileExtension, h.offered⟩
  extended _ _ h := ⟨h.packaging, h.fileExtension, h.offered⟩
  files _ _ h := ⟨h.packaging, h.fileExtension, h.offered⟩
  adopted _ _ _ h := ⟨h.packaging, h.fileExtension, h.offered⟩
  read _ _ _ _ _ _ _ h := ⟨h.packaging, h.fileExtension, h.offered⟩

/-- Since the first session drafts of its units were made. -/
structure Drafts (base s : Session) : Prop
    extends Equipped base.packaging base.fileExtension s where
  saves : ∃ xs : List Save, (∀ x ∈ xs, base.Output x.toTarget) ∧
    Save.Saves xs base.workspace s.workspace

def DraftsUnlessFile (base : Session) (e : Fault) (s : Session) : Prop :=
  (∀ fault, e ≠ .file fault) → Drafts base s

theorem Drafts.of_same (h : Drafts base s) (packaging : t.packaging = s.packaging)
    (fileExtension : t.fileExtension = s.fileExtension) (registry : t.registry = s.registry)
    (quiet : s.workspace.Quiet t.workspace) : Drafts base t := by
  obtain ⟨xs, outputs, saves⟩ := h.saves
  have later := saves.append (.quiet quiet)
  rw [List.append_nil] at later
  exact ⟨⟨packaging.trans h.packaging, fileExtension.trans h.fileExtension,
    registry ▸ h.offered⟩, xs, outputs, later⟩

theorem inert_drafts (base : Session) : Inert (Drafts base) (Drafts base) where
  faulted _ h := h
  refused _ _ h := h.of_same rfl rfl rfl (.refl _)
  accepted _ _ _ _ h := h.of_same rfl rfl rfl (.refl _)
  recorded s r h := h.of_same rfl rfl rfl (.record s.workspace r)
  registered _ _ _ found _ h := ⟨h.toEquipped.registering found, h.saves⟩
  measured _ _ _ h := h.of_same rfl rfl rfl (.refl _)

theorem collecting_drafts (base : Session) (id : TypeId) :
    Collecting (fun _ => True) id (Drafts base) (Drafts base) where
  toSteady := (inert_drafts base).steady
  extended _ _ _ h := h.of_same rfl rfl rfl (.refl _)

theorem meets_drafts {α : Type} {a : Generation α} (keeps : Keeps (Drafts base) (Drafts base) a) :
    Meets (Drafts base) (DraftsUnlessFile base) a fun _ => True :=
  ⟨fun hs he => ⟨trivial, keeps.result hs he⟩, fun hs he _ => keeps.fault hs he⟩

theorem register_drafts (m : NativeModule) : Meets (Drafts base) (DraftsUnlessFile base) (register m)
    fun known => known.name.alike m.name = true ∧ base.packaging.Offers known.directory where
  result hs he := by
    have kept := ((inert_drafts base).steady.register trivial).result hs he
    have found := register_ok he
    exact ⟨⟨List.find?_some (p := fun m' : OutputModule => m'.name.alike m.name) found,
      kept.offered _ (List.mem_of_find?_eq_some found)⟩, kept⟩
  fault hs he _ := ((inert_drafts base).steady.register trivial).fault hs he

theorem saveUnit_drafts {m : OutputModule} {filename text : String}
    (offered : base.packaging.Offers m.directory)
    (named : ∃ id < base.store.size, filename = base.unitFile id ∨
      filename = base.moduleFile (base.store.type id).home.name) :
    Meets (Drafts base) (DraftsUnlessFile base) (saveUnit m filename text) fun _ => True where
  result {s t x} hs he := by
    obtain ⟨target, w, placed, rfl, run⟩ := saveUnit_ok he
    obtain ⟨xs, outputs, saves⟩ := hs.saves
    have output : base.Output target := by
      unfold target? at placed
      split at placed
      · next directory text =>
        cases placed
        exact ⟨text ▸ offered, named⟩
      · cases placed
    refine ⟨trivial, ⟨hs.packaging, hs.fileExtension, hs.offered⟩, xs ++ [{ target with text }], ?_,
      .save saves run (.refl w)⟩
    exact List.forall_mem_append.2 ⟨outputs, List.forall_mem_singleton.2 output⟩
  fault {s t e} hs he := by
    rw [saveUnit_eq] at he
    split at he
    · next target _ =>
      rcases run : Save.run { target with text } s.workspace with ⟨e' | _, w⟩
      · simp only [onWorkspace, within, run] at he
        cases he
        obtain ⟨fault, rfl⟩ := (Save.faultsOverFiles_run _).fault trivial run
        exact fun other => absurd rfl (other fault)
      · simp only [onWorkspace, within, run] at he
        cases he
    · cases he
      exact fun _ => hs

theorem saveTypeUnit_drafts (inside : id < base.store.size) (code : Code) :
    Meets (Drafts base) (DraftsUnlessFile base) (saveTypeUnit (base.store.type id) code)
      fun _ => True := by
  refine (register_drafts _).bind fun m registered => .get_bind fun s hs => ?_
  exact saveUnit_drafts registered.2 ⟨id, inside, .inl (by rw [unitFile, hs.fileExtension])⟩

theorem saveExtensions_drafts (words : base.store.Worded) (inside : id < base.store.size) :
    Meets (Drafts base) (DraftsUnlessFile base) (saveExtensions (base.store.type id).home.name)
      fun _ => True := by
  obtain ⟨word, -, home⟩ := Value.eq_text_of_worded (words id inside).2
  have registered : Meets (Drafts base) (DraftsUnlessFile base)
      (registerByName (base.store.type id).home.name) fun known =>
        known.name = .text word ∧ base.packaging.Offers known.directory := by
    rw [home]
    exact (register_drafts { name := .text word }).imp fun known h =>
      ⟨(Value.alike_text_right _ _).1 h.1, h.2⟩
  refine registered.bind fun m h => .get_bind fun s hs => ?_
  refine (meets_drafts ((inert_drafts base).steady.extensionUnit m _)).bind fun unit _ => ?_
  refine saveUnit_drafts h.2 ⟨id, inside, .inr ?_⟩
  rw [moduleFile, home, hs.fileExtension, OutputModule.unitName, OutputModule.label, h.1]

theorem Collects.inside {stack : Stack} (h : Collects base stack s) (new : id ∈ s.exported)
    (fresh : id ∉ base.exported) : id < base.store.size := by
  obtain ⟨-, _, joined, -⟩ := h
  exact (joined.inside id new).resolve_left fresh

theorem Collects.library_inside {stack : Stack} (h : Collects base stack s)
    (grounded : ∀ e ∈ base.extensions, e.library < base.store.size) :
    ∀ e ∈ s.extensions, e.library < base.store.size := by
  intro e he
  have ⟨_, new, joined, _⟩ := h
  rw [joined.extensions] at he
  obtain he | he := List.mem_append.1 he
  · exact grounded e he
  · exact h.inside (joined.libraries e he).1 (joined.libraries e he).2

theorem nesting_drafts (words : base.store.Worded)
    (grounded : ∀ e ∈ base.extensions, e.library < base.store.size) :
    Nesting base (fun stack x => Drafts base x.1 ∧ Collects base stack x.1)
      fun e x => DraftsUnlessFile base e x.1 where
  rules stack x h := (nesting_collects base).rules stack x h.2
  inert stack _ :=
    have both := (inert_drafts base).and (inert_collects base stack)
    { both with faulted := fun _ h _ _ => h.1 }
  passedOver stack s notes v h := ⟨h.1.of_same rfl rfl rfl (.refl _),
    (nesting_collects base).passedOver stack s notes v h.2⟩
  marked stack s notes id inside fresh h := ⟨h.1.of_same rfl rfl rfl (.refl _),
    (nesting_collects base).marked stack s notes id inside fresh h.2⟩
  gathered stack id ps events variant plain := by
    have drafts := (collecting_drafts base id).classMembers (base.store.type id) ps
      (base.passedFunctions (base.store.type id)) events
    have collects := (nesting_collects base).gathered stack id ps events variant plain
    constructor
    · rintro ⟨s, notes⟩ t x hs he
      obtain ⟨run, rfl⟩ := Prod.mk.inj he
      exact ⟨drafts.result hs.1 (Prod.ext run rfl), collects.result hs.2 he⟩
    · rintro ⟨s, notes⟩ t e hs he
      obtain ⟨run, rfl⟩ := Prod.mk.inj he
      exact fun _ => drafts.fault hs.1 (Prod.ext run rfl)
  saved stack id b code all := by
    have collects := (nesting_collects base).saved stack id b code all
    have inside {s : Session} (h : Collects base ((id, b) :: stack) s) : id < base.store.size :=
      have marked := h.1.2 id List.mem_cons_self
      h.inside marked.1 marked.2
    constructor
    · rintro ⟨s, notes⟩ t x hs he
      obtain ⟨run, rest⟩ := Prod.mk.inj he
      have drafts := saveTypeUnit_drafts (inside hs.2) code
      exact ⟨(drafts.result hs.1 (Prod.ext run (congrArg Prod.fst rest))).2,
        collects.result hs.2 he⟩
    · rintro ⟨s, notes⟩ t e hs he
      obtain ⟨run, rest⟩ := Prod.mk.inj he
      have drafts := saveTypeUnit_drafts (inside hs.2) code
      exact drafts.fault hs.1 (Prod.ext run (congrArg Prod.fst rest))
  extensions s notes name hs hname := by
    have collects := (nesting_collects base).extensions s notes name hs.2 hname
    obtain ⟨e, he, rfl⟩ := List.mem_map.1 (Value.mem_of_mem_distinct hname)
    have drafts := saveExtensions_drafts words (hs.2.library_inside grounded e he)
    rw [← ((nesting_collects base).rules [] (s, notes) hs.2).2] at drafts
    exact ⟨fun hs he => ⟨trivial, (drafts.result hs.1 he).2, (collects.result hs.2 he).2⟩,
      fun hs he => drafts.fault hs.1 he⟩

/-- What every trigger of a run leaves, whatever its outcome. -/
structure Tracked (s : Session) : Prop where
  collected : Collected s
  equipped : Equipped s.packaging s.fileExtension s

/-- Between the triggers of a run nothing waits, and the log file lies in directories. -/
structure AtRest (s : Session) : Prop extends Tracked s where
  pending : s.workspace.pending = []
  anchored : s.workspace.Anchored

/-- Types and modules are called by words, and the log file is not in the way of units. -/
structure Proper (logPlace : Option Location) (s : Session) : Prop where
  bare : '/' ∉ s.fileExtension.plain.toList
  words : s.store.Worded
  away : ∀ x, s.Output x → ∀ loc ∈ x.places, logPlace ≠ some loc

theorem Proper.earlier {logPlace : Option Location} (h : Proper logPlace t)
    (same : SameOutputs s t) : Proper logPlace s where
  bare := same.fileExtension ▸ h.bare
  words := same.worded h.words
  away x hx := h.away x (same.output hx)

/-- The files are the first ones, but that what was where drafts go may be gone. -/
structure Withdrawn (s t : Session) : Prop where
  logPlace : t.workspace.logPlace = s.workspace.logPlace
  pending : t.workspace.pending = []
  files : ∀ loc, s.workspace.logPlace ≠ some loc →
    t.workspace.tree.fileAt loc = s.workspace.tree.fileAt loc ∨
      t.workspace.tree.fileAt loc = none ∧
        ∃ x, t.Output x ∧ Path.location? x.staged = some loc

theorem withdrawn_of_frame (frame : Workspace.Frame ∅ s.workspace t.workspace)
    (pending : t.workspace.pending = []) : Withdrawn s t :=
  ⟨frame.logPlace, pending, fun loc away => .inl (frame.files loc (Set.notMem_empty loc) away)⟩

theorem Withdrawn.after (h : Withdrawn t u) (frame : Workspace.Frame ∅ s.workspace t.workspace) :
    Withdrawn s u where
  logPlace := h.logPlace.trans frame.logPlace
  pending := h.pending
  files loc away := (h.files loc (frame.logPlace ▸ away)).imp_left fun same =>
    same.trans (frame.files loc (Set.notMem_empty loc) away)

theorem generate_drafts (words : s.store.Worded) (hs : AtRest s) (forced types : List (Option TypeId)) :
    Meets (fun t => Drafts s t ∧ Collects s [] t) (DraftsUnlessFile s) (generate forced types)
      fun _ => True :=
  (Noted.follows_generate forced types).meets ((nesting_drafts words fun e he =>
    hs.collected.inside _ (hs.collected.libraries e he)).generate forced types)

theorem AtRest.drafts (h : AtRest s) : Drafts s s ∧ Collects s [] s :=
  ⟨⟨h.equipped, [], fun _ hx => absurd hx List.not_mem_nil, .quiet (.refl _)⟩, collects_refl s⟩

variable {forced types : List (Option TypeId)}

/-- A batch that gives a result leaves nothing waiting, and the log file where it was. -/
theorem batch_frame (hs : AtRest s) (proper : Proper s.workspace.logPlace s) {x : Unit}
    (h : batch forced types s = (.ok x, t)) :
    Workspace.Frame Set.univ s.workspace t.workspace ∧ t.workspace.pending = [] := by
  obtain ⟨v, n, w, hgenerate, hcommit, records⟩ := batch_ok h
  obtain ⟨-, drafts, -⟩ := (generate_drafts proper.words hs forced types).result hs.drafts hgenerate
  obtain ⟨xs, outputs, saves⟩ := drafts.saves
  obtain ⟨frame, pending⟩ := saves.commit_frame hs.pending hs.anchored
    (fun x hx loc hloc => proper.away _ (outputs x hx) loc hloc) hcommit
  obtain ⟨w', quiet, rfl⟩ := records
  exact ⟨frame.trans (quiet.rested.frame (frame.anchored hs.anchored)),
    quiet.rested.pending.trans pending⟩

theorem batch_eq_error_of_fault {e e' : Fault} {v : Session}
    (faulted : generate forced types s = (.error e', v))
    (failed : batch forced types s = (.error e, t)) :
    (∃ w, Workspace.discard v.workspace = (.error e, w)) ∨
      e = e' ∧ ∃ w, Workspace.discard v.workspace = (.ok (), w) ∧ t = { v with workspace := w } := by
  obtain h | ⟨_, v', hattempt, h⟩ := bind_eq_error.1 failed
  · rw [tryCatch_apply, faulted] at h
    rcases discarded : Workspace.discard v.workspace with ⟨e'' | _, w⟩
    · obtain h | ⟨_, _, hdiscard, -⟩ := bind_eq_error.1 h
      · simp only [onWorkspace, within, discarded] at h
        cases h
        exact .inl ⟨w, rfl⟩
      · simp only [onWorkspace, within, discarded] at hdiscard
        cases hdiscard
    · obtain h | ⟨_, _, hdiscard, hthrow⟩ := bind_eq_error.1 h
      · simp only [onWorkspace, within, discarded] at h
        cases h
      · simp only [onWorkspace, within, discarded] at hdiscard
        cases hdiscard
        cases hthrow
        exact .inr ⟨rfl, w, rfl, rfl⟩
  · cases (attempt_ok hattempt).symm.trans faulted

/-- Where the batch made drafts there is no file, and none of these places is the log file's. -/
def Cleared (forced types : List (Option TypeId)) (s t : Session) : Prop :=
  ∀ loc ∈ Workspace.draftPlaces (generate forced types s).2.workspace.pending,
    t.workspace.logPlace ≠ some loc ∧ t.workspace.tree.fileAt loc = none

theorem batch_withdrawn (hs : AtRest s) (proper : Proper s.workspace.logPlace s)
    (same : SameOutputs s t) {e : Fault} (other : ∀ fault, e ≠ .file fault)
    (h : batch forced types s = (.error e, t)) : Withdrawn s t ∧ Cleared forced types s t := by
  rcases hgenerate : generate forced types s with ⟨e' | _, v⟩
  · obtain ⟨w, discarded⟩ | ⟨rfl, w, discarded, rfl⟩ := batch_eq_error_of_fault hgenerate h
    · obtain ⟨fault, rfl⟩ := Workspace.faultsOverFiles_discard.fault trivial discarded
      exact absurd rfl (other fault)
    · have drafts := (generate_drafts proper.words hs forced types).fault hs.drafts hgenerate other
      obtain ⟨xs, outputs, saves⟩ := drafts.saves
      have drafted := saves.drafted hs.pending hs.anchored
      have known {loc : Location} (hloc : loc ∈ Workspace.draftPlaces v.workspace.pending) :
          ∃ x, s.Output x ∧ Path.location? x.staged = some loc := by
        obtain ⟨x, hx, located⟩ := saves.draftPlaces_subset hs.pending hloc
        exact ⟨x.toTarget, outputs x hx, located⟩
      have away : ∀ loc ∈ Workspace.draftPlaces v.workspace.pending,
          s.workspace.logPlace ≠ some loc := fun loc hloc => by
        obtain ⟨x, output, located⟩ := known hloc
        exact proper.away x output loc (.inr located)
      obtain ⟨frame, pending, gone⟩ := drafted.discard_ok away discarded
      refine ⟨⟨frame.logPlace, pending, fun loc hlog => ?_⟩, fun loc hloc => ?_⟩
      · by_cases hloc : loc ∈ Workspace.draftPlaces v.workspace.pending
        · obtain ⟨x, output, located⟩ := known hloc
          exact .inr ⟨gone loc hloc, x, same.output output, located⟩
        · exact .inl (frame.files loc hloc hlog)
      · rw [hgenerate] at hloc
        exact ⟨frame.logPlace ▸ away loc hloc, gone loc hloc⟩
  · obtain ⟨committed, -⟩ := batch_eq_error_of_generated hgenerate h
    obtain ⟨fault, rfl⟩ := Workspace.faultsOverFiles_commit.fault trivial committed
    exact absurd rfl (other fault)

end Session

end ScriptGlue
