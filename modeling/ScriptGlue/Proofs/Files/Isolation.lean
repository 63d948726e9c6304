import ScriptGlue.Proofs.Files.Texts

/-! # Isolation of staged texts

Until a commit, texts that are given to paths change the files beside those of the paths only, and
every path that waits has its last staged text there. So a commit can move all of them and puts just
these texts into place, and a discard can remove all of them and leaves what was there before.
-/
namespace ScriptGlue
open ScriptGlue.Action

namespace FileTree
variable {t u : FileTree} {loc : Location} {path : String} {content : Content}

theorem write_place (h : t.write path content = .ok u) :
    ∃ loc, t.place path = .ok (.entry loc false) ∧ u = t.put loc (.file content) := by
  obtain ⟨loc, asDirectory, placed, -, rfl⟩ := write_eq_ok h
  cases asDirectory with
  | false => exact ⟨loc, placed, rfl⟩
  | true =>
    simp only [write, placed, Bind.bind, Except.bind] at h
    split at h
    · cases h
    · cases h
    · cases h
    · next flag _ => cases flag

/-- A location holds the same in two trees if its file and its being a directory are the same. -/
theorem lookup_of_same (file : u.fileAt loc = t.fileAt loc)
    (directory : u.lookup loc = some .directory ↔ t.lookup loc = some .directory) :
    u.lookup loc = t.lookup loc := by
  unfold fileAt at file
  cases hu : u.lookup loc with
  | none =>
    cases ht : t.lookup loc with
    | none => rfl
    | some node => cases node <;> simp [hu, ht] at file directory
  | some node =>
    cases ht : t.lookup loc with
    | none => cases node <;> simp [hu, ht] at file directory
    | some other => cases node <;> cases other <;> simp_all

theorem lookup_eq_none (file : t.fileAt loc = none) (plain : t.lookup loc ≠ some .directory) :
    t.lookup loc = none := by
  unfold fileAt at file
  cases there : t.lookup loc with
  | none => rfl
  | some node => cases node <;> simp [there] at file plain

end FileTree

namespace Workspace
variable {w v u : Workspace} {path text : String} {paths : List String} {a : Location}
  {content : Content}

theorem stage_answer {staged : Bool} (h : stage path text w = (.ok staged, v)) :
    ∃ characters, Text.characters? text = some characters ∧
      (staged = false ∧ w.tree.read path = .ok characters ∧ v = w ∨
        staged = true ∧ w.tree.read path ≠ .ok characters ∧
          w.tree.read path ≠ .error .isDirectory ∧
          ∃ loc, w.tree.place (stagedPath path) = .ok (.entry loc false) ∧
            v.pending = (remember path w).pending) := by
  obtain ⟨before, _, hheld, h⟩ := bind_eq_ok.1 h
  obtain ⟨again, found⟩ := held_ok hheld
  rw [again] at hheld h
  have file : w.tree.read path ≠ .error .isDirectory := fun directory => by
    simp only [held, directory] at hheld
    cases hheld
  cases kept : Text.characters? text with
  | none =>
    rw [kept] at h
    obtain ⟨_, _, _, hthrow⟩ := bind_eq_ok.1 h
    cases hthrow
  | some characters =>
    rw [kept] at h
    refine ⟨characters, rfl, ?_⟩
    by_cases same : before = some characters
    · simp only [same, ↓reduceIte] at h
      cases h
      exact .inl ⟨rfl, found characters same, rfl⟩
    · simp only [same, ↓reduceIte] at h
      have new : w.tree.read path ≠ .ok characters := fun there => by
        simp only [held, there] at hheld
        cases hheld
        exact same rfl
      obtain ⟨_, _, hwrite, h⟩ := bind_eq_ok.1 h
      obtain ⟨tree, written, rfl⟩ := onTree_ok hwrite
      obtain ⟨loc, placed, -⟩ := FileTree.write_place written
      obtain ⟨_, _, hremember, h⟩ := bind_eq_ok.1 h
      cases hremember
      obtain ⟨_, _, htell, h⟩ := bind_eq_ok.1 h
      cases htell
      cases h
      exact .inr ⟨rfl, new, file, loc, placed, rfl⟩

theorem dropStaged_of_file (placed : w.tree.place (stagedPath path) = .ok (.entry a false))
    (found : w.tree.fileAt a = some content) :
    dropStaged path w = (.ok (), { w with
      tree := w.tree.erase a, log := w.log.map fun log => log.removed a }) := by
  have removed : w.tree.remove (stagedPath path) = .ok (w.tree.erase a) := by
    simp only [FileTree.remove, placed, FileTree.fileAt_eq_some.1 found, Bind.bind, Except.bind]
    rfl
  rw [dropStaged_apply, remove, bind_of_ok (get_apply w), bind_apply, onTree, removed]
  simp only [placed]
  rfl

/-- The staged files of some paths were removed, and nothing else happened. -/
structure Drops (paths : List String) (w v : Workspace) : Prop where
  directories : ∀ loc, v.tree.lookup loc = some .directory ↔ w.tree.lookup loc = some .directory
  gone : ∀ loc ∈ draftPlaces paths, v.tree.fileAt loc = none
  others : ∀ loc ∉ draftPlaces paths, v.tree.fileAt loc = w.tree.fileAt loc

theorem drops_of_files (apart : DraftsApart paths) (files : ∀ p ∈ paths, ∃ a content,
      w.tree.place (stagedPath p) = .ok (.entry a false) ∧ w.tree.fileAt a = some content) :
    ∃ v, paths.forM dropStaged w = (.ok (), v) ∧ Drops paths w v := by
  induction paths generalizing w with
  | nil => exact ⟨w, rfl, fun _ => .rfl, fun _ ⟨_, h, _⟩ => absurd h List.not_mem_nil, fun _ _ => rfl⟩
  | cons path rest ih =>
    obtain ⟨a, content, placed, found⟩ := files path List.mem_cons_self
    obtain ⟨others, apart⟩ := List.pairwise_cons.1 apart
    have located := FileTree.location_of_place placed
    have file : w.tree.lookup a ≠ some .directory := FileTree.not_directory_of_file (by simp [found])
    have directories (loc : Location) : (w.tree.erase a).lookup loc = some .directory ↔
        w.tree.lookup loc = some .directory :=
      ⟨fun there => by_contra fun other => FileTree.not_directory_of_erase other there,
        FileTree.directory_erase file⟩
    obtain ⟨v, run, drops⟩ := ih (w := { w with
      tree := w.tree.erase a, log := w.log.map fun log => log.removed a }) apart fun p hp => by
        obtain ⟨b, other, placed', found'⟩ := files p (List.mem_cons_of_mem _ hp)
        have off : b ≠ a := fun same =>
          others p hp a located (same ▸ FileTree.location_of_place placed')
        exact ⟨b, other, FileTree.place_of_directories (fun loc => (directories loc).2) placed',
          (FileTree.fileAt_erase_of_ne off).trans found'⟩
    refine ⟨v, ?_, fun loc => (drops.directories loc).trans (directories loc), fun loc hloc => ?_,
      fun loc outside => ?_⟩
    · rw [forM_cons]
      exact (bind_of_ok (dropStaged_of_file placed found) _).trans run
    · by_cases later : loc ∈ draftPlaces rest
      · exact drops.gone loc later
      · obtain ⟨p, hp, here⟩ := hloc
        obtain rfl | hp := List.mem_cons.1 hp
        · obtain rfl := Option.some_inj.1 (located.symm.trans here)
          rw [drops.others _ later, FileTree.fileAt, FileTree.lookup_erase_self
            (FileTree.not_top_of_file (FileTree.fileAt_eq_some.1 found))]
        · exact absurd ⟨p, hp, here⟩ later
    · have off : loc ≠ a := fun same => outside ⟨path, List.mem_cons_self, same ▸ located⟩
      refine (drops.others loc fun later => outside ?_).trans (FileTree.fileAt_erase_of_ne off)
      exact draftPlaces_mono (List.subset_cons_self _ _) later

theorem draftsApart_of_files (unmixed : Unmixed paths) (nodup : paths.Nodup)
    (files : ∀ p ∈ paths, ∃ b, w.tree.place p = .ok (.entry b false)) : DraftsApart paths := by
  refine nodup.imp_of_mem fun {p q} hp hq differ loc first second => differ ?_
  obtain ⟨b, placed⟩ := files p hp
  obtain ⟨c, placed'⟩ := files q hq
  obtain ⟨init, name, rfl, staged⟩ := Path.location_stagedPath_of_file placed
  obtain ⟨init', name', rfl, staged'⟩ := Path.location_stagedPath_of_file placed'
  have same := (Option.some_inj.1 (first.symm.trans staged)).symm.trans
    (Option.some_inj.1 (second.symm.trans staged'))
  obtain ⟨rfl, last⟩ := List.append_inj' same rfl
  obtain rfl : name = name' := by simpa using List.singleton_inj.1 last
  exact unmixed.files p hp q hq _ (FileTree.location_of_place placed)
    (FileTree.location_of_place placed')

end Workspace

namespace Draft
open Workspace

/-- Texts are given to paths, in order, each with this answer: whether it was staged. -/
def Gives (calls : List (Draft × Bool)) (w v : Workspace) : Prop :=
  (calls.map Prod.fst).mapM (fun x => stage x.path x.text) w = (.ok (calls.map Prod.snd), v)

/-- The paths whose texts were staged, each once, in the order in which they first were. -/
def stagedPaths (calls : List (Draft × Bool)) : List String :=
  ((calls.filter Prod.snd).map fun call => call.1.path).eraseDups

/-- The text is the last one that was staged for its path. -/
def LastStaged (calls : List (Draft × Bool)) (x : Draft) : Prop :=
  ∃ early late, calls = early ++ (x, true) :: late ∧
    ∀ call ∈ late, call.1.path = x.path → call.2 = false

variable {calls done : List (Draft × Bool)} {paths : List String} {w v u : Workspace} {x : Draft}
  {answer : Bool}

/-- What waits after some calls, each of which told whether it staged its text. -/
structure Isolated (calls : List (Draft × Bool)) (w v : Workspace) : Prop where
  staged : Staged (calls.map Prod.fst) w v
  answers : ∀ call ∈ calls, call.2 = true ↔ ¬call.1.Held w.tree
  order : v.pending = stagedPaths calls
  /-- The staged file of a path that waits can be moved into its place. -/
  ready : ∀ path ∈ v.pending, ∃ a b, v.tree.place (stagedPath path) = .ok (.entry a false) ∧
    v.tree.place path = .ok (.entry b false) ∧ v.tree.lookup b ≠ some .directory

theorem Isolated.start (pending : w.pending = []) : Isolated [] w w where
  staged := .start pending
  answers := by simp
  order := pending.trans (by simp [stagedPaths])
  ready := by simp [pending]

theorem stagedPaths_concat (calls : List (Draft × Bool)) (x : Draft) (answer : Bool) :
    stagedPaths (calls ++ [(x, answer)]) =
      if answer ∧ x.path ∉ stagedPaths calls then stagedPaths calls ++ [x.path]
      else stagedPaths calls := by
  unfold stagedPaths
  rw [List.filter_append, List.map_append, List.eraseDups_append]
  cases answer with
  | false => simp
  | true =>
    by_cases known : x.path ∈ ((calls.filter Prod.snd).map fun call => call.1.path)
    · simp [known, List.removeAll]
    · simp [known, List.removeAll, List.eraseDups_cons]

theorem mem_stagedPaths {path : String} :
    path ∈ stagedPaths calls ↔ ∃ x, (x, true) ∈ calls ∧ x.path = path := by
  simp [stagedPaths]

theorem exists_lastStaged {path : String} (h : path ∈ stagedPaths calls) :
    ∃ x, LastStaged calls x ∧ x.path = path := by
  induction calls with
  | nil =>
    obtain ⟨x, hx, -⟩ := mem_stagedPaths.1 h
    cases hx
  | cons call rest ih =>
    by_cases later : path ∈ stagedPaths rest
    · obtain ⟨x, ⟨early, late, rfl, idle⟩, same⟩ := ih later
      exact ⟨x, ⟨call :: early, late, rfl, idle⟩, same⟩
    · obtain ⟨x, hx, rfl⟩ := mem_stagedPaths.1 h
      obtain rfl | hx := List.mem_cons.1 hx
      · refine ⟨x, ⟨[], rest, rfl, fun other hother same => ?_⟩, rfl⟩
        by_contra staged
        have staged : other.2 = true := by simpa using staged
        exact later (mem_stagedPaths.2 ⟨other.1, staged ▸ hother, same⟩)
      · exact absurd (mem_stagedPaths.2 ⟨x, hx, rfl⟩) later

theorem Isolated.call (h : Isolated done w v) (unmixed : Unmixed paths)
    (off : LogFile.Off w.log (placesOf paths)) (named : x.path ≠ "")
    (inside : ∀ y ∈ done.map Prod.fst ++ [x], y.path ∈ paths)
    (run : stage x.path x.text v = (.ok answer, u)) : Isolated (done ++ [(x, answer)]) w u := by
  have staged := h.staged.stage unmixed off inside run
  have directories (loc : Location) : u.tree.lookup loc = some .directory ↔
      v.tree.lookup loc = some .directory :=
    (staged.directories loc).trans (h.staged.directories loc).symm
  have same : x.Held v.tree ↔ x.Held w.tree :=
    h.staged.held_iff unmixed off (fun y hy => inside y (List.mem_append_left _ hy))
      (inside x (by simp))
  -- what could be moved before the call can be moved after it
  have still {path : String} (old : path ∈ v.pending) : ∃ a b,
      u.tree.place (stagedPath path) = .ok (.entry a false) ∧
        u.tree.place path = .ok (.entry b false) ∧ u.tree.lookup b ≠ some .directory := by
    obtain ⟨a, b, source, target, free⟩ := h.ready path old
    exact ⟨a, b, FileTree.place_of_directories (fun loc => (directories loc).2) source,
      FileTree.place_of_directories (fun loc => (directories loc).2) target,
      mt (directories b).1 free⟩
  obtain ⟨characters, kept, ⟨rfl, found, rfl⟩ | ⟨rfl, new, file, a, source, pending⟩⟩ :=
    stage_answer run
  · have held : x.Held w.tree := same.1 ⟨characters, kept, found⟩
    refine ⟨by simpa using staged, ?_, ?_, h.ready⟩
    · exact List.forall_mem_append.2 ⟨h.answers, List.forall_mem_singleton.2 (by simpa using held)⟩
    · simpa [stagedPaths_concat] using h.order
  · have unheld : ¬x.Held w.tree := fun held => by
      obtain ⟨_, kept', found⟩ := same.2 held
      cases kept.symm.trans kept'
      exact new found
    refine ⟨by simpa using staged, ?_, ?_, fun path hpath => ?_⟩
    · exact List.forall_mem_append.2
        ⟨h.answers, List.forall_mem_singleton.2 (by simpa using unheld)⟩
    · rw [pending, stagedPaths_concat, ← h.order, remember]
      by_cases known : x.path ∈ v.pending <;> simp [known]
    · by_cases old : path ∈ v.pending
      · exact still old
      · obtain rfl := eq_of_mem_remember (pending ▸ hpath) old
        obtain ⟨b, target, free⟩ := FileTree.place_of_staged source named file
        exact ⟨a, b, FileTree.place_of_directories (fun loc => (directories loc).2) source,
          FileTree.place_of_directories (fun loc => (directories loc).2) target,
          mt (directories b).1 free⟩

theorem Isolated.more (h : Isolated done w v) (unmixed : Unmixed paths)
    (off : LogFile.Off w.log (placesOf paths)) (named : ∀ call ∈ calls, call.1.path ≠ "")
    (inside : ∀ call ∈ done ++ calls, call.1.path ∈ paths) (run : Gives calls v u) :
    Isolated (done ++ calls) w u := by
  induction calls generalizing done v with
  | nil =>
    cases run
    rwa [List.append_nil]
  | cons call calls ih =>
    obtain ⟨x, answer⟩ := call
    rw [List.append_cons] at inside ⊢
    unfold Gives at run
    rw [List.map_cons, List.mapM_cons] at run
    obtain ⟨first, t, hfirst, run⟩ := bind_eq_ok.1 run
    obtain ⟨later, s, hlater, run⟩ := bind_eq_ok.1 run
    obtain ⟨same, rfl⟩ := pure_eq_ok.1 run
    obtain ⟨rfl, rfl⟩ := List.cons.inj same
    obtain ⟨here, named⟩ := List.forall_mem_cons.1 named
    refine ih (h.call unmixed off here ?_ hfirst) named inside hlater
    simpa [or_imp, forall_and] using fun y hy => inside y (List.mem_append_left _ hy)

section
variable (h : Isolated calls w v)
include h

theorem Isolated.waiting : v.pending ⊆ calls.map fun call => call.1.path := fun path hpath => by
  obtain ⟨y, hy, rfl, -⟩ := (h.staged.waits path).1 hpath
  obtain ⟨call, hcall, rfl⟩ := List.mem_map.1 hy
  exact List.mem_map_of_mem hcall

theorem Isolated.others {loc : Location} (outside : loc ∉ draftPlaces v.pending)
    (off : LogFile.Off w.log {loc}) : v.tree.lookup loc = w.tree.lookup loc :=
  FileTree.lookup_of_same (h.staged.files loc outside off) (h.staged.directories loc)

theorem Isolated.prevails (last : LastStaged calls x) :
    Prevails w.tree x.path (calls.map Prod.fst) x := by
  obtain ⟨early, late, rfl, idle⟩ := last
  refine ⟨early.map Prod.fst, late.map Prod.fst, by simp, rfl,
    (h.answers (x, true) (by simp)).1 rfl, fun y hy same => ?_⟩
  obtain ⟨call, hcall, rfl⟩ := List.mem_map.1 hy
  have quiet := idle call hcall same
  by_contra unheld
  simp [(h.answers call (by simp [hcall])).2 unheld] at quiet

theorem Isolated.source {path : String} (hpath : path ∈ v.pending) : ∃ a content,
    v.tree.place (stagedPath path) = .ok (.entry a false) ∧ v.tree.fileAt a = some content := by
  obtain ⟨a, -, source, -⟩ := h.ready path hpath
  obtain ⟨content, found⟩ := Option.ne_none_iff_exists'.1
    (h.staged.stocked a ⟨path, hpath, FileTree.location_of_place source⟩)
  exact ⟨a, content, source, found⟩

variable (unmixed : Unmixed (calls.map fun call => call.1.path))
include unmixed

theorem Isolated.apart : DraftsApart v.pending :=
  draftsApart_of_files (unmixed.subset h.waiting) h.staged.nodup fun path hpath => by
    obtain ⟨-, b, -, target, -⟩ := h.ready path hpath
    exact ⟨b, target⟩

theorem Isolated.commit (off : LogFile.Off w.log (placesOf (calls.map fun call => call.1.path))) :
    ∃ u, Workspace.commit v = (.ok v.pending.length, u) ∧ u.pending = [] ∧
      (∀ x, LastStaged calls x → x.Held u.tree) ∧
      (∀ loc ∈ draftPlaces v.pending, u.tree.lookup loc = none) ∧
      ∀ loc ∉ placesOf v.pending, LogFile.Off w.log {loc} →
        u.tree.lookup loc = w.tree.lookup loc := by
  have movable : ∀ p ∈ v.pending, ∃ a b content, v.tree.Movable p a b content := fun p hp => by
    obtain ⟨a, b, source, target, free⟩ := h.ready p hp
    obtain ⟨_, content, source', found⟩ := h.source hp
    cases source.symm.trans source'
    exact ⟨a, b, content, source, target, found, free⟩
  obtain ⟨m, committed, moves⟩ := commit_of_movable h.staged.nodup (unmixed.subset h.waiting)
    (h.apart unmixed) movable
  have paths : (calls.map Prod.fst).map Draft.path = calls.map fun call => call.1.path := by simp
  have texts := (h.staged.commit (paths ▸ unmixed) (paths ▸ off) committed).1
  refine ⟨_, committed, rfl, fun x last => texts x.path x (h.prevails last), ?_, ?_⟩
  · rintro loc ⟨p, hp, located⟩
    obtain ⟨a, b, content, movable, gone, -⟩ := moves.placed p hp
    obtain rfl := Option.some_inj.1 (located.symm.trans (FileTree.location_of_place movable.source))
    refine FileTree.lookup_eq_none gone (mt (moves.directories loc).1 ?_)
    exact FileTree.not_directory_of_file (by simp [movable.found])
  · intro loc outside away
    have beside : loc ∉ draftPlaces v.pending := fun ⟨p, hp, located⟩ =>
      outside ⟨p, hp, .inr located⟩
    exact (FileTree.lookup_of_same (moves.others loc outside) (moves.directories loc)).trans
      (h.others beside away)

theorem Isolated.discard :
    ∃ u, Workspace.discard v = (.ok (), u) ∧ u.pending = [] ∧
      (∀ loc ∈ draftPlaces v.pending, u.tree.lookup loc = none) ∧
      ∀ loc ∉ draftPlaces v.pending, u.tree.lookup loc = v.tree.lookup loc := by
  obtain ⟨m, run, drops⟩ := drops_of_files (h.apart unmixed) fun p => h.source
  refine ⟨{ m with pending := [] }, ?_, rfl, fun loc hloc => ?_, fun loc outside =>
    FileTree.lookup_of_same (drops.others loc outside) (drops.directories loc)⟩
  · rw [Workspace.discard, bind_of_ok (get_apply v), bind_of_ok run]
    rfl
  · exact FileTree.lookup_eq_none (drops.gone loc hloc) (mt (drops.directories loc).1
      (FileTree.not_directory_of_file (h.staged.stocked loc hloc)))

end

/-- Texts are given to paths that lead to different files, none of them where another's is staged.
Until a commit the paths wait whose texts were staged, in the order in which they first were, and
nothing but the files staged for them has changed. A commit then returns their number, puts the text
that was staged last for a path into its place and takes all staged files away; a discard just takes
these away. Nothing waits any more after either of them, and nothing else has changed. -/
theorem staging_isolated (pending : w.pending = []) (named : ∀ call ∈ calls, call.1.path ≠ "")
    (unmixed : Unmixed (calls.map fun call => call.1.path))
    (off : LogFile.Off w.log (placesOf (calls.map fun call => call.1.path)))
    (given : Gives calls w v) :
    v.pending = stagedPaths calls ∧
    (∀ path ∈ v.pending, ∃ x, LastStaged calls x ∧ x.path = path) ∧
    (∀ loc ∉ draftPlaces v.pending, LogFile.Off w.log {loc} →
      v.tree.lookup loc = w.tree.lookup loc) ∧
    (∃ u, Workspace.commit v = (.ok v.pending.length, u) ∧ u.pending = [] ∧
      (∀ x, LastStaged calls x → x.Held u.tree) ∧
      (∀ loc ∈ draftPlaces v.pending, u.tree.lookup loc = none) ∧
      ∀ loc ∉ placesOf v.pending, LogFile.Off w.log {loc} →
        u.tree.lookup loc = w.tree.lookup loc) ∧
    ∃ u, Workspace.discard v = (.ok (), u) ∧ u.pending = [] ∧
      (∀ loc ∈ draftPlaces v.pending, u.tree.lookup loc = none) ∧
      ∀ loc ∉ draftPlaces v.pending, u.tree.lookup loc = v.tree.lookup loc := by
  have done : Isolated calls w v := (Isolated.start pending).more unmixed off named
    (fun call hcall => List.mem_map_of_mem hcall) given
  exact ⟨done.order, fun path hpath => exists_lastStaged (done.order ▸ hpath),
    fun _ => done.others, done.commit unmixed off, done.discard unmixed⟩

/-- One file gets a new text and then its old one, which is not staged, and another two new ones. -/
def answered : List (Draft × Bool) := backAndForth.zip [true, true, false, true]

theorem staging_isolated_of_backAndForth : ∃ v, oneFile.pending = [] ∧
    (∀ call ∈ answered, call.1.path ≠ "") ∧ Unmixed (answered.map fun call => call.1.path) ∧
    LogFile.Off oneFile.log (placesOf (answered.map fun call => call.1.path)) ∧
    Gives answered oneFile v ∧ v.pending = ["p", "q"] ∧
    (∃ u, Workspace.commit v = (.ok v.pending.length, u) ∧ Held u.tree ⟨"p", "new"⟩ ∧
      Held u.tree ⟨"q", "second"⟩) ∧
    ∃ u, Workspace.discard v = (.ok (), u) ∧ u.tree.lookup ["p"] = v.tree.lookup ["p"] := by
  have named : ∀ call ∈ answered, call.1.path ≠ "" := by decide
  have unmixed : Unmixed (answered.map fun call => call.1.path) := backAndForth_unmixed
  have off : LogFile.Off oneFile.log (placesOf (answered.map fun call => call.1.path)) :=
    fun _ hlog => by cases hlog
  have run : ((answered.map Prod.fst).mapM (fun x => stage x.path x.text) oneFile).1 =
      .ok (answered.map Prod.snd) := by decide +kernel
  have given : Gives answered oneFile
      ((answered.map Prod.fst).mapM (fun x => stage x.path x.text) oneFile).2 := Prod.ext run rfl
  obtain ⟨order, -, -, ⟨u, committed, -, texts, -⟩, t, discarded, -, -, kept⟩ :=
    staging_isolated rfl named unmixed off given
  refine ⟨_, rfl, named, unmixed, off, given, order.trans (by decide), ⟨u, committed,
    texts ⟨"p", "new"⟩ ⟨[], answered.drop 1, rfl, by decide⟩,
    texts ⟨"q", "second"⟩ ⟨answered.take 3, [], rfl, by decide⟩⟩, t, discarded, kept _ ?_⟩
  rintro ⟨path, hpath, located⟩
  have hpath : path ∈ ["p", "q"] := (by decide : stagedPaths answered = ["p", "q"]) ▸ order ▸ hpath
  obtain ⟨-, -, first, second⟩ := backAndForth_places
  simp only [List.mem_cons, List.not_mem_nil, or_false] at hpath
  obtain rfl | rfl := hpath
  · exact absurd (first.symm.trans located) (by decide)
  · exact absurd (second.symm.trans located) (by decide)

end Draft
end ScriptGlue
