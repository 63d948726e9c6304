import ScriptGlue.Proofs.Files.Discard
import ScriptGlue.Proofs.Files.Standing

/-! # Drafts

Saves leave drafts beside the places of the paths that wait; a discard takes exactly these away, and
a commit moves them. As directories stay, the log file stays where it is if it lies at none of the
places concerned, and all other files are as they were.
-/
namespace ScriptGlue
open ScriptGlue.Action

def FileTree.Reached (t : FileTree) (loc : Location) : Prop :=
  ∀ above, above <+: loc → above ≠ loc → t.lookup above = some .directory

namespace Workspace
variable {w v u : Workspace} {loc : Location} {locs : Set Location} {path : String}

def logPlace (w : Workspace) : Option Location := w.log.bind LogFile.location

def Anchored (w : Workspace) : Prop := ∀ loc, w.logPlace = some loc → w.tree.Reached loc

theorem Anchored.off_or_directory (h : w.Anchored) (away : w.logPlace ≠ some loc) :
    LogFile.Off w.log {loc} ∨ w.tree.lookup loc = some .directory := by
  by_cases below : ∃ at_, w.logPlace = some at_ ∧ loc <+: at_
  · obtain ⟨at_, lies, above⟩ := below
    exact .inr (h at_ lies loc above fun same => away (same ▸ lies))
  · refine .inl fun file hfile at_ hat other hother above => below ⟨at_, ?_, hother ▸ above⟩
    rw [logPlace, hfile]
    exact hat

/-- Directories stay, and files change at some locations only, and where the log file lies. -/
structure Frame (locs : Set Location) (w v : Workspace) : Prop where
  log : v.log = w.log
  directories : ∀ loc, w.tree.lookup loc = some .directory → v.tree.lookup loc = some .directory
  files : ∀ loc ∉ locs, w.logPlace ≠ some loc → v.tree.fileAt loc = w.tree.fileAt loc

namespace Frame

theorem refl (locs : Set Location) (w : Workspace) : Frame locs w w :=
  ⟨rfl, fun _ h => h, fun _ _ _ => rfl⟩

theorem logPlace (h : Frame locs w v) : v.logPlace = w.logPlace := by
  rw [Workspace.logPlace, h.log, Workspace.logPlace]

theorem trans (h : Frame locs w v) (g : Frame locs v u) : Frame locs w u where
  log := g.log.trans h.log
  directories loc there := g.directories loc (h.directories loc there)
  files loc outside away :=
    (g.files loc outside (h.logPlace ▸ away)).trans (h.files loc outside away)

theorem mono {more : Set Location} (h : Frame locs w v) (inside : locs ⊆ more) : Frame more w v :=
  ⟨h.log, h.directories, fun loc outside => h.files loc fun hloc => outside (inside hloc)⟩

theorem anchored (h : Frame locs w v) (anchor : w.Anchored) : v.Anchored := by
  intro loc lies above below apart
  exact h.directories above (anchor loc (h.logPlace ▸ lies) above below apart)

theorem pending (h : Frame locs w v) (paths : List String) :
    Frame locs w { v with pending := paths } := ⟨h.log, h.directories, h.files⟩

end Frame

theorem Rested.frame (h : Rested w v) (anchor : w.Anchored) : Frame locs w v where
  log := h.log
  directories := h.directories
  files loc _ away := by
    obtain off | there := anchor.off_or_directory away
    · exact h.files loc off
    · rw [FileTree.fileAt, FileTree.fileAt, there, h.directories loc there]

theorem frame_put {content : Content} (file : w.tree.lookup loc ≠ some .directory)
    (inside : loc ∈ locs) : Frame locs w { w with tree := w.tree.put loc (.file content) } where
  log := rfl
  directories _ := FileTree.directory_put file
  files _ outside _ := FileTree.fileAt_put_of_ne fun same => outside (same ▸ inside)

theorem frame_erase (file : w.tree.lookup loc ≠ some .directory) (inside : loc ∈ locs) :
    Frame locs w { w with tree := w.tree.erase loc } where
  log := rfl
  directories _ := FileTree.directory_erase file
  files _ outside _ := FileTree.fileAt_erase_of_ne fun same => outside (same ▸ inside)

/-- The places for the staged texts of some paths. -/
def draftPlaces (paths : List String) : Set Location :=
  {loc | ∃ path ∈ paths, Path.location? (stagedPath path) = some loc}

theorem draftPlaces_mono {paths more : List String} (h : paths ⊆ more) :
    draftPlaces paths ⊆ draftPlaces more := fun _ ⟨path, hpath, located⟩ => ⟨path, h hpath, located⟩

structure Drafted (w v : Workspace) : Prop where
  frame : Frame (draftPlaces v.pending) w v
  waits : ∀ path ∈ v.pending, ∃ loc asDirectory,
    v.tree.place (stagedPath path) = .ok (.entry loc asDirectory)

theorem drafted_refl (pending : w.pending = []) : Drafted w w :=
  ⟨.refl _ w, by simp [pending]⟩

theorem Drafted.later (h : Drafted w v) (frame : Frame (draftPlaces u.pending) v u)
    (more : v.pending ⊆ u.pending) (waits : ∀ path ∈ u.pending, path ∉ v.pending →
      ∃ loc asDirectory, u.tree.place (stagedPath path) = .ok (.entry loc asDirectory)) :
    Drafted w u where
  frame := (h.frame.mono (draftPlaces_mono more)).trans frame
  waits path hpath := by
    by_cases old : path ∈ v.pending
    · obtain ⟨loc, asDirectory, placed⟩ := h.waits path old
      exact ⟨loc, asDirectory, FileTree.place_of_directories frame.directories placed⟩
    · exact waits path hpath old

theorem Drafted.rested (h : Drafted w v) (rested : Rested v u) (anchor : w.Anchored) :
    Drafted w u :=
  h.later (rested.frame (h.frame.anchored anchor)) (rested.pending ▸ List.Subset.refl _)
    fun _ hpath old => absurd (rested.pending ▸ hpath) old

theorem mem_remember : path ∈ (w.remember path).pending := by
  unfold remember
  simp only
  split
  · next known => simpa using known
  · simp

theorem subset_remember : w.pending ⊆ (w.remember path).pending := by
  unfold remember
  simp only
  split
  · exact List.Subset.refl _
  · exact List.subset_append_left _ _

theorem nodup_remember (h : w.pending.Nodup) : (w.remember path).pending.Nodup := by
  unfold remember
  simp only
  split
  · exact h
  · next new =>
    have new : path ∉ w.pending := by simpa using new
    exact List.nodup_append.2 ⟨h, List.pairwise_singleton .., fun other hother _ hpath same =>
      new (List.mem_singleton.1 hpath ▸ same ▸ hother)⟩

theorem eq_of_mem_remember {other : String} (h : other ∈ (w.remember path).pending)
    (new : other ∉ w.pending) : other = path := by
  unfold remember at h
  simp only at h
  split at h
  · exact absurd h new
  · simpa [new] using h

end Workspace

namespace Save
open Workspace
variable {x : Save} {w v u : Workspace}

theorem drafted_run {result : Unit} (h : Drafted w v) (anchor : w.Anchored)
    (run : x.run v = (.ok result, u)) : Drafted w u := by
  obtain ⟨tree, made, run⟩ := run_ok run
  have more := FileTree.moreDirectories_ensureDirectory v.tree x.directory
  rw [← made] at more
  have first := h.rested (rested_tree more) anchor
  obtain ⟨_, -, -, quiet⟩ | ⟨-, characters, kept, ⟨-, quiet⟩ | ⟨-, written, done, quiet⟩⟩ := run
  · exact first.rested quiet.rested anchor
  · exact first.rested quiet.rested anchor
  · obtain ⟨loc, asDirectory, placed, -, -⟩ := FileTree.write_eq_ok done
    obtain ⟨at_, located, file, -, rfl⟩ := FileTree.write_of_ok done
    have here : loc = at_ := Option.some_inj.1 ((FileTree.location_of_place placed).symm.trans located)
    subst here
    have directories {other : Location} := @FileTree.directory_put tree loc other (.text characters) file
    have here : loc ∈ draftPlaces (remember x.path { v with
        tree := tree.put loc (.file (.text characters)) }).pending :=
      ⟨x.path, mem_remember, located⟩
    refine (first.later (u := remember x.path { v with
      tree := tree.put loc (.file (.text characters)) }) ?_ subset_remember
      fun path hpath new => ?_).rested quiet.rested anchor
    · exact Frame.pending (frame_put (w := { v with tree }) file here) _
    · obtain rfl := eq_of_mem_remember hpath new
      exact ⟨loc, asDirectory, FileTree.place_of_directories (fun _ => directories) placed⟩

theorem Saves.drafted {xs : List Save} (h : Saves xs w v) (pending : w.pending = [])
    (anchor : w.Anchored) : Drafted w v := by
  induction h with
  | quiet quiet => exact (drafted_refl pending).rested quiet.rested anchor
  | save _ saved after ih =>
    exact (drafted_run (ih pending anchor) anchor saved).rested after.rested anchor

end Save

abbrev FaultsOverFiles {σ α : Type} (a : Action σ α) : Prop :=
  Meets (fun _ => True) (fun e _ => ∃ fault, e = .file fault) a fun _ => True

namespace Workspace

theorem faultsOverFiles_tell (level : Level) (source : Source) (text : String) :
    FaultsOverFiles (tell level source text) := .modify fun _ h => h

theorem faultsOverFiles_onTree (operation : FileTree → Except FileFault FileTree) :
    FaultsOverFiles (onTree operation) where
  result _ _ := ⟨trivial, trivial⟩
  fault {s t e} _ h := by
    unfold onTree at h
    split at h
    · cases h
    · cases h
      exact ⟨_, rfl⟩

theorem faultsOverFiles_held (path : String) : FaultsOverFiles (held path) where
  result _ _ := ⟨trivial, trivial⟩
  fault {s t e} _ h := by
    unfold held at h
    split at h <;> cases h
    exact ⟨_, rfl⟩

theorem faultsOverFiles_ensureDirectory (path : String) :
    FaultsOverFiles (ensureDirectory path) := by
  refine .get_bind fun w _ => ?_
  rcases w.tree.ensureDirectory path with ⟨result, tree⟩
  refine Meets.bind (Q := fun _ => True) ⟨fun _ _ => ⟨trivial, trivial⟩, fun _ h => by cases h⟩
    fun _ _ => ?_
  split
  · exact .pure trivial
  · exact .throw fun _ _ => ⟨_, rfl⟩
  · exact .throw fun _ _ => ⟨_, rfl⟩
  · exact (faultsOverFiles_tell _ _ _).bind fun _ _ => .pure trivial

theorem faultsOverFiles_stage (path text : String) : FaultsOverFiles (stage path text) := by
  refine (faultsOverFiles_held path).bind fun _ _ => ?_
  split
  · exact (faultsOverFiles_onTree _).bind fun _ _ => .throw fun _ _ => ⟨_, rfl⟩
  · refine .ite (fun _ => .pure trivial) fun _ => (faultsOverFiles_onTree _).bind fun _ _ => ?_
    exact Meets.bind (.modify fun _ h => h) fun _ _ =>
      (faultsOverFiles_tell _ _ _).bind fun _ _ => .pure trivial

theorem faultsOverFiles_remove (path : String) : FaultsOverFiles (remove path) := by
  refine .get_bind fun w _ => (faultsOverFiles_onTree _).bind fun _ _ => ?_
  split
  · exact .modify fun _ h => h
  · exact .pure trivial

theorem faultsOverFiles_moveIntoPlace (path : String) : FaultsOverFiles (moveIntoPlace path) := by
  refine .get_bind fun w _ => (faultsOverFiles_onTree _).bind fun _ _ => ?_
  split
  · exact .modify fun _ h => h
  · exact .pure trivial

theorem faultsOverFiles_commit : FaultsOverFiles commit :=
  .get_bind fun _ _ => (Meets.forM fun path _ => faultsOverFiles_moveIntoPlace path).bind
    fun _ _ => Meets.bind (.modify fun _ h => h) fun _ _ => .pure trivial

end Workspace

theorem Save.faultsOverFiles_run (x : Save) : FaultsOverFiles x.run := by
  refine (Workspace.faultsOverFiles_ensureDirectory _).bind fun _ _ => .ite (fun _ => ?_) fun _ =>
    .pure trivial
  exact (Workspace.faultsOverFiles_stage _ _).bind fun _ _ =>
    .ite (fun _ => Workspace.faultsOverFiles_tell _ _ _) fun _ => .pure trivial

namespace Workspace
variable {w v u : Workspace} {loc : Location} {path : String} {paths : List String}

/-- A file that is removed is gone; the log file is another one. -/
theorem remove_ok {x : Unit} (h : remove path w = (.ok x, v))
    (located : Path.location? path = some loc) (away : w.logPlace ≠ some loc) :
    Frame {loc} w v ∧ v.tree.fileAt loc = none ∧ v.pending = w.pending := by
  obtain ⟨_, _, hget, h⟩ := bind_eq_ok.1 h
  obtain ⟨rfl, rfl⟩ := get_eq_ok.1 hget
  obtain ⟨_, _, hremove, h⟩ := bind_eq_ok.1 h
  obtain ⟨tree, removed, rfl⟩ := onTree_ok hremove
  obtain ⟨at_, placed, there, rfl⟩ := FileTree.remove_eq_ok removed
  obtain rfl : at_ = loc := Option.some_inj.1 ((FileTree.location_of_place placed).symm.trans located)
  have gone : (w.tree.erase at_).fileAt at_ = none := by
    obtain ⟨content, found⟩ := Option.ne_none_iff_exists'.1 there
    rw [FileTree.fileAt, FileTree.lookup_erase_self
      (FileTree.not_top_of_file (FileTree.fileAt_eq_some.1 found))]
  have stays : w.log.map (fun log => log.removed at_) = w.log := by
    cases hlog : w.log with
    | none => rfl
    | some log =>
      have other : log.location ≠ some at_ := by simpa [logPlace, hlog] using away
      have kept : log.location.filter (· != at_) = log.location := by
        cases lies : log.location with
        | none => rfl
        | some place => simpa [lies] using other
      rw [Option.map_some, LogFile.removed, kept]
  rw [placed] at h
  obtain rfl := modify_eq_ok.1 h
  have frame := @frame_erase w at_ {at_} (FileTree.not_directory_of_file there) rfl
  exact ⟨⟨stays, frame.directories, frame.files⟩, gone, rfl⟩

/-- A fault of a removal that is dropped is passed on unless the file is missing. -/
theorem dropStaged_apply (path : String) (w : Workspace) :
    dropStaged path w = match remove (stagedPath path) w with
      | (.ok _, v) => (.ok (), v)
      | (.error fault, v) => (if fault = .file .missing then .ok () else .error fault, v) := by
  unfold dropStaged
  simp only [bind_apply, tryCatch_apply]
  rcases remove (stagedPath path) w with ⟨fault | _, v⟩
  · by_cases missing : fault = .file .missing <;> simp only [missing, ↓reduceIte] <;> rfl
  · rfl

theorem remove_eq_error {e : Fault} (h : remove path w = (.error e, v)) :
    v = w ∧ ∃ fault, e = .file fault ∧ w.tree.remove path = .error fault := by
  obtain h | ⟨_, _, hget, h⟩ := bind_eq_error.1 h
  · cases h
  obtain ⟨rfl, rfl⟩ := get_eq_ok.1 hget
  obtain h | ⟨_, _, -, h⟩ := bind_eq_error.1 h
  · unfold onTree at h
    split at h
    · cases h
    · next fault failed =>
      cases h
      exact ⟨rfl, fault, rfl, failed⟩
  · generalize w.tree.place path = at_ at h
    obtain _ | _ | _ := at_ <;> cases h

/-- A staged file that is dropped is gone, and one that is missing was not there. -/
theorem dropStaged_ok {asDirectory : Bool} {x : Unit} (h : dropStaged path w = (.ok x, v))
    (placed : w.tree.place (stagedPath path) = .ok (.entry loc asDirectory))
    (away : w.logPlace ≠ some loc) :
    Frame {loc} w v ∧ v.tree.fileAt loc = none ∧ v.pending = w.pending := by
  rw [dropStaged_apply] at h
  rcases removed : remove (stagedPath path) w with ⟨fault | _, u⟩
  · rw [removed] at h
    obtain ⟨rfl, cause, rfl, failed⟩ := remove_eq_error removed
    by_cases missing : cause = .missing
    · subst missing
      cases h
      refine ⟨.refl _ _, ?_, rfl⟩
      simp only [FileTree.remove, placed, Bind.bind, Except.bind] at failed
      unfold FileTree.fileAt
      split at failed
      · next none => rw [none]
      · cases failed
      · split at failed <;> cases failed
    · simp [missing] at h
  · rw [removed] at h
    cases h
    exact remove_ok removed (FileTree.location_of_place placed) away

theorem faultsOverFiles_discard : FaultsOverFiles discard := by
  have dropped (path : String) : FaultsOverFiles (dropStaged path) := by
    refine ⟨fun _ _ => ⟨trivial, trivial⟩, fun {w v e} _ h => ?_⟩
    rw [dropStaged_apply] at h
    rcases removed : remove (stagedPath path) w with ⟨fault | _, u⟩ <;> rw [removed] at h
    · obtain ⟨cause, rfl⟩ := (faultsOverFiles_remove _).fault trivial removed
      by_cases missing : cause = .missing
      · simp [missing] at h
      · simp only [Fault.file.injEq, missing, ↓reduceIte] at h
        cases h
        exact ⟨cause, rfl⟩
    · cases h
  exact .get_bind fun _ _ => (Meets.forM fun path _ => dropped path).bind fun _ _ =>
    .modify fun _ h => h

theorem forM_dropStaged_ok {x : Unit} (h : paths.forM dropStaged w = (.ok x, v))
    (waits : ∀ path ∈ paths, ∃ loc asDirectory,
      w.tree.place (stagedPath path) = .ok (.entry loc asDirectory))
    (away : ∀ loc ∈ draftPlaces paths, w.logPlace ≠ some loc) :
    Frame (draftPlaces paths) w v ∧ ∀ loc ∈ draftPlaces paths, v.tree.fileAt loc = none := by
  induction paths generalizing w with
  | nil =>
    cases h
    exact ⟨.refl _ _, by simp [draftPlaces]⟩
  | cons path rest ih =>
    rw [forM_cons] at h
    obtain ⟨_, u, first, later⟩ := bind_eq_ok.1 h
    obtain ⟨loc, asDirectory, placed⟩ := waits path List.mem_cons_self
    have here : loc ∈ draftPlaces (path :: rest) :=
      ⟨path, List.mem_cons_self, FileTree.location_of_place placed⟩
    have others : draftPlaces rest ⊆ draftPlaces (path :: rest) :=
      draftPlaces_mono (List.subset_cons_self _ _)
    obtain ⟨frame, gone, -⟩ := dropStaged_ok first placed (away loc here)
    obtain ⟨frame', gone'⟩ := ih later
      (fun other hother => by
        obtain ⟨at_, asDirectory', placed'⟩ := waits other (List.mem_cons_of_mem _ hother)
        exact ⟨at_, asDirectory', FileTree.place_of_directories frame.directories placed'⟩)
      (fun at_ hat => frame.logPlace ▸ away at_ (others hat))
    refine ⟨(frame.mono (Set.singleton_subset_iff.2 here)).trans (frame'.mono others), ?_⟩
    rintro at_ ⟨other, hother, located⟩
    by_cases again : at_ ∈ draftPlaces rest
    · exact gone' at_ again
    · obtain rfl | hother := List.mem_cons.1 hother
      · obtain rfl : at_ = loc :=
          Option.some_inj.1 (located.symm.trans (FileTree.location_of_place placed))
        exact (frame'.files at_ again (frame.logPlace ▸ away at_ here)).trans gone
      · exact absurd ⟨other, hother, located⟩ again

/-- What is left after drafts and their discard: where a draft was there is no file, nothing waits,
and all other files are those from before. -/
theorem Drafted.discard_ok {x : Unit} (h : Drafted w v)
    (away : ∀ loc ∈ draftPlaces v.pending, w.logPlace ≠ some loc)
    (discarded : discard v = (.ok x, u)) :
    Frame (draftPlaces v.pending) w u ∧ u.pending = [] ∧
      ∀ loc ∈ draftPlaces v.pending, u.tree.fileAt loc = none := by
  obtain ⟨_, _, hget, discarded⟩ := bind_eq_ok.1 discarded
  obtain ⟨rfl, rfl⟩ := get_eq_ok.1 hget
  obtain ⟨_, t, dropped, hclear⟩ := bind_eq_ok.1 discarded
  obtain rfl := modify_eq_ok.1 hclear
  obtain ⟨frame, gone⟩ := forM_dropStaged_ok dropped h.waits fun loc hloc =>
    h.frame.logPlace ▸ away loc hloc
  exact ⟨(h.frame.trans frame).pending [], rfl, gone⟩

/-- The places of some paths, and those for their staged texts. -/
def placesOf (paths : List String) : Set Location :=
  {loc | ∃ path ∈ paths, Path.location? path = some loc ∨
    Path.location? (stagedPath path) = some loc}

theorem moved_of_anchored {a b : Location} {content : Content} (anchor : w.Anchored)
    (found : w.tree.fileAt a = some content) (source : w.logPlace ≠ some a)
    (target : w.logPlace ≠ some b) : (w.log.map fun file => file.moved a b) = w.log := by
  cases hlog : w.log with
  | none => rfl
  | some file =>
    have lies : w.logPlace = file.location := by rw [logPlace, hlog]; rfl
    have stays : file.location.bind (LogFile.follow a b) = file.location := by
      cases at_ : file.location with
      | none => rfl
      | some loc =>
        rw [at_] at lies
        have first : ¬a <+: loc := fun above => by
          have there := anchor loc lies a above fun same => source (same ▸ lies)
          cases (FileTree.fileAt_eq_some.1 found).symm.trans there
        have second : loc ≠ b := fun same => target (same ▸ lies)
        rw [Option.bind_some, LogFile.follow,
          if_neg fun same => first (List.prefix_iff_eq_take.2 same.symm), if_neg second]
    rw [Option.map_some, LogFile.moved, stays]

theorem forM_moveIntoPlace_frame_of_files {x : Unit} (anchor : w.Anchored)
    (away : ∀ loc ∈ placesOf paths, w.logPlace ≠ some loc)
    (files : ∀ path ∈ paths, ∀ a, Path.location? (stagedPath path) = some a →
      w.tree.lookup a ≠ some .directory)
    (h : paths.forM moveIntoPlace w = (.ok x, v)) : Frame (placesOf paths) w v := by
  induction paths generalizing w with
  | nil =>
    cases h
    exact .refl _ _
  | cons path rest ih =>
    rw [forM_cons] at h
    obtain ⟨_, u, first, later⟩ := bind_eq_ok.1 h
    have others : placesOf rest ⊆ placesOf (path :: rest) := fun loc ⟨other, hother, located⟩ =>
      ⟨other, List.mem_cons_of_mem _ hother, located⟩
    obtain ⟨a, b, content, source, target, found, free, rfl⟩ :=
      moveIntoPlace_of_file first (files path List.mem_cons_self)
    have hereA : a ∈ placesOf (path :: rest) :=
      ⟨path, List.mem_cons_self, .inr (FileTree.location_of_place source)⟩
    have hereB : b ∈ placesOf (path :: rest) :=
      ⟨path, List.mem_cons_self, .inl (FileTree.location_of_place target)⟩
    have file : w.tree.lookup a ≠ some .directory :=
      FileTree.not_directory_of_file (by simp [found])
    have moved : Frame (placesOf (path :: rest)) w { w with
        tree := (w.tree.erase a).put b (.file content)
        log := w.log.map fun file => file.moved a b } := by
      have put : Frame (placesOf (path :: rest)) { w with tree := w.tree.erase a }
          { w with tree := (w.tree.erase a).put b (.file content) } :=
        frame_put (FileTree.not_directory_of_erase free) hereB
      have frame := (frame_erase file hereA).trans put
      exact ⟨moved_of_anchored anchor found (away a hereA) (away b hereB), frame.directories,
        frame.files⟩
    have frame := ih (moved.anchored anchor) (fun loc hloc => moved.logPlace ▸ away loc (others hloc))
      (fun other hother c located => FileTree.not_directory_of_put
        (FileTree.not_directory_of_erase (files other (List.mem_cons_of_mem _ hother) c located))) later
    exact moved.trans (frame.mono others)

end Workspace

namespace Save
open Workspace
variable {xs : List Save} {w v u : Workspace}

theorem Saves.draftPlaces_subset (h : Saves xs w v) (pending : w.pending = []) {loc : Location}
    (hloc : loc ∈ draftPlaces v.pending) :
    ∃ x ∈ xs, Path.location? x.staged = some loc := by
  obtain ⟨path, hpath, located⟩ := hloc
  obtain ⟨⟨x, hx, rfl⟩, -⟩ := (h.stocked pending).staged path hpath
  exact ⟨x, hx, located⟩

/-- A commit of saves leaves the log file where it is, in its directories, and nothing waits. -/
theorem Saves.commit_frame {n : Nat} (h : Saves xs w v) (pending : w.pending = [])
    (anchor : w.Anchored) (away : ∀ x ∈ xs, ∀ loc ∈ x.places, w.logPlace ≠ some loc)
    (committed : commit v = (.ok n, u)) : Frame Set.univ w u ∧ u.pending = [] := by
  have drafted := h.drafted pending anchor
  have stocked := h.stocked pending
  obtain ⟨m, moves, rfl⟩ := Workspace.commit_ok committed
  refine ⟨(drafted.frame.mono (Set.subset_univ _)).trans (Frame.pending (Frame.mono
    (forM_moveIntoPlace_frame_of_files (drafted.frame.anchored anchor) ?_ stocked.files moves)
    (Set.subset_univ _)) _), rfl⟩
  rintro loc ⟨path, hpath, located⟩
  obtain ⟨⟨x, hx, rfl⟩, -⟩ := stocked.staged path hpath
  rw [drafted.frame.logPlace]
  exact away x hx loc located

end Save

end ScriptGlue
