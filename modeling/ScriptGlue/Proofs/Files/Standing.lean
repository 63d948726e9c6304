import ScriptGlue.Proofs.Files.Commit
import ScriptGlue.Proofs.Files.Obstacles

/-! # Saves that rest

A save rests if its text is in place or its directory cannot be made; it then stages nothing. After
a commit every save whose places are its own rests, whatever the others do to each other.
-/
namespace ScriptGlue
open ScriptGlue.Action

namespace FileTree
variable {t u : FileTree} {loc other : Location} {path : String}

theorem read_eq_ok_iff {characters : String} : t.read path = .ok characters ↔
    ∃ loc, t.place path = .ok (.entry loc false) ∧ t.fileAt loc = some (.text characters) := by
  constructor
  · intro h
    obtain ⟨loc, asDirectory, placed, found⟩ := read_eq_ok h
    refine ⟨loc, ?_, found⟩
    cases asDirectory with
    | false => exact placed
    | true => simp [read, placed, fileAt_eq_some.1 found, Bind.bind, Except.bind, throw, throwThe,
        MonadExceptOf.throw] at h
  · rintro ⟨loc, placed, found⟩
    simp only [read, placed, fileAt_eq_some.1 found, Bind.bind, Except.bind]
    rfl

def Lacks (t : FileTree) (path characters : String) : Prop :=
  t.read path = .error .missing ∨ ∃ other, t.read path = .ok other ∧ other ≠ characters

theorem Lacks.not_read {characters : String} (h : t.Lacks path characters) :
    t.read path ≠ .ok characters := by
  intro found
  obtain missing | ⟨other, read, differs⟩ := h
  · cases missing.symm.trans found
  · cases read.symm.trans found
    exact differs rfl

theorem nonempty_of_ensureDirectory (h : (t.ensureDirectory path).1 = .ok ()) : path ≠ "" := by
  rintro rfl
  have top : Path.above? "" = none := by decide
  have bytes : Path.bytes? "" = some [] := by decide
  unfold ensureDirectory at h
  split at h
  · simp [makeOrKeep, makeDirectory, isDirectory, FileTree.place, bytes, Bind.bind, Except.bind] at h
  · next split => cases top.symm.trans split

theorem directory_put {content : Content} (file : t.lookup loc ≠ some .directory)
    (there : t.lookup other = some .directory) :
    (t.put loc (.file content)).lookup other = some .directory := by
  have apart : other ≠ loc := by
    rintro rfl
    exact file there
  rw [lookup_put_of_ne apart]
  exact there

theorem directory_erase (file : t.lookup loc ≠ some .directory)
    (there : t.lookup other = some .directory) :
    (t.erase loc).lookup other = some .directory := by
  have apart : other ≠ loc := by
    rintro rfl
    exact file there
  rw [lookup_erase_of_ne apart]
  exact there

theorem not_directory_of_erase (file : t.lookup loc ≠ some .directory) :
    (t.erase other).lookup loc ≠ some .directory := by
  intro there
  by_cases same : loc = other
  · subst same
    cases top : isTop loc with
    | false => cases (lookup_erase_self top).symm.trans there
    | true => exact file (by rw [lookup, if_pos top])
  · rw [lookup_erase_of_ne same] at there
    exact file there

theorem not_directory_of_put {content : Content} (file : t.lookup loc ≠ some .directory) :
    (t.put other (.file content)).lookup loc ≠ some .directory := by
  intro there
  by_cases same : loc = other
  · subst same
    cases top : isTop loc with
    | false => cases (lookup_put_self top).symm.trans there
    | true => exact file (by rw [lookup, if_pos top])
  · rw [lookup_put_of_ne same] at there
    exact file there

theorem not_directory_of_file (h : t.fileAt loc ≠ none) : t.lookup loc ≠ some .directory := by
  intro there
  exact h (by rw [fileAt, there])

theorem write_of_ok {content : Content} (h : t.write path content = .ok u) :
    ∃ loc, Path.location? path = some loc ∧ t.lookup loc ≠ some .directory ∧ isTop loc = false ∧
      u = t.put loc (.file content) := by
  obtain ⟨loc, asDirectory, placed, top, written⟩ := write_eq_ok h
  refine ⟨loc, location_of_place placed, fun there => ?_, top, written⟩
  simp only [write, placed, there, Bind.bind, Except.bind] at h
  cases h

theorem replace_of_file {source target : String} (h : t.replace source target = .ok u)
    (file : ∀ a, Path.location? source = some a → t.lookup a ≠ some .directory) :
    ∃ a b content, t.place source = .ok (.entry a false) ∧ t.place target = .ok (.entry b false) ∧
      t.fileAt a = some content ∧ t.lookup b ≠ some .directory ∧
      u = (t.erase a).put b (.file content) := by
  unfold replace at h
  cases first : t.place source with
  | error fault =>
    rw [first] at h
    cases h
  | ok place =>
    cases second : t.place target with
    | error fault =>
      rw [first, second] at h
      cases h
    | ok place' =>
      rw [first, second] at h
      simp only [Bind.bind, Except.bind] at h
      cases place with
      | directory _ => cases h
      | entry a aDirectory =>
        cases place' with
        | directory _ => cases h
        | entry b bDirectory =>
          have file := file a (location_of_place first)
          cases found : t.lookup a with
          | none => simp [found, throw, throwThe, MonadExceptOf.throw] at h
          | some node =>
            cases node with
            | directory => exact absurd found file
            | file content =>
              simp only [found] at h
              split at h
              · cases h
              · next plain =>
                split at h
                · cases h
                · next other =>
                  cases h
                  simp only [Bool.or_eq_true, not_or, Bool.not_eq_true] at plain
                  obtain ⟨rfl, rfl⟩ := plain
                  exact ⟨a, b, content, rfl, rfl, fileAt_eq_some.2 found, other, rfl⟩

end FileTree

namespace Workspace
variable {w v u : Workspace} {path : String}

theorem moveIntoPlace_of_file {x : Unit} (h : moveIntoPlace path w = (.ok x, v))
    (file : ∀ a, Path.location? (stagedPath path) = some a → w.tree.lookup a ≠ some .directory) :
    ∃ a b content, w.tree.place (stagedPath path) = .ok (.entry a false) ∧
      w.tree.place path = .ok (.entry b false) ∧ w.tree.fileAt a = some content ∧
      w.tree.lookup b ≠ some .directory ∧
      v = { w with
        tree := (w.tree.erase a).put b (.file content)
        log := w.log.map fun file => file.moved a b } := by
  obtain ⟨_, _, hget, h⟩ := bind_eq_ok.1 h
  obtain ⟨rfl, rfl⟩ := get_eq_ok.1 hget
  obtain ⟨_, _, hmove, h⟩ := bind_eq_ok.1 h
  obtain ⟨tree, moved, rfl⟩ := onTree_ok hmove
  obtain ⟨a, b, content, source, target, found, other, rfl⟩ := FileTree.replace_of_file moved file
  rw [source, target] at h
  cases h
  exact ⟨a, b, content, source, target, found, other, rfl⟩

theorem lacks_or_found {text : String} {staged : Bool} (h : stage path text w = (.ok staged, v))
    (characters : String) : w.tree.read path = .ok characters ∨ w.tree.Lacks path characters := by
  obtain ⟨before, _, hheld, -⟩ := bind_eq_ok.1 h
  unfold held at hheld
  split at hheld
  · next other found =>
    by_cases same : other = characters
    · exact .inl (same ▸ found)
    · exact .inr (.inr ⟨other, found, same⟩)
  · next missing => exact .inr (.inl missing)
  · cases hheld

theorem stage_of_found {text characters : String} {staged : Bool}
    (h : stage path text w = (.ok staged, v)) (kept : Text.characters? text = some characters)
    (found : w.tree.read path = .ok characters) : v = w := by
  simp only [stage, bind_apply, held, found, kept, ↓reduceIte] at h
  exact (pure_eq_ok.1 h).2.symm

theorem commit_ok {n : Nat} (h : commit v = (.ok n, u)) :
    ∃ m, v.pending.forM moveIntoPlace v = (.ok (), m) ∧ u = { m with pending := [] } := by
  obtain ⟨_, _, hget, h⟩ := bind_eq_ok.1 h
  obtain ⟨rfl, rfl⟩ := get_eq_ok.1 hget
  obtain ⟨_, m, hmoves, h⟩ := bind_eq_ok.1 h
  obtain ⟨_, _, hclear, h⟩ := bind_eq_ok.1 h
  obtain rfl := modify_eq_ok.1 hclear
  obtain ⟨-, rfl⟩ := pure_eq_ok.1 h
  exact ⟨m, hmoves, rfl⟩

theorem directory_record (r : Record) {loc : Location} (there : w.tree.lookup loc = some .directory) :
    (w.record r).tree.lookup loc = some .directory := by
  unfold record
  cases w.log with
  | none => exact there
  | some file =>
    simp only
    unfold LogFile.write
    split
    · exact there
    · split
      · split
        · next found =>
          exact FileTree.directory_put (fun other => by cases found.symm.trans other) there
        · exact there
      · exact there

/-- What records and making directories may do: no file changes but the log file. -/
structure Rested (w v : Workspace) : Prop where
  log : v.log = w.log
  pending : v.pending = w.pending
  directories : ∀ loc, w.tree.lookup loc = some .directory → v.tree.lookup loc = some .directory
  vacant : ∀ loc, v.tree.fileAt loc = none ↔ w.tree.fileAt loc = none
  files : ∀ loc, LogFile.Off w.log {loc} → v.tree.fileAt loc = w.tree.fileAt loc

theorem Rested.refl (w : Workspace) : Rested w w :=
  ⟨rfl, rfl, fun _ h => h, fun _ => Iff.rfl, fun _ _ => rfl⟩

theorem Rested.trans (h : Rested w v) (g : Rested v u) : Rested w u where
  log := g.log.trans h.log
  pending := g.pending.trans h.pending
  directories loc there := g.directories loc (h.directories loc there)
  vacant loc := (g.vacant loc).trans (h.vacant loc)
  files loc off := (g.files loc (h.log ▸ off)).trans (h.files loc off)

theorem Quiet.rested (h : w.Quiet v) : Rested w v := by
  obtain ⟨rs, rfl⟩ := h
  induction rs generalizing w with
  | nil => exact .refl w
  | cons r rs ih =>
    have nowhere : LogFile.Off w.log ∅ := fun _ _ _ _ _ h => absurd h (Set.notMem_empty _)
    have first : Rested w (w.record r) :=
      ⟨(alike_record nowhere r).log, rfl, fun loc => directory_record r,
        (alike_record nowhere r).vacant, fun loc off => (alike_record off r).files loc rfl⟩
    exact first.trans ih

theorem rested_tree {tree : FileTree} (more : FileTree.MoreDirectories w.tree tree) :
    Rested w { w with tree } :=
  ⟨rfl, rfl, fun loc => more.keeps loc _, fun loc => by rw [more.files loc],
    fun loc _ => more.files loc⟩

end Workspace

namespace Save
variable {x y : Save} {w v u : Workspace} {t : FileTree}

theorem run_ok {result : Unit} (h : x.run w = (.ok result, u)) :
    ∃ tree, tree = (w.tree.ensureDirectory x.directory).2 ∧
      ((∃ fault, (w.tree.ensureDirectory x.directory).1 = .error fault ∧ ¬FileTree.Textual fault ∧
          Workspace.Quiet { w with tree } u) ∨
        (w.tree.ensureDirectory x.directory).1 = .ok () ∧
          ∃ characters, Text.characters? x.text = some characters ∧
            (tree.read x.path = .ok characters ∧ Workspace.Quiet { w with tree } u ∨
              tree.Lacks x.path characters ∧
                ∃ written, tree.write x.staged (.text characters) = .ok written ∧
                  Workspace.Quiet (Workspace.remember x.path { w with tree := written }) u)) := by
  obtain ⟨made, v, hmade, h⟩ := bind_eq_ok.1 h
  obtain ⟨_, _, hget, hmade⟩ := bind_eq_ok.1 hmade
  obtain ⟨rfl, rfl⟩ := get_eq_ok.1 hget
  rcases result : w.tree.ensureDirectory x.directory with ⟨result, tree⟩
  simp only [result] at hmade
  obtain ⟨_, _, hset, hmade⟩ := bind_eq_ok.1 hmade
  cases hset
  refine ⟨tree, rfl, ?_⟩
  split at hmade
  · cases hmade
    simp only [↓reduceIte] at h
    obtain ⟨staged, v', hstaged, h⟩ := bind_eq_ok.1 h
    obtain ⟨characters, kept, outcome⟩ := Workspace.stage_ok hstaged
    have told : Workspace.Quiet v' u := by
      cases staged with
      | true =>
        cases h
        exact .record _ _
      | false =>
        cases h
        exact .refl _
    refine .inr ⟨rfl, characters, kept, ?_⟩
    obtain found | lacks := Workspace.lacks_or_found hstaged characters
    · obtain rfl := Workspace.stage_of_found hstaged kept found
      exact .inl ⟨found, told⟩
    · obtain ⟨found, -⟩ | ⟨written, done, quiet⟩ := outcome
      · exact absurd found lacks.not_read
      · exact .inr ⟨lacks, written, done, quiet.trans told⟩
  · cases hmade
  · cases hmade
  · next fault nul bytes _ =>
    obtain ⟨_, _, htell, hmade⟩ := bind_eq_ok.1 hmade
    cases htell
    cases hmade
    cases h
    exact .inl ⟨fault, rfl, fun textual => textual.elim nul bytes, .record _ _⟩

/-- The text is in place, or the directory cannot be made. -/
def Rests (t : FileTree) (x : Save) : Prop :=
  (∃ fault, (t.ensureDirectory x.directory).1 = .error fault ∧ ¬FileTree.Textual fault) ∨
    t.Open x.directory ∧ ∃ characters, Text.characters? x.text = some characters ∧
      t.read x.path = .ok characters

def Ready (t : FileTree) (x : Save) : Prop :=
  t.Open x.directory ∧ ∃ loc characters, Text.characters? x.text = some characters ∧
    Path.location? x.staged = some loc ∧ t.fileAt loc = some (.text characters)

theorem Rests.run (h : x.Rests w.tree) : ∃ v, x.run w = (.ok (), v) ∧ Workspace.Rested w v := by
  have more := FileTree.moreDirectories_ensureDirectory w.tree x.directory
  obtain ⟨fault, failed, plain⟩ | ⟨opened, characters, kept, found⟩ := h
  · rcases result : w.tree.ensureDirectory x.directory with ⟨_, tree⟩
    rw [result] at failed more
    cases failed
    have made : Workspace.ensureDirectory x.directory w = (.ok false,
        Workspace.record ⟨.error, .staging, "Could not create directory " ++ x.directory⟩
          { w with tree }) := by
      simp only [Workspace.ensureDirectory, bind_apply, get_apply, result, set_apply]
      cases fault with
      | nameHasNul => exact absurd (.inl rfl) plain
      | notEncodable => exact absurd (.inr rfl) plain
      | _ => rfl
    exact ⟨_, bind_of_ok made _, (Workspace.rested_tree more).trans
      (Workspace.Quiet.record _ _).rested⟩
  · obtain ⟨tree, result, -⟩ := FileTree.ensureDirectory_open opened
    rw [result] at more
    have made : Workspace.ensureDirectory x.directory w = (.ok true, { w with tree }) := by
      simp only [Workspace.ensureDirectory, bind_apply, get_apply, result, set_apply]
      rfl
    have found : tree.read x.path = .ok characters := by
      obtain ⟨loc, placed, there⟩ := FileTree.read_eq_ok_iff.1 found
      exact FileTree.read_eq_ok_iff.2 ⟨loc, FileTree.place_of_directories
        (fun loc => more.keeps loc _) placed, (more.files loc).trans there⟩
    have staged : Workspace.stage x.path x.text { w with tree } = (.ok false, { w with tree }) := by
      simp only [Workspace.stage, bind_apply, Workspace.held, found, kept]
      rfl
    exact ⟨_, (bind_of_ok made _).trans (bind_of_ok staged _), Workspace.rested_tree more⟩

/-- The path and that of its staged text lead neither to a place of the save nor on the way there. -/
def Aloof (x : Save) (path : String) : Prop :=
  ∀ loc, Path.location? path = some loc ∨ Path.location? (Workspace.stagedPath path) = some loc →
    loc ∉ x.places ∧ loc ∉ Path.way x.directory

structure Aside (x : Save) (w v : Workspace) : Prop where
  pending : x.path ∈ v.pending ↔ x.path ∈ w.pending
  directories : ∀ loc, w.tree.lookup loc = some .directory → v.tree.lookup loc = some .directory
  files : ∀ loc ∈ x.places, v.tree.fileAt loc = w.tree.fileAt loc
  vacant : ∀ loc ∈ Path.way x.directory, v.tree.fileAt loc = none ↔ w.tree.fileAt loc = none

theorem Aside.refl (x : Save) (w : Workspace) : Aside x w w :=
  ⟨Iff.rfl, fun _ h => h, fun _ _ => rfl, fun _ _ => Iff.rfl⟩

theorem Aside.trans (h : Aside x w v) (g : Aside x v u) : Aside x w u where
  pending := g.pending.trans h.pending
  directories loc there := g.directories loc (h.directories loc there)
  files loc hloc := (g.files loc hloc).trans (h.files loc hloc)
  vacant loc hloc := (g.vacant loc hloc).trans (h.vacant loc hloc)

theorem Rests.aside (h : x.Rests w.tree) (g : Aside x w v) : x.Rests v.tree := by
  obtain ⟨fault, failed, plain⟩ | ⟨opened, characters, kept, found⟩ := h
  · exact .inl (FileTree.ensureDirectory_fails_again ⟨g.directories, g.vacant⟩ failed plain)
  · obtain ⟨loc, placed, there⟩ := FileTree.read_eq_ok_iff.1 found
    refine .inr ⟨opened.of_files g.vacant, characters, kept, FileTree.read_eq_ok_iff.2
      ⟨loc, FileTree.place_of_directories g.directories placed, ?_⟩⟩
    rw [g.files loc (.inl (FileTree.location_of_place placed))]
    exact there

theorem Ready.aside (h : x.Ready w.tree) (g : Aside x w v) : x.Ready v.tree := by
  obtain ⟨opened, loc, characters, kept, located, found⟩ := h
  exact ⟨opened.of_files g.vacant, loc, characters, kept, located,
    (g.files loc (.inr located)).trans found⟩

theorem aside_of_rested (h : Workspace.Rested w v) (off : LogFile.Off w.log x.places) :
    Aside x w v where
  pending := by rw [h.pending]
  directories := h.directories
  files loc hloc := h.files loc fun file hfile at_ hat other hother =>
    off file hfile at_ hat other (hother ▸ hloc)
  vacant loc _ := h.vacant loc

/-- A file that is put where no directory is, off the places and the way of the save. -/
theorem aside_put {loc : Location} (content : Content) (file : w.tree.lookup loc ≠ some .directory)
    (away : loc ∉ x.places ∧ loc ∉ Path.way x.directory) :
    Aside x w { w with tree := w.tree.put loc (.file content) } where
  pending := Iff.rfl
  directories _ := FileTree.directory_put file
  files other hother := FileTree.fileAt_put_of_ne fun same => away.1 (same ▸ hother)
  vacant other hother := by
    have apart : other ≠ loc := fun same => away.2 (same ▸ hother)
    rw [FileTree.fileAt_put_of_ne apart]

theorem aside_erase {loc : Location} (file : w.tree.lookup loc ≠ some .directory)
    (away : loc ∉ x.places ∧ loc ∉ Path.way x.directory) :
    Aside x w { w with tree := w.tree.erase loc } where
  pending := Iff.rfl
  directories _ := FileTree.directory_erase file
  files other hother := FileTree.fileAt_erase_of_ne fun same => away.1 (same ▸ hother)
  vacant other hother := by
    have apart : other ≠ loc := fun same => away.2 (same ▸ hother)
    rw [FileTree.fileAt_erase_of_ne apart]

theorem aside_remember {path : String} (other : path ≠ x.path) : Aside x w (w.remember path) where
  pending := by
    unfold Workspace.remember
    simp only
    split
    · rfl
    · simp [other.symm]
  directories _ := id
  files _ _ := rfl
  vacant _ _ := Iff.rfl

theorem aside_run {result : Unit} (aloof : Aloof x y.path) (off : LogFile.Off w.log x.places)
    (h : y.run w = (.ok result, u)) : Aside x w u := by
  obtain ⟨tree, made, h⟩ := run_ok h
  have more := FileTree.moreDirectories_ensureDirectory w.tree y.directory
  rw [← made] at more
  have first := aside_of_rested (x := x) (Workspace.rested_tree more) off
  obtain ⟨_, -, -, quiet⟩ | ⟨-, characters, kept, ⟨-, quiet⟩ | ⟨-, written, done, quiet⟩⟩ := h
  · exact first.trans (aside_of_rested quiet.rested off)
  · exact first.trans (aside_of_rested quiet.rested off)
  · obtain ⟨loc, located, file, top, rfl⟩ := FileTree.write_of_ok done
    have other : y.path ≠ x.path := fun same => by
      have staged : y.staged = x.staged := congrArg Workspace.stagedPath same
      exact (aloof loc (.inr located)).1 (.inr (staged ▸ located))
    exact ((first.trans (aside_put _ file (aloof loc (.inr located)))).trans
      (aside_remember other)).trans (aside_of_rested quiet.rested off)

/-- Each path that waits is that of a save done so far, and its staged text is there. -/
structure Stocked (done : List Save) (w : Workspace) : Prop where
  nodup : w.pending.Nodup
  staged : ∀ path ∈ w.pending, (∃ x ∈ done, x.path = path) ∧
    ∃ loc, Path.location? (Workspace.stagedPath path) = some loc ∧ w.tree.fileAt loc ≠ none

theorem Stocked.rested {done : List Save} (h : Stocked done w) (g : Workspace.Rested w v) :
    Stocked done v where
  nodup := g.pending ▸ h.nodup
  staged path hpath := by
    obtain ⟨known, loc, located, there⟩ := h.staged path (g.pending ▸ hpath)
    exact ⟨known, loc, located, fun gone => there ((g.vacant loc).1 gone)⟩

theorem Stocked.run {done : List Save} {result : Unit} (h : Stocked done w)
    (run : x.run w = (.ok result, u)) : Stocked (done ++ [x]) u := by
  have more : Stocked (done ++ [x]) w := ⟨h.nodup, fun path hpath => by
    obtain ⟨⟨y, hy, same⟩, there⟩ := h.staged path hpath
    exact ⟨⟨y, List.mem_append_left _ hy, same⟩, there⟩⟩
  obtain ⟨tree, made, run⟩ := run_ok run
  have directories := FileTree.moreDirectories_ensureDirectory w.tree x.directory
  rw [← made] at directories
  have first := more.rested (Workspace.rested_tree directories)
  obtain ⟨_, -, -, quiet⟩ | ⟨-, characters, kept, ⟨-, quiet⟩ | ⟨-, written, done, quiet⟩⟩ := run
  · exact first.rested quiet.rested
  · exact first.rested quiet.rested
  · obtain ⟨loc, located, file, top, rfl⟩ := FileTree.write_of_ok done
    refine Stocked.rested ⟨?_, fun path hpath => ?_⟩ quiet.rested
    · unfold Workspace.remember
      simp only
      split
      · exact h.nodup
      · next new =>
        have new : x.path ∉ w.pending := by simpa using new
        exact List.nodup_append.2 ⟨h.nodup, List.pairwise_singleton .., fun path hpath other hother same =>
          new (List.mem_singleton.1 hother ▸ same ▸ hpath)⟩
    · have here : (tree.put loc (.file (.text characters))).fileAt loc ≠ none := by
        rw [FileTree.fileAt_put_self top]
        simp
      have cases : path ∈ w.pending ∨ path = x.path := by
        unfold Workspace.remember at hpath
        simp only at hpath
        split at hpath
        · exact .inl hpath
        · simpa using hpath
      obtain old | rfl := cases
      · obtain ⟨known, at_, located', there⟩ := first.staged path old
        refine ⟨known, at_, located', ?_⟩
        by_cases same : at_ = loc
        · rw [same]
          exact here
        · exact fun gone => there (by rwa [← FileTree.fileAt_put_of_ne same])
      · exact ⟨⟨x, by simp, rfl⟩, loc, located, here⟩

theorem Saves.stocked {xs : List Save} (h : Saves xs w v) (pending : w.pending = []) :
    Stocked xs v := by
  induction h with
  | quiet quiet =>
    refine Stocked.rested ⟨?_, fun path hpath => ?_⟩ quiet.rested
    · rw [pending]
      exact .nil
    · rw [pending] at hpath
      cases hpath
  | save before saved after ih => exact ((ih pending).run saved).rested after.rested

def Poised (x : Save) (w : Workspace) : Prop :=
  x.path ∉ w.pending ∧ x.Rests w.tree ∨ x.path ∈ w.pending ∧ x.Ready w.tree

theorem Poised.aside (h : Poised x w) (g : Aside x w v) : Poised x v :=
  h.imp (fun ⟨idle, rests⟩ => ⟨fun waits => idle (g.pending.1 waits), rests.aside g⟩)
    fun ⟨waits, ready⟩ => ⟨g.pending.2 waits, ready.aside g⟩

/-- The save has a place beside that for its staged text, and neither is on its way. -/
structure Clean (x : Save) : Prop where
  filename : x.filename ≠ ""
  slash : '/' ∉ x.filename.toList
  own : ∀ loc, Path.location? x.path = some loc → Path.location? x.staged ≠ some loc
  way : ∀ loc ∈ Path.way x.directory, loc ∉ x.places

theorem poised_run {result : Unit} (clean : Clean x) (idle : x.path ∉ w.pending)
    (off : LogFile.Off w.log x.places) (h : x.run w = (.ok result, u)) : Poised x u := by
  obtain ⟨tree, made, h⟩ := run_ok h
  have more := FileTree.moreDirectories_ensureDirectory w.tree x.directory
  rw [← made] at more
  have first := aside_of_rested (x := x) (Workspace.rested_tree more) off
  obtain ⟨fault, failed, plain, quiet⟩ | ⟨result, characters, kept, outcome⟩ := h
  · have : Poised x w := .inl ⟨idle, .inl ⟨fault, failed, plain⟩⟩
    exact (this.aside first).aside (aside_of_rested quiet.rested off)
  have nonempty := FileTree.nonempty_of_ensureDirectory result
  obtain ⟨found, quiet⟩ | ⟨-, written, done, quiet⟩ := outcome
  · obtain ⟨loc, placed, there⟩ := FileTree.read_eq_ok_iff.1 found
    have opened : tree.Open x.directory := .of_place clean.slash clean.filename nonempty placed
    have : Poised x { w with tree } := .inl ⟨idle, .inr ⟨opened, characters, kept, found⟩⟩
    exact this.aside (aside_of_rested quiet.rested off)
  · obtain ⟨loc, located, file, top, rfl⟩ := FileTree.write_of_ok done
    obtain ⟨_, _, placed, -, -⟩ := FileTree.write_eq_ok done
    have staged := placed
    rw [Target.staged, Target.path, Target.stagedPath_join clean.filename] at staged
    have opened : tree.Open x.directory :=
      .of_place (Target.bare_staged clean.slash) (by simp) nonempty staged
    have waits : x.path ∈ (Workspace.remember x.path
        { w with tree := tree.put loc (.file (.text characters)) }).pending := by
      unfold Workspace.remember
      simp only
      split
      · next known => simpa using known
      · simp
    have : Poised x (Workspace.remember x.path
        { w with tree := tree.put loc (.file (.text characters)) }) := by
      refine .inr ⟨waits, opened.of_files fun other hother => ?_, loc, characters, kept, located,
        FileTree.fileAt_put_self top⟩
      have apart : other ≠ loc := fun same => clean.way other hother (.inr (same ▸ located))
      show (tree.put loc _).fileAt other = none ↔ _
      rw [FileTree.fileAt_put_of_ne apart]
    exact this.aside (aside_of_rested quiet.rested off)

def Lone (x : Save) (xs : List Save) : Prop :=
  ∃ ys zs, xs = ys ++ x :: zs ∧ ∀ y ∈ ys ++ zs, Aloof x y.path

theorem Stocked.idle {done : List Save} (h : Stocked done w) (aloof : ∀ y ∈ done, Aloof x y.path) :
    x.path ∉ w.pending := by
  intro waits
  obtain ⟨⟨y, hy, same⟩, loc, located, -⟩ := h.staged _ waits
  exact (aloof y hy loc (.inr (same ▸ located))).1 (.inr located)

theorem log_run {result : Unit} (h : x.run w = (.ok result, u)) : u.log = w.log := by
  obtain ⟨tree, -, ⟨_, -, -, quiet⟩ | ⟨-, _, -, ⟨-, quiet⟩ | ⟨-, _, -, quiet⟩⟩⟩ := run_ok h <;>
    exact quiet.rested.log

theorem Saves.log {xs : List Save} (h : Saves xs w v) : v.log = w.log := by
  induction h with
  | quiet quiet => exact quiet.rested.log
  | save before saved after ih => exact after.rested.log.trans ((log_run saved).trans ih)

theorem Saves.poised {xs : List Save} (h : Saves xs w v) (pending : w.pending = [])
    (clean : Clean x) (lone : Lone x xs) (off : LogFile.Off w.log x.places) : Poised x v := by
  induction h with
  | quiet quiet =>
    obtain ⟨ys, zs, empty, -⟩ := lone
    cases ys <;> cases empty
  | @save xs w v u u' y before saved after ih =>
    refine Poised.aside ?_ (aside_of_rested after.rested (log_run saved ▸ before.log ▸ off))
    obtain ⟨ys, zs, split, aloof⟩ := lone
    obtain rfl | ⟨zs, z, rfl⟩ := List.eq_nil_or_concat' zs
    · obtain ⟨rfl, same⟩ := List.append_inj' split rfl
      obtain rfl := List.singleton_inj.1 same
      rw [List.append_nil] at aloof
      exact poised_run clean ((before.stocked pending).idle aloof) (before.log ▸ off) saved
    · rw [← List.cons_append, ← List.append_assoc] at split
      rw [← List.append_assoc] at aloof
      obtain ⟨rfl, same⟩ := List.append_inj' split rfl
      obtain rfl := List.singleton_inj.1 same
      have poised := ih pending ⟨ys, zs, rfl, fun y hy => aloof y (List.mem_append_left _ hy)⟩ off
      exact poised.aside (aside_run (aloof _ (by simp)) (before.log ▸ off) saved)

theorem aside_moveIntoPlace {path : String} {result : Unit} (aloof : Aloof x path)
    (file : ∀ a, Path.location? (Workspace.stagedPath path) = some a →
      w.tree.lookup a ≠ some .directory)
    (h : Workspace.moveIntoPlace path w = (.ok result, v)) : Aside x w v := by
  obtain ⟨a, b, content, source, target, found, other, rfl⟩ := Workspace.moveIntoPlace_of_file h file
  have source := FileTree.location_of_place source
  have target := FileTree.location_of_place target
  have moved := (aside_erase (file a source) (aloof a (.inr source))).trans (aside_put
    (w := { w with tree := w.tree.erase a }) content (FileTree.not_directory_of_erase other)
    (aloof b (.inl target)))
  exact ⟨Iff.rfl, moved.directories, moved.files, moved.vacant⟩

theorem Ready.moveIntoPlace {result : Unit} (clean : Clean x) (ready : x.Ready w.tree)
    (h : Workspace.moveIntoPlace x.path w = (.ok result, v)) : v.tree.Open x.directory ∧
      ∃ characters, Text.characters? x.text = some characters ∧
        v.tree.read x.path = .ok characters := by
  obtain ⟨opened, loc, characters, kept, located, found⟩ := ready
  have file : ∀ a, Path.location? (Workspace.stagedPath x.path) = some a →
      w.tree.lookup a ≠ some .directory := fun a staged => by
    cases located.symm.trans staged
    exact FileTree.not_directory_of_file (by simp [found])
  obtain ⟨a, b, content, source, target, there, other, rfl⟩ := Workspace.moveIntoPlace_of_file h file
  cases located.symm.trans (FileTree.location_of_place source)
  cases found.symm.trans there
  have target' := FileTree.location_of_place target
  have top : FileTree.isTop b = false := by
    cases top : FileTree.isTop b with
    | false => rfl
    | true => exact absurd (by rw [FileTree.lookup, if_pos top]) other
  refine ⟨opened.of_files fun at_ hat => ?_, characters, kept, FileTree.read_eq_ok_iff.2 ⟨b, ?_,
    FileTree.fileAt_put_self top⟩⟩
  · have first : at_ ≠ b := fun same => clean.way at_ hat (.inl (same ▸ target'))
    have second : at_ ≠ loc := fun same => clean.way at_ hat (.inr (same ▸ located))
    rw [FileTree.fileAt_put_of_ne first, FileTree.fileAt_erase_of_ne second]
  · exact FileTree.place_of_directories (fun at_ stays => FileTree.directory_put
      (FileTree.not_directory_of_erase other) (FileTree.directory_erase (file loc located) stays)) target

/-- Seen from one save, moving staged files into place is its own move, if it waits, between moves
of others. -/
theorem forM_moveIntoPlace_split {paths : List String} {result : Unit}
    (nodup : paths.Nodup) (others : ∀ path ∈ paths, path = x.path ∨ Aloof x path)
    (files : ∀ path ∈ paths, ∀ a, Path.location? (Workspace.stagedPath path) = some a →
      w.tree.lookup a ≠ some .directory)
    (h : paths.forM Workspace.moveIntoPlace w = (.ok result, v)) :
    x.path ∉ paths ∧ Aside x w v ∨ x.path ∈ paths ∧ ∃ u u', Aside x w u ∧
      Workspace.moveIntoPlace x.path u = (.ok (), u') ∧ Aside x u' v := by
  induction paths generalizing w with
  | nil =>
    cases h
    exact .inl ⟨List.not_mem_nil, .refl x _⟩
  | cons path rest ih =>
    rw [forM_cons] at h
    obtain ⟨_, u, first, later⟩ := bind_eq_ok.1 h
    have file := files path List.mem_cons_self
    obtain ⟨new, different⟩ := List.nodup_cons.1 nodup
    have files' : ∀ path ∈ rest, ∀ a, Path.location? (Workspace.stagedPath path) = some a →
        u.tree.lookup a ≠ some .directory := by
      obtain ⟨a, b, content, -, -, -, -, rfl⟩ := Workspace.moveIntoPlace_of_file first file
      exact fun other hother c located => FileTree.not_directory_of_put
        (FileTree.not_directory_of_erase (files other (List.mem_cons_of_mem _ hother) c located))
    have rest' := ih different (fun other hother => others other (List.mem_cons_of_mem _ hother))
      files' later
    by_cases same : path = x.path
    · subst same
      obtain ⟨-, aside⟩ | ⟨again, -⟩ := rest'
      · exact .inr ⟨List.mem_cons_self, _, u, .refl x _, first, aside⟩
      · exact absurd again new
    · have aside := aside_moveIntoPlace ((others path List.mem_cons_self).resolve_left same) file first
      obtain ⟨idle, aside'⟩ | ⟨waits, u', v', before, moved, after⟩ := rest'
      · exact .inl ⟨by simp [idle, Ne.symm same], aside.trans aside'⟩
      · exact .inr ⟨List.mem_cons_of_mem _ waits, u', v', aside.trans before, moved, after⟩

/-- The log file stays where it is if it is off the places of what is moved. -/
theorem forM_moveIntoPlace_log {locs : Set Location} {paths : List String} {result : Unit}
    (off : LogFile.Off w.log locs) (inside : ∀ path ∈ paths, ∀ loc, Path.location? path = some loc ∨
      Path.location? (Workspace.stagedPath path) = some loc → loc ∈ locs)
    (files : ∀ path ∈ paths, ∀ a, Path.location? (Workspace.stagedPath path) = some a →
      w.tree.lookup a ≠ some .directory)
    (h : paths.forM Workspace.moveIntoPlace w = (.ok result, v)) : v.log = w.log := by
  induction paths generalizing w with
  | nil =>
    cases h
    rfl
  | cons path rest ih =>
    rw [forM_cons] at h
    obtain ⟨_, u, first, later⟩ := bind_eq_ok.1 h
    obtain ⟨a, b, content, source, target, -, -, rfl⟩ :=
      Workspace.moveIntoPlace_of_file first (files path List.mem_cons_self)
    have here := inside path List.mem_cons_self
    have same := moved_of_off off (here a (.inr (FileTree.location_of_place source)))
      (here b (.inl (FileTree.location_of_place target)))
    refine (ih (same.symm ▸ off) (fun other hother => inside other (List.mem_cons_of_mem _ hother))
      (fun other hother c located => FileTree.not_directory_of_put (FileTree.not_directory_of_erase
        (files other (List.mem_cons_of_mem _ hother) c located))) later).trans same

theorem Stocked.files {done : List Save} (h : Stocked done w) : ∀ path ∈ w.pending, ∀ a,
    Path.location? (Workspace.stagedPath path) = some a → w.tree.lookup a ≠ some .directory := by
  intro path hpath a located
  obtain ⟨-, loc, located', there⟩ := h.staged path hpath
  cases located.symm.trans located'
  exact FileTree.not_directory_of_file there

theorem Saves.commit_rests {xs : List Save} {n : Nat} (saves : Saves xs w v)
    (pending : w.pending = []) (clean : Clean x) (lone : Lone x xs)
    (off : LogFile.Off w.log x.places) (h : Workspace.commit v = (.ok n, u)) : x.Rests u.tree := by
  obtain ⟨m, moves, rfl⟩ := Workspace.commit_ok h
  have stocked := saves.stocked pending
  have others : ∀ path ∈ v.pending, path = x.path ∨ Aloof x path := fun path hpath => by
    obtain ⟨⟨y, hy, rfl⟩, -⟩ := stocked.staged path hpath
    obtain ⟨ys, zs, rfl, aloof⟩ := lone
    obtain hy | hy := List.mem_append.1 hy
    · exact .inr (aloof y (List.mem_append_left _ hy))
    · obtain rfl | hy := List.mem_cons.1 hy
      · exact .inl rfl
      · exact .inr (aloof y (List.mem_append_right _ hy))
  have poised := saves.poised pending clean lone off
  show x.Rests m.tree
  obtain ⟨idle, aside⟩ | ⟨waits, u, u', before, moved, after⟩ :=
    forM_moveIntoPlace_split stocked.nodup others stocked.files moves
  · obtain ⟨-, rests⟩ | ⟨waits, -⟩ := poised
    · exact rests.aside aside
    · exact absurd waits idle
  · obtain ⟨idle, -⟩ | ⟨-, ready⟩ := poised
    · exact absurd waits idle
    · exact Rests.aside (.inr ((ready.aside before).moveIntoPlace clean moved)) after

theorem Saves.commit_log {locs : Set Location} {xs : List Save} {n : Nat} (saves : Saves xs w v)
    (pending : w.pending = []) (inside : ∀ x ∈ xs, x.places ⊆ locs) (off : LogFile.Off w.log locs)
    (h : Workspace.commit v = (.ok n, u)) : u.log = w.log := by
  obtain ⟨m, moves, rfl⟩ := Workspace.commit_ok h
  have stocked := saves.stocked pending
  refine (forM_moveIntoPlace_log (v := m) (saves.log ▸ off) (fun path hpath loc located => ?_)
    stocked.files moves).trans saves.log
  obtain ⟨⟨y, hy, rfl⟩, -⟩ := stocked.staged path hpath
  exact inside y hy located

theorem forM_run_of_rests {xs : List Save} (rests : ∀ x ∈ xs, x.Rests w.tree)
    (off : ∀ x ∈ xs, LogFile.Off w.log x.places) :
    ∃ v, xs.forM run w = (.ok (), v) ∧ Workspace.Rested w v := by
  induction xs generalizing w with
  | nil => exact ⟨w, rfl, .refl w⟩
  | cons x xs ih =>
    obtain ⟨v, first, rested⟩ := (rests x List.mem_cons_self).run
    obtain ⟨u, later, rested'⟩ := ih
      (fun y hy => (rests y (List.mem_cons_of_mem _ hy)).aside
        (aside_of_rested rested (off y (List.mem_cons_of_mem _ hy))))
      (fun y hy => rested.log ▸ off y (List.mem_cons_of_mem _ hy))
    rw [forM_cons]
    exact ⟨u, (bind_of_ok first _).trans later, rested.trans rested'⟩

end Save

end ScriptGlue
