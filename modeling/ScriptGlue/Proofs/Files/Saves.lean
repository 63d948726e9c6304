import ScriptGlue.Files.Workspace
import ScriptGlue.Proofs.Action
import ScriptGlue.Proofs.Files.Directory

/-! # Saves

A save makes the directory of a unit and stages its text, and a commit moves what was staged into
place. If the places of the saves are apart, each unit is at its place in the end unless the way to
its directory was not open in the beginning, and all other files stay.
-/
namespace ScriptGlue
open ScriptGlue.Action

def Workspace.Quiet (w v : Workspace) : Prop :=
  ∃ rs : List Record, v = rs.foldl (fun w r => w.record r) w

theorem Workspace.Quiet.refl (w : Workspace) : w.Quiet w := ⟨[], rfl⟩

theorem Workspace.Quiet.trans {w v u : Workspace} (h : w.Quiet v) (g : v.Quiet u) : w.Quiet u := by
  obtain ⟨rs, rfl⟩ := h
  obtain ⟨qs, rfl⟩ := g
  exact ⟨rs ++ qs, by rw [List.foldl_append]⟩

theorem Workspace.Quiet.record (w : Workspace) (r : Record) : w.Quiet (w.record r) := ⟨[r], rfl⟩

/-- The log file lies neither at one of the locations nor below one. -/
def LogFile.Off (log : Option LogFile) (locs : Set Location) : Prop :=
  ∀ file, log = some file → ∀ loc, file.location = some loc → ∀ other ∈ locs, ¬other <+: loc

theorem LogFile.Off.union {log : Option LogFile} {a b : Set Location} (ha : Off log a)
    (hb : Off log b) : Off log (a ∪ b) := fun file hfile loc hloc other hother =>
  hother.elim (ha file hfile loc hloc other) (hb file hfile loc hloc other)

/-- Nothing but the log file differs, and directories that were made. -/
structure Workspace.Alike (locs : Set Location) (w v : Workspace) : Prop where
  log : v.log = w.log
  pending : v.pending = w.pending
  files : ∀ loc ∈ locs, v.tree.fileAt loc = w.tree.fileAt loc
  vacant : ∀ loc, v.tree.fileAt loc = none ↔ w.tree.fileAt loc = none

namespace Workspace
variable {locs : Set Location} {w v u : Workspace}

theorem Alike.refl (locs : Set Location) (w : Workspace) : Alike locs w w :=
  ⟨rfl, rfl, fun _ _ => rfl, fun _ => Iff.rfl⟩

theorem Alike.trans (h : Alike locs w v) (g : Alike locs v u) : Alike locs w u where
  log := g.log.trans h.log
  pending := g.pending.trans h.pending
  files loc hloc := (g.files loc hloc).trans (h.files loc hloc)
  vacant loc := (g.vacant loc).trans (h.vacant loc)

theorem alike_record (off : LogFile.Off w.log locs) (r : Record) : Alike locs w (w.record r) := by
  unfold record
  cases hlog : w.log with
  | none => exact ⟨hlog.symm, rfl, fun _ _ => rfl, fun _ => Iff.rfl⟩
  | some file =>
    simp only
    unfold LogFile.write
    split
    · exact ⟨hlog.symm, rfl, fun _ _ => rfl, fun _ => Iff.rfl⟩
    · split
      · next location characters placed _ =>
        split
        · next content found =>
          refine ⟨hlog.symm, rfl, fun loc hloc => FileTree.fileAt_put_of_ne fun same => ?_,
            fun loc => ?_⟩
          · exact off file hlog location placed loc hloc (same ▸ List.prefix_rfl)
          · by_cases here : loc = location
            · subst here
              rw [FileTree.fileAt_put_self (FileTree.not_top_of_file found),
                FileTree.fileAt_eq_some.2 found]
              simp
            · rw [FileTree.fileAt_put_of_ne here]
        · exact ⟨hlog.symm, rfl, fun _ _ => rfl, fun _ => Iff.rfl⟩
      · exact ⟨hlog.symm, rfl, fun _ _ => rfl, fun _ => Iff.rfl⟩

theorem Quiet.alike (h : w.Quiet v) (off : LogFile.Off w.log locs) : Alike locs w v := by
  obtain ⟨rs, rfl⟩ := h
  induction rs generalizing w with
  | nil => exact .refl locs w
  | cons r rs ih =>
    have first := alike_record off r
    exact first.trans (ih (first.log ▸ off))

theorem alike_tree {tree : FileTree} (more : FileTree.MoreDirectories w.tree tree) :
    Alike locs w { w with tree } :=
  ⟨rfl, rfl, fun loc _ => more.files loc, fun loc => by rw [more.files loc]⟩

theorem ensureDirectory_ok {path : String} {made : Bool}
    (h : ensureDirectory path w = (.ok made, v)) :
    ∃ tree, FileTree.MoreDirectories w.tree tree ∧ Quiet { w with tree } v ∧
      (made = false → ¬w.tree.Open path) := by
  obtain ⟨_, _, hget, h⟩ := bind_eq_ok.1 h
  obtain ⟨rfl, rfl⟩ := get_eq_ok.1 hget
  have more := FileTree.moreDirectories_ensureDirectory w.tree path
  have opens : w.tree.Open path → (w.tree.ensureDirectory path).1 = .ok () := fun way => by
    obtain ⟨_, made, -⟩ := FileTree.ensureDirectory_open way
    rw [made]
  rcases result : w.tree.ensureDirectory path with ⟨result, tree⟩
  rw [result] at more opens
  simp only [result] at h
  obtain ⟨_, _, hset, h⟩ := bind_eq_ok.1 h
  cases hset
  refine ⟨tree, more, ?_⟩
  split at h
  · cases h
    exact ⟨.refl _, nofun⟩
  · cases h
  · cases h
  · obtain ⟨_, _, htell, h⟩ := bind_eq_ok.1 h
    cases htell
    cases h
    exact ⟨.record _ _, fun _ way => by cases opens way⟩

theorem held_ok {path : String} {characters : Option String} (h : held path w = (.ok characters, v)) :
    v = w ∧ ∀ c, characters = some c → w.tree.read path = .ok c := by
  unfold held at h
  split at h
  · next found =>
    cases h
    exact ⟨rfl, fun c hc => by cases hc; exact found⟩
  · cases h
    exact ⟨rfl, nofun⟩
  · cases h

theorem onTree_ok {operation : FileTree → Except FileFault FileTree} {x : Unit}
    (h : onTree operation w = (.ok x, v)) :
    ∃ tree, operation w.tree = .ok tree ∧ v = { w with tree } := by
  unfold onTree at h
  split at h
  · next tree done =>
    cases h
    exact ⟨tree, done, rfl⟩
  · cases h

/-- A text that is staged has characters. They are there already, or are written beside the place. -/
theorem stage_ok {path text : String} {staged : Bool} (h : stage path text w = (.ok staged, v)) :
    ∃ characters, Text.characters? text = some characters ∧
      (w.tree.read path = .ok characters ∧ v = w ∨
        ∃ tree, w.tree.write (stagedPath path) (.text characters) = .ok tree ∧
          Quiet (remember path { w with tree }) v) := by
  obtain ⟨before, w', hheld, hrest⟩ := bind_eq_ok.1 h
  obtain ⟨same, found⟩ := held_ok hheld
  subst same
  cases kept : Text.characters? text with
  | none =>
    rw [kept] at hrest
    obtain ⟨_, _, _, hthrow⟩ := bind_eq_ok.1 hrest
    cases hthrow
  | some characters =>
    rw [kept] at hrest
    refine ⟨characters, rfl, ?_⟩
    by_cases same : before = some characters
    · simp only [same, ↓reduceIte] at hrest
      cases hrest
      exact .inl ⟨found characters same, rfl⟩
    · simp only [same, ↓reduceIte] at hrest
      obtain ⟨_, _, hwrite, hrest⟩ := bind_eq_ok.1 hrest
      obtain ⟨tree, written, rfl⟩ := onTree_ok hwrite
      obtain ⟨_, _, hremember, hrest⟩ := bind_eq_ok.1 hrest
      cases hremember
      obtain ⟨_, _, htell, hrest⟩ := bind_eq_ok.1 hrest
      cases htell
      cases hrest
      exact .inr ⟨tree, written, .record _ _⟩

theorem moveIntoPlace_ok {path : String} {x : Unit} {loc : Location} {content : Content}
    (h : moveIntoPlace path w = (.ok x, v))
    (located : Path.location? (stagedPath path) = some loc) (found : w.tree.fileAt loc = some content) :
    ∃ place, Path.location? path = some place ∧ FileTree.isTop place = false ∧
      v.tree = (w.tree.erase loc).put place (.file content) ∧ v.pending = w.pending ∧
      (v.log = w.log ∨ v.log = w.log.map fun file => file.moved loc place) := by
  obtain ⟨_, _, hget, h⟩ := bind_eq_ok.1 h
  obtain ⟨rfl, rfl⟩ := get_eq_ok.1 hget
  obtain ⟨_, _, hmove, h⟩ := bind_eq_ok.1 h
  obtain ⟨tree, moved, rfl⟩ := onTree_ok hmove
  obtain ⟨place, placed, top, rfl⟩ := FileTree.replace_eq_ok moved located found
  refine ⟨place, placed, top, ?_⟩
  cases first : w.tree.place (stagedPath path) with
  | error fault =>
    rw [first] at h
    cases h
    exact ⟨rfl, rfl, .inl rfl⟩
  | ok source =>
    cases second : w.tree.place path with
    | error fault =>
      rw [first, second] at h
      cases source <;> cases h <;> exact ⟨rfl, rfl, .inl rfl⟩
    | ok target =>
      rw [first, second] at h
      cases source with
      | directory a =>
        cases h
        exact ⟨rfl, rfl, .inl rfl⟩
      | entry a _ =>
        cases target with
        | directory b =>
          cases h
          exact ⟨rfl, rfl, .inl rfl⟩
        | entry b _ =>
          have source := (FileTree.location_of_place first).symm.trans located
          have target := (FileTree.location_of_place second).symm.trans placed
          cases source
          cases target
          cases h
          exact ⟨rfl, rfl, .inr rfl⟩

end Workspace

end ScriptGlue
