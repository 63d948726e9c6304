import Mathlib.Data.List.Pairwise
import Mathlib.Data.Set.BooleanAlgebra
import Mathlib.Data.Set.Disjoint
import Mathlib.Order.CompletePartialOrder
import ScriptGlue.Proofs.Files.Saves

/-! # Commits

While units are saved, those that differ from what is at their place wait beside it. A commit moves
them all. The invariant tells of every save done so far whether it waits, was settled from the
beginning, or was dropped because the way to its directory was not open.
-/
namespace ScriptGlue
open ScriptGlue.Action

structure Target where
  directory : String
  filename : String
  deriving DecidableEq

namespace Target

def path (x : Target) : String := Path.join x.directory x.filename

def staged (x : Target) : String := Workspace.stagedPath x.path

def places (x : Target) : Set Location :=
  {loc | Path.location? x.path = some loc ∨ Path.location? x.staged = some loc}

/-- The directory is named, and the file by a name in it. -/
structure Bare (x : Target) : Prop where
  directory : x.directory ≠ ""
  filename : x.filename ≠ ""
  slash : '/' ∉ x.filename.toList

/-- The targets get in each other's way neither at their places nor on the way there. -/
structure Apart (xs : List Target) : Prop where
  own : ∀ x ∈ xs, ∀ loc, Path.location? x.path = some loc → Path.location? x.staged ≠ some loc
  others : xs.Pairwise fun x y => Disjoint x.places y.places
  ways : ∀ x ∈ xs, ∀ y ∈ xs, ∀ loc ∈ Path.way x.directory, loc ∉ y.places

theorem Apart.left {xs ys : List Target} (h : Apart (xs ++ ys)) : Apart xs where
  own x hx := h.own x (List.mem_append_left _ hx)
  others := (List.pairwise_append.1 h.others).1
  ways x hx y hy := h.ways x (List.mem_append_left _ hx) y (List.mem_append_left _ hy)

theorem Apart.perm {xs ys : List Target} (h : Apart xs) (perm : xs.Perm ys) :
    Apart ys where
  own x hx := h.own x (perm.mem_iff.2 hx)
  others := (perm.pairwise_iff fun h => h.symm).1 h.others
  ways x hx y hy := h.ways x (perm.mem_iff.2 hx) y (perm.mem_iff.2 hy)

theorem stagedPath_join {directory filename : String} (some : filename ≠ "") :
    Workspace.stagedPath (Path.join directory filename) = Path.join directory (filename ++ ".tmp") := by
  have same : Path.isAbsolute (filename ++ ".tmp") = Path.isAbsolute filename := by
    rw [Bool.eq_iff_iff, Path.isAbsolute_iff, Path.isAbsolute_iff, String.toList_append]
    cases chars : filename.toList with
    | nil => exact absurd (String.toList_injective chars) some
    | cons c cs => rfl
  unfold Workspace.stagedPath Path.join
  rw [same]
  split
  · rfl
  · split <;> simp only [String.append_assoc]

theorem bare_staged {filename : String} (bare : '/' ∉ filename.toList) :
    '/' ∉ (filename ++ ".tmp").toList := by
  rw [String.toList_append]
  exact fun h => (List.mem_append.1 h).elim bare (by decide)

end Target

/-- A unit as it is saved. -/
structure Save extends Target where
  text : String

namespace Save

def run (x : Save) : Action Workspace Unit := do
  if ← Workspace.ensureDirectory x.directory then
    if ← Workspace.stage x.path x.text then Workspace.tell .debug .session ("    " ++ x.path)

abbrev Apart (xs : List Save) : Prop := Target.Apart (xs.map toTarget)

/-- The unit is at its place, or its directory could not be made and the file there is the old
one. -/
def Settled (before after : FileTree) (x : Save) : Prop :=
  (¬before.Open x.directory ∧ ∀ loc ∈ x.places, after.fileAt loc = before.fileAt loc) ∨
    ((x.Bare → before.Open x.directory) ∧ ∃ loc characters, Path.location? x.path = some loc ∧
      Text.characters? x.text = some characters ∧ after.fileAt loc = some (.text characters))

theorem Apart.own {xs : List Save} (h : Apart xs) {x : Save} (hx : x ∈ xs) (loc : Location)
    (located : Path.location? x.path = some loc) : Path.location? x.staged ≠ some loc :=
  Target.Apart.own h x.toTarget (List.mem_map_of_mem hx) loc located

theorem Apart.others {xs : List Save} (h : Apart xs) :
    xs.Pairwise fun x y => Disjoint x.places y.places := by
  have := Target.Apart.others h
  rwa [List.pairwise_map] at this

theorem Apart.ways {xs : List Save} (h : Apart xs) {x y : Save} (hx : x ∈ xs) (hy : y ∈ xs) :
    ∀ loc ∈ Path.way x.directory, loc ∉ y.places :=
  Target.Apart.ways h x.toTarget (List.mem_map_of_mem hx) y.toTarget (List.mem_map_of_mem hy)

theorem Apart.left {xs ys : List Save} (h : Apart (xs ++ ys)) : Apart xs := by
  unfold Apart at h
  rw [List.map_append] at h
  exact Target.Apart.left h

theorem Apart.disjoint {xs : List Save} (h : Apart xs) {x y : Save} (hx : x ∈ xs) (hy : y ∈ xs)
    (ne : x ≠ y) : Disjoint x.places y.places :=
  have : Std.Symm fun x y : Save => Disjoint x.places y.places := ⟨fun _ _ h => h.symm⟩
  h.others.forall hx hy ne

theorem Settled.of_files {before after later : FileTree} {x : Save} (h : Settled before after x)
    (same : ∀ loc ∈ x.places, later.fileAt loc = after.fileAt loc) : Settled before later x := by
  obtain ⟨blocked, files⟩ | ⟨way, loc, characters, located, kept, found⟩ := h
  · exact .inl ⟨blocked, fun loc hloc => (same loc hloc).trans (files loc hloc)⟩
  · exact .inr ⟨way, loc, characters, located, kept, (same loc (.inl located)).trans found⟩

/-- A save that settled from a later moment on settled from an earlier one on, if the way to its
directory was as open then, and the same files were at its places if it was not. -/
theorem Settled.earlier {before mid after : FileTree} {x : Save} (h : Settled mid after x)
    (way : mid.Open x.directory ↔ before.Open x.directory)
    (same : ¬before.Open x.directory → ∀ loc ∈ x.places, mid.fileAt loc = before.fileAt loc) :
    Settled before after x := by
  obtain ⟨blocked, files⟩ | ⟨opened, found⟩ := h
  · have blocked := fun opened => blocked (way.2 opened)
    exact .inl ⟨blocked, fun loc hloc => (files loc hloc).trans (same blocked loc hloc)⟩
  · exact .inr ⟨fun bare => way.1 (opened bare), found⟩

theorem Settled.same {before after after' : FileTree} {x : Save} (bare : x.Bare)
    (h : Settled before after x) (h' : Settled before after' x) {loc : Location}
    (located : Path.location? x.path = some loc) : after.fileAt loc = after'.fileAt loc := by
  obtain ⟨blocked, files⟩ | ⟨opened, place, characters, placed, kept, found⟩ := h <;>
    obtain ⟨blocked', files'⟩ | ⟨opened', place', characters', placed', kept', found'⟩ := h'
  · exact (files loc (.inl located)).trans (files' loc (.inl located)).symm
  · exact absurd (opened' bare) blocked
  · exact absurd (opened bare) blocked'
  · cases located.symm.trans placed
    cases located.symm.trans placed'
    cases kept.symm.trans kept'
    exact found.trans found'.symm

/-- Saves made one after the other, with records in between. -/
inductive Saves : List Save → Workspace → Workspace → Prop
  | quiet {w v : Workspace} (quiet : w.Quiet v) : Saves [] w v
  | save {xs : List Save} {x : Save} {w v u t : Workspace} (before : Saves xs w v)
      (saved : x.run v = (.ok (), u)) (after : u.Quiet t) : Saves (xs ++ [x]) w t

theorem Saves.append {xs ys : List Save} {w v u : Workspace} (first : Saves xs w v)
    (second : Saves ys v u) : Saves (xs ++ ys) w u := by
  induction second with
  | quiet quiet =>
    rw [List.append_nil]
    cases first with
    | quiet before => exact .quiet (before.trans quiet)
    | save before saved after => exact .save before saved (after.trans quiet)
  | save _ saved after ih =>
    rw [← List.append_assoc]
    exact .save (ih first) saved after

theorem Saves.single {x : Save} {w v u : Workspace} (quiet : w.Quiet v) (saved : x.run v = (.ok (), u)) :
    Saves [x] w u := .save (.quiet quiet) saved (.refl u)

structure Staging (locs : Set Location) (w : Workspace) (done waiting : List Save)
    (v : Workspace) : Prop where
  log : v.log = w.log
  pending : v.pending = waiting.map fun x => x.path
  sublist : waiting.Sublist done
  files : ∀ loc ∈ locs, (∀ x ∈ waiting, Path.location? x.staged ≠ some loc) →
    v.tree.fileAt loc = w.tree.fileAt loc
  vacant : ∀ loc, (∀ x ∈ waiting, Path.location? x.staged ≠ some loc) →
    (v.tree.fileAt loc = none ↔ w.tree.fileAt loc = none)
  texts : ∀ x ∈ waiting, ∃ loc characters, Path.location? x.staged = some loc ∧
    Text.characters? x.text = some characters ∧ v.tree.fileAt loc = some (.text characters)
  ways : ∀ x ∈ waiting, x.Bare → w.tree.Open x.directory
  settled : ∀ x ∈ done, x ∉ waiting → Settled w.tree w.tree x

namespace Staging
variable {locs : Set Location} {w v u : Workspace} {done waiting : List Save} {x : Save}

theorem of_alike (h : Staging locs w done waiting v) (inside : ∀ x ∈ done, x.places ⊆ locs)
    (alike : Workspace.Alike locs v u) : Staging locs w done waiting u where
  log := alike.log.trans h.log
  pending := alike.pending.trans h.pending
  sublist := h.sublist
  files loc hloc off := (alike.files loc hloc).trans (h.files loc hloc off)
  vacant loc off := (alike.vacant loc).trans (h.vacant loc off)
  texts x hx := by
    obtain ⟨loc, characters, located, kept, found⟩ := h.texts x hx
    exact ⟨loc, characters, located, kept,
      (alike.files loc (inside x (h.sublist.subset hx) (.inr located))).trans found⟩
  ways := h.ways
  settled := h.settled

theorem open_iff (h : Staging locs w done waiting v) {directory : String}
    (apart : ∀ y ∈ done, ∀ loc ∈ Path.way directory, loc ∉ y.places) :
    v.tree.Open directory ↔ w.tree.Open directory := by
  have same : ∀ loc ∈ Path.way directory, (v.tree.fileAt loc = none ↔ w.tree.fileAt loc = none) :=
    fun loc hloc => h.vacant loc fun y hy located =>
      apart y (h.sublist.subset hy) loc hloc (.inr located)
  exact ⟨fun way => way.of_files fun loc hloc => (same loc hloc).symm,
    fun way => way.of_files same⟩

theorem start (locs : Set Location) (pending : w.pending = []) : Staging locs w [] [] w where
  log := rfl
  pending := pending
  sublist := .refl []
  files _ _ _ := rfl
  vacant _ _ := Iff.rfl
  texts _ h := absurd h List.not_mem_nil
  ways _ h := absurd h List.not_mem_nil
  settled _ h := absurd h List.not_mem_nil

theorem more (h : Staging locs w done waiting v) (settled : x ∉ waiting → Settled w.tree w.tree x) :
    Staging locs w (done ++ [x]) waiting v where
  log := h.log
  pending := h.pending
  sublist := h.sublist.trans (List.sublist_append_left ..)
  files := h.files
  vacant := h.vacant
  texts := h.texts
  ways := h.ways
  settled y hy := by
    obtain hy | hy := List.mem_append.1 hy
    · exact h.settled y hy
    · rw [List.mem_singleton.1 hy]
      exact settled

/-- A place apart from those of the saves done so far holds what it did. -/
theorem files_of_apart (h : Staging locs w done waiting v) {loc : Location} (hloc : loc ∈ locs)
    (apart : ∀ y ∈ done, loc ∉ y.places) : v.tree.fileAt loc = w.tree.fileAt loc :=
  h.files loc hloc fun y hy located => apart y (h.sublist.subset hy) (.inr located)

theorem wait (h : Staging locs w done waiting v)
    (apart : ∀ y ∈ done, Disjoint y.places x.places) (way : x.Bare → w.tree.Open x.directory)
    {loc : Location} {characters : String} (located : Path.location? x.staged = some loc)
    (kept : Text.characters? x.text = some characters) (top : FileTree.isTop loc = false) :
    Staging locs w (done ++ [x]) (waiting ++ [x])
      (Workspace.remember x.path { v with tree := v.tree.put loc (.file (.text characters)) }) where
  log := h.log
  pending := by
    have new : x.path ∉ v.pending := by
      intro known
      rw [h.pending] at known
      obtain ⟨y, hy, same⟩ := List.mem_map.1 known
      have staged : y.staged = x.staged := congrArg Workspace.stagedPath same
      exact Set.disjoint_left.1 (apart y (h.sublist.subset hy)) (.inr (staged ▸ located)) (.inr located)
    show (if v.pending.contains x.path then v.pending else v.pending ++ [x.path]) = _
    rw [if_neg (by simpa using new), h.pending, List.map_append]
    rfl
  sublist := h.sublist.append (.refl [x])
  files other hother off := by
    have : other ≠ loc := fun same => off x (by simp) (same ▸ located)
    rw [← h.files other hother fun y hy => off y (List.mem_append_left _ hy)]
    exact FileTree.fileAt_put_of_ne this
  vacant other off := by
    have : other ≠ loc := fun same => off x (by simp) (same ▸ located)
    rw [← h.vacant other fun y hy => off y (List.mem_append_left _ hy)]
    exact Eq.congr_left (FileTree.fileAt_put_of_ne this)
  texts y hy := by
    obtain hy | hy := List.mem_append.1 hy
    · obtain ⟨other, others, found, keptOther, there⟩ := h.texts y hy
      have : other ≠ loc := fun same =>
        Set.disjoint_left.1 (apart y (h.sublist.subset hy)) (.inr found) (.inr (same ▸ located))
      exact ⟨other, others, found, keptOther, (FileTree.fileAt_put_of_ne this).trans there⟩
    · rw [List.mem_singleton.1 hy]
      exact ⟨loc, characters, located, kept, FileTree.fileAt_put_self top⟩
  ways y hy := by
    obtain hy | hy := List.mem_append.1 hy
    · exact h.ways y hy
    · rw [List.mem_singleton.1 hy]
      exact way
  settled y hy hwait := by
    obtain hy | hy := List.mem_append.1 hy
    · exact h.settled y hy fun waits => hwait (List.mem_append_left _ waits)
    · exact absurd (List.mem_append_right _ hy) hwait

theorem save (h : Staging locs w done waiting v) (apart : Apart (done ++ [x]))
    (inside : ∀ y ∈ done ++ [x], y.places ⊆ locs) (off : LogFile.Off w.log locs)
    (run : x.run v = (.ok (), u)) : ∃ waiting', Staging locs w (done ++ [x]) waiting' u := by
  have here : x ∈ done ++ [x] := by simp
  have others : ∀ y ∈ done, Disjoint y.places x.places := fun y hy =>
    (List.pairwise_append.1 (Apart.others apart)).2.2 y hy x (by simp)
  have ways : ∀ y ∈ done, ∀ loc ∈ Path.way x.directory, loc ∉ y.places := fun y hy =>
    Apart.ways apart here (List.mem_append_left _ hy)
  have inside' : ∀ y ∈ done, y.places ⊆ locs := fun y hy => inside y (List.mem_append_left _ hy)
  obtain ⟨made, v', hmade, run⟩ := bind_eq_ok.1 run
  obtain ⟨tree, more, quiet, blocked⟩ := Workspace.ensureDirectory_ok hmade
  have alike := (Workspace.alike_tree more).trans (quiet.alike (h.log ▸ off))
  have h' := h.of_alike inside' alike
  cases made with
  | false =>
    cases run
    refine ⟨waiting, h'.more fun _ => .inl ⟨?_, fun _ _ => rfl⟩⟩
    rw [← h.open_iff ways]
    exact blocked rfl
  | true =>
    simp only [↓reduceIte] at run
    obtain ⟨staged, v'', hstaged, run⟩ := bind_eq_ok.1 run
    obtain ⟨characters, kept, result⟩ := Workspace.stage_ok hstaged
    have told : Workspace.Quiet v'' u := by
      cases staged with
      | true =>
        cases run
        exact .record _ _
      | false =>
        cases run
        exact .refl _
    obtain ⟨found, rfl⟩ | ⟨tree, written, quiet⟩ := result
    · obtain ⟨loc, _, placed, there⟩ := FileTree.read_eq_ok found
      have located := FileTree.location_of_place placed
      refine ⟨waiting, (h'.more fun _ => .inr ⟨fun bare => ?_, loc, characters, located, kept, ?_⟩).of_alike
        inside (told.alike (h'.log ▸ off))⟩
      · exact (h'.open_iff ways).1 (.of_place bare.slash bare.filename bare.directory placed)
      · rw [← h'.files_of_apart (inside x here (.inl located)) fun y hy hloc =>
          Set.disjoint_left.1 (others y hy) hloc (.inl located)]
        exact there
    · obtain ⟨loc, _, placed, top, rfl⟩ := FileTree.write_eq_ok written
      have located := FileTree.location_of_place placed
      refine ⟨waiting ++ [x], (h'.wait others (fun bare => ?_) located kept top).of_alike
        inside ((quiet.trans told).alike (h'.log ▸ off))⟩
      rw [Target.path, Target.stagedPath_join bare.filename] at placed
      exact (h'.open_iff ways).1 (.of_place (Target.bare_staged bare.slash) (by simp) bare.directory placed)

theorem of_saves {xs : List Save} (h : Saves xs w v) (pending : w.pending = []) (apart : Apart xs)
    (inside : ∀ x ∈ xs, x.places ⊆ locs) (off : LogFile.Off w.log locs) :
    ∃ waiting, Staging locs w xs waiting v := by
  induction h with
  | quiet quiet =>
    exact ⟨[], (start locs pending).of_alike (fun _ h => absurd h List.not_mem_nil)
      (quiet.alike off)⟩
  | save before saved after ih =>
    obtain ⟨waiting, h⟩ := ih pending (Apart.left apart)
      (fun x hx => inside x (List.mem_append_left _ hx)) off
    obtain ⟨waiting', h'⟩ := h.save apart inside off saved
    exact ⟨waiting', h'.of_alike inside (after.alike (h'.log ▸ off))⟩

end Staging

theorem follow_of_off {a b loc : Location} (ha : ¬a <+: loc) (hb : ¬b <+: loc) :
    LogFile.follow a b loc = some loc := by
  unfold LogFile.follow
  have away : loc.take a.length ≠ a := fun same => ha (List.prefix_iff_eq_take.2 same.symm)
  have other : loc ≠ b := fun same => hb (same ▸ List.prefix_rfl)
  rw [if_neg away, if_neg other]

theorem moved_of_off {log : Option LogFile} {locs : Set Location} {a b : Location}
    (off : LogFile.Off log locs) (ha : a ∈ locs) (hb : b ∈ locs) :
    (log.map fun file => file.moved a b) = log := by
  cases log with
  | none => rfl
  | some file =>
    obtain ⟨location, level, stamp⟩ := file
    cases location with
    | none => rfl
    | some loc =>
      have := off _ rfl loc rfl
      simp [LogFile.moved, follow_of_off (this a ha) (this b hb)]

theorem forM_moveIntoPlace_ok {locs : Set Location} {w u : Workspace} {waiting : List Save}
    {result : Unit} (own : ∀ x ∈ waiting, ∀ loc, Path.location? x.path = some loc →
      Path.location? x.staged ≠ some loc)
    (others : waiting.Pairwise fun x y => Disjoint x.places y.places)
    (inside : ∀ x ∈ waiting, x.places ⊆ locs) (off : LogFile.Off w.log locs)
    (texts : ∀ x ∈ waiting, ∃ loc characters, Path.location? x.staged = some loc ∧
      Text.characters? x.text = some characters ∧ w.tree.fileAt loc = some (.text characters))
    (h : (waiting.map fun x => x.path).forM Workspace.moveIntoPlace w = (.ok result, u)) :
    u.log = w.log ∧
      (∀ loc, (∀ x ∈ waiting, loc ∉ x.places) → u.tree.fileAt loc = w.tree.fileAt loc) ∧
      ∀ x ∈ waiting, ∃ loc characters, Path.location? x.path = some loc ∧
        Text.characters? x.text = some characters ∧ u.tree.fileAt loc = some (.text characters) := by
  induction waiting generalizing w with
  | nil =>
    cases h
    exact ⟨rfl, fun _ _ => rfl, fun _ h => absurd h List.not_mem_nil⟩
  | cons x rest ih =>
    rw [List.map_cons, forM_cons] at h
    obtain ⟨_, v, hmove, hrest⟩ := bind_eq_ok.1 h
    obtain ⟨loc, characters, located, kept, found⟩ := texts x List.mem_cons_self
    obtain ⟨place, placed, top, tree, -, log⟩ := Workspace.moveIntoPlace_ok hmove located found
    have inside_x := inside x List.mem_cons_self
    have log : v.log = w.log := by
      obtain log | log := log
      · exact log
      · rw [log, moved_of_off off (inside_x (.inr located)) (inside_x (.inl placed))]
    have apart : ∀ y ∈ rest, Disjoint x.places y.places := (List.pairwise_cons.1 others).1
    have frame : ∀ other, other ∉ x.places → v.tree.fileAt other = w.tree.fileAt other := by
      intro other hother
      have first : other ≠ place := fun same => hother (.inl (same ▸ placed))
      have second : other ≠ loc := fun same => hother (.inr (same ▸ located))
      rw [tree, FileTree.fileAt_put_of_ne first, FileTree.fileAt_erase_of_ne second]
    obtain ⟨log', frame', texts'⟩ := ih
      (fun y hy => own y (List.mem_cons_of_mem _ hy)) (List.pairwise_cons.1 others).2
      (fun y hy => inside y (List.mem_cons_of_mem _ hy)) (log ▸ off)
      (fun y hy => by
        obtain ⟨other, others, located', kept', found'⟩ := texts y (List.mem_cons_of_mem _ hy)
        refine ⟨other, others, located', kept', (frame other fun hother => ?_).trans found'⟩
        exact Set.disjoint_left.1 (apart y hy) hother (.inr located')) hrest
    refine ⟨log'.trans log, fun other hother => ?_, fun y hy => ?_⟩
    · exact (frame' other fun y hy => hother y (List.mem_cons_of_mem _ hy)).trans
        (frame other (hother x List.mem_cons_self))
    · obtain rfl | hy := List.mem_cons.1 hy
      · refine ⟨place, characters, placed, kept, ?_⟩
        rw [frame' place fun z hz hplace => Set.disjoint_left.1 (apart z hz) (.inl placed) hplace,
          tree, FileTree.fileAt_put_self top]
      · exact texts' y hy

section
variable {locs : Set Location} {xs : List Save} {w v u : Workspace} {n : Nat}
  (saves : Saves xs w v) (pending : w.pending = []) (apart : Apart xs)
  (inside : ∀ x ∈ xs, x.places ⊆ locs) (off : LogFile.Off w.log locs)
  (h : Workspace.commit v = (.ok n, u))
include saves pending apart inside off h

theorem Saves.commit_moves : ∃ waiting, Staging locs w xs waiting v ∧ u.pending = [] ∧
    u.log = w.log ∧
      (∀ loc, (∀ x ∈ waiting, loc ∉ x.places) → u.tree.fileAt loc = v.tree.fileAt loc) ∧
      ∀ x ∈ waiting, ∃ loc characters, Path.location? x.path = some loc ∧
        Text.characters? x.text = some characters ∧ u.tree.fileAt loc = some (.text characters) := by
  obtain ⟨waiting, staging⟩ := Staging.of_saves saves pending apart inside off
  obtain ⟨_, _, hget, h⟩ := bind_eq_ok.1 h
  obtain ⟨rfl, rfl⟩ := get_eq_ok.1 hget
  obtain ⟨_, t, hmoves, h⟩ := bind_eq_ok.1 h
  obtain ⟨_, _, hclear, h⟩ := bind_eq_ok.1 h
  obtain rfl := modify_eq_ok.1 hclear
  obtain ⟨-, rfl⟩ := pure_eq_ok.1 h
  rw [staging.pending] at hmoves
  obtain ⟨log, frame, texts⟩ := forM_moveIntoPlace_ok
    (fun x hx => Apart.own apart (staging.sublist.subset hx)) ((Apart.others apart).sublist staging.sublist)
    (fun x hx => inside x (staging.sublist.subset hx)) (staging.log ▸ off) staging.texts hmoves
  exact ⟨waiting, staging, rfl, log.trans staging.log, frame, texts⟩

theorem Saves.commit_ok : (∀ x ∈ xs, Settled w.tree u.tree x) ∧
    (∀ loc ∈ locs, (∀ x ∈ xs, loc ∉ x.places) → u.tree.fileAt loc = w.tree.fileAt loc) ∧
    u.pending = [] ∧ u.log = w.log := by
  obtain ⟨waiting, staging, cleared, log, frame, texts⟩ :=
    saves.commit_moves pending apart inside off h
  have kept : ∀ loc ∈ locs, (∀ x ∈ waiting, loc ∉ x.places) →
      u.tree.fileAt loc = w.tree.fileAt loc := fun loc hloc hx =>
    (frame loc hx).trans (staging.files loc hloc fun x hw located => hx x hw (.inr located))
  refine ⟨fun x hx => ?_, fun loc hloc hx => kept loc hloc fun x hw => hx x (staging.sublist.subset hw),
    cleared, log⟩
  by_cases waits : x ∈ waiting
  · exact .inr ⟨staging.ways x waits, texts x waits⟩
  · have still : ∀ loc ∈ x.places, u.tree.fileAt loc = w.tree.fileAt loc := fun loc hloc =>
      kept loc (inside x hx hloc) fun y hy => Set.disjoint_left.1
        (Apart.disjoint apart hx (staging.sublist.subset hy) fun same => waits (same ▸ hy)) hloc
    obtain ⟨blocked, -⟩ | ⟨way, loc, characters, located, kept, found⟩ := staging.settled x hx waits
    · exact .inl ⟨blocked, still⟩
    · exact .inr ⟨way, loc, characters, located, kept, (still loc (.inl located)).trans found⟩

/-- Off the places of the saves a commit adds no file and takes none away. -/
theorem Saves.commit_vacant {loc : Location} (away : ∀ x ∈ xs, loc ∉ x.places) :
    u.tree.fileAt loc = none ↔ w.tree.fileAt loc = none := by
  obtain ⟨waiting, staging, -, -, frame, -⟩ := saves.commit_moves pending apart inside off h
  have away : ∀ x ∈ waiting, loc ∉ x.places := fun x hx => away x (staging.sublist.subset hx)
  rw [frame loc away]
  exact staging.vacant loc fun x hx located => away x hx (.inr located)

end

def Round (xs : List Save) (w u : Workspace) : Prop :=
  ∃ v n m, Saves xs w v ∧ Workspace.commit v = (.ok n, m) ∧ m.Quiet u

/-- A round settles all its saves, all other files stay, and nothing waits after it. -/
theorem Round.ok {locs : Set Location} {xs : List Save} {w u : Workspace} (h : Round xs w u)
    (pending : w.pending = []) (apart : Apart xs) (inside : ∀ x ∈ xs, x.places ⊆ locs)
    (off : LogFile.Off w.log locs) : (∀ x ∈ xs, Settled w.tree u.tree x) ∧
      (∀ loc ∈ locs, (∀ x ∈ xs, loc ∉ x.places) → u.tree.fileAt loc = w.tree.fileAt loc) ∧
      (∀ loc, (∀ x ∈ xs, loc ∉ x.places) → (u.tree.fileAt loc = none ↔ w.tree.fileAt loc = none)) ∧
      u.pending = [] ∧ u.log = w.log := by
  obtain ⟨v, n, m, saves, commit, quiet⟩ := h
  obtain ⟨settled, others, cleared, log⟩ := saves.commit_ok pending apart inside off commit
  have alike := quiet.alike (log ▸ off)
  refine ⟨fun x hx => (settled x hx).of_files fun loc hloc => alike.files loc (inside x hx hloc),
    fun loc hloc away => (alike.files loc hloc).trans (others loc hloc away), fun loc away => ?_,
    alike.pending.trans cleared, alike.log.trans log⟩
  exact (alike.vacant loc).trans (saves.commit_vacant pending apart inside off commit away)

end Save

end ScriptGlue
