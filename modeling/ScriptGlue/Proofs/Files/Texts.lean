import ScriptGlue.Proofs.Files.Moves

/-! # Texts given to paths

A text is staged unless the file of its path holds it, and files change at the commit only. Several
texts may be given to one path before that: what the commit puts there is the last of them that the
file did not hold in the beginning, whatever was given to the path after it.
-/
namespace ScriptGlue
open ScriptGlue.Action

namespace Workspace
variable {w v : Workspace}

theorem not_directory_record (r : Record) {loc : Location}
    (file : w.tree.lookup loc ≠ some .directory) :
    (w.record r).tree.lookup loc ≠ some .directory := by
  unfold record
  cases w.log with
  | none => exact file
  | some log =>
    simp only
    unfold LogFile.write
    split
    · exact file
    · split
      · split
        · exact FileTree.not_directory_of_put file
        · exact file
      · exact file

theorem Quiet.directories (h : w.Quiet v) (loc : Location) :
    v.tree.lookup loc = some .directory ↔ w.tree.lookup loc = some .directory := by
  obtain ⟨rs, rfl⟩ := h
  induction rs generalizing w with
  | nil => exact .rfl
  | cons r rs ih =>
    refine ih.trans ⟨fun there => ?_, directory_record r⟩
    by_contra file
    exact not_directory_record r file there

end Workspace

/-- A text and the path it is given to. -/
structure Draft where
  path : String
  text : String
  deriving DecidableEq

namespace Draft
open Workspace

def stageAll (xs : List Draft) : Action Workspace Unit :=
  xs.forM fun x => do let _ ← stage x.path x.text

def Held (t : FileTree) (x : Draft) : Prop :=
  ∃ characters, Text.characters? x.text = some characters ∧ t.read x.path = .ok characters

/-- The last text given to the path that its file did not hold in the beginning. -/
def Prevails (t : FileTree) (path : String) (xs : List Draft) (x : Draft) : Prop :=
  ∃ early late, xs = early ++ x :: late ∧ x.path = path ∧ ¬x.Held t ∧
    ∀ y ∈ late, y.path = path → y.Held t

variable {xs done : List Draft} {paths : List String} {path : String} {w v u : Workspace}
  {t : FileTree} {x y : Draft} {loc : Location}

theorem exists_prevails (h : ∃ x ∈ xs, x.path = path ∧ ¬x.Held t) :
    ∃ x, Prevails t path xs x := by
  induction xs with
  | nil =>
    obtain ⟨x, hx, -⟩ := h
    cases hx
  | cons z zs ih =>
    by_cases later : ∃ x ∈ zs, x.path = path ∧ ¬x.Held t
    · obtain ⟨x, early, late, rfl, prevails⟩ := ih later
      exact ⟨x, z :: early, late, rfl, prevails⟩
    · obtain ⟨x, hx, same, new⟩ := h
      obtain rfl | hx := List.mem_cons.1 hx
      · refine ⟨x, [], zs, rfl, same, new, fun y hy samePath => ?_⟩
        by_contra unheld
        exact later ⟨y, hy, samePath, unheld⟩
      · exact absurd ⟨x, hx, same, new⟩ later

theorem Held.same (h : x.Held t) (g : y.Held t) (same : x.path = y.path) :
    Text.characters? x.text = Text.characters? y.text := by
  obtain ⟨characters, kept, found⟩ := h
  obtain ⟨characters', kept', found'⟩ := g
  rw [same] at found
  cases found.symm.trans found'
  exact kept.trans kept'.symm

theorem Held.of_same (h : x.Held t) (same : x.path = y.path)
    (text : Text.characters? x.text = Text.characters? y.text) : y.Held t := by
  obtain ⟨characters, kept, found⟩ := h
  exact ⟨characters, text ▸ kept, same ▸ found⟩

theorem Held.of_file {u : FileTree} (h : x.Held t)
    (directories : ∀ loc, t.lookup loc = some .directory → u.lookup loc = some .directory)
    (file : ∀ loc, Path.location? x.path = some loc → u.fileAt loc = t.fileAt loc) : x.Held u := by
  obtain ⟨characters, kept, found⟩ := h
  obtain ⟨loc, placed, there⟩ := FileTree.read_eq_ok_iff.1 found
  exact ⟨characters, kept, FileTree.read_eq_ok_iff.2 ⟨loc,
    FileTree.place_of_directories directories placed,
    (file loc (FileTree.location_of_place placed)).trans there⟩⟩

structure Staged (done : List Draft) (w v : Workspace) : Prop where
  log : v.log = w.log
  directories : ∀ loc, v.tree.lookup loc = some .directory ↔ w.tree.lookup loc = some .directory
  nodup : v.pending.Nodup
  waits : ∀ path, path ∈ v.pending ↔ ∃ x ∈ done, x.path = path ∧ ¬x.Held w.tree
  files : ∀ loc ∉ draftPlaces v.pending, LogFile.Off w.log {loc} →
    v.tree.fileAt loc = w.tree.fileAt loc
  stocked : ∀ loc ∈ draftPlaces v.pending, v.tree.fileAt loc ≠ none
  /-- The last text that was staged at a place is there. -/
  texts : ∀ early x late loc, done = early ++ x :: late → ¬x.Held w.tree →
    Path.location? (stagedPath x.path) = some loc → LogFile.Off w.log {loc} →
    (∀ y ∈ late, ¬y.Held w.tree → Path.location? (stagedPath y.path) ≠ some loc) →
    ∃ characters, Text.characters? x.text = some characters ∧
      v.tree.fileAt loc = some (.text characters)

theorem Staged.start (pending : w.pending = []) : Staged [] w w where
  log := rfl
  directories _ := .rfl
  nodup := pending ▸ .nil
  waits path := by simp [pending]
  files _ _ _ := rfl
  stocked loc := by simp [pending, draftPlaces]
  texts early x late loc split := by simp at split

theorem Staged.quiet (h : Staged done w v) (quiet : v.Quiet u) : Staged done w u where
  log := quiet.rested.log.trans h.log
  directories loc := (quiet.directories loc).trans (h.directories loc)
  nodup := quiet.rested.pending ▸ h.nodup
  waits path := quiet.rested.pending ▸ h.waits path
  files loc outside off := (quiet.rested.files loc (h.log ▸ off)).trans
    (h.files loc (quiet.rested.pending ▸ outside) off)
  stocked loc inside := mt (quiet.rested.vacant loc).1
    (h.stocked loc (quiet.rested.pending ▸ inside))
  texts early x late loc split new located off last := by
    obtain ⟨characters, kept, found⟩ := h.texts early x late loc split new located off last
    exact ⟨characters, kept, (quiet.rested.files loc (h.log ▸ off)).trans found⟩

theorem Staged.held_iff (h : Staged done w v) (unmixed : Unmixed paths)
    (off : LogFile.Off w.log (placesOf paths)) (inside : ∀ y ∈ done, y.path ∈ paths)
    (hx : x.path ∈ paths) : x.Held v.tree ↔ x.Held w.tree := by
  have waiting : v.pending ⊆ paths := fun path hpath => by
    obtain ⟨y, hy, rfl, -⟩ := (h.waits path).1 hpath
    exact inside y hy
  have file : ∀ loc, Path.location? x.path = some loc → v.tree.fileAt loc = w.tree.fileAt loc := by
    intro loc located
    refine h.files loc (fun staged => unmixed.off_drafts hx located (draftPlaces_mono waiting staged))
      fun log hlog at_ hat other here => off log hlog at_ hat other ?_
    rw [here]
    exact ⟨x.path, hx, .inl located⟩
  exact ⟨fun held => held.of_file (fun loc => (h.directories loc).1) fun loc located =>
      (file loc located).symm,
    fun held => held.of_file (fun loc => (h.directories loc).2) file⟩

/-- A split of a list with one more item is at that item, or one of the list before it. -/
theorem split_concat {early late : List Draft} (h : done ++ [x] = early ++ y :: late) :
    x = y ∧ late = [] ∨ ∃ rest, late = rest ++ [x] ∧ done = early ++ y :: rest := by
  obtain rfl | ⟨rest, z, rfl⟩ := List.eq_nil_or_concat' late
  · exact .inl ⟨List.singleton_inj.1 (List.append_inj' h rfl).2, rfl⟩
  · rw [← List.cons_append, ← List.append_assoc] at h
    obtain ⟨split, same⟩ := List.append_inj' h rfl
    exact .inr ⟨rest, by rw [same], split⟩

theorem Staged.held (h : Staged done w v) (held : x.Held w.tree) : Staged (done ++ [x]) w v where
  log := h.log
  directories := h.directories
  nodup := h.nodup
  waits path := by simp [h.waits path, or_and_right, exists_or, held]
  files := h.files
  stocked := h.stocked
  texts early y late loc split new located off last := by
    obtain ⟨rfl, -⟩ | ⟨rest, rfl, rfl⟩ := split_concat split
    · exact absurd held new
    · exact h.texts early y rest loc rfl new located off fun z hz =>
        last z (List.mem_append_left _ hz)

theorem Staged.wait (h : Staged done w v) {characters : String} (new : ¬x.Held w.tree)
    (kept : Text.characters? x.text = some characters)
    (located : Path.location? (stagedPath x.path) = some loc)
    (file : v.tree.lookup loc ≠ some .directory) (top : FileTree.isTop loc = false) :
    Staged (done ++ [x]) w
      (remember x.path { v with tree := v.tree.put loc (.file (.text characters)) }) where
  log := h.log
  directories other := by
    refine Iff.trans ⟨fun there => ?_, FileTree.directory_put file⟩ (h.directories other)
    by_contra none
    exact FileTree.not_directory_of_put none there
  nodup := nodup_remember h.nodup
  waits path := by
    constructor
    · intro waits
      by_cases old : path ∈ v.pending
      · obtain ⟨y, hy, waits⟩ := (h.waits path).1 old
        exact ⟨y, List.mem_append_left _ hy, waits⟩
      · exact ⟨x, by simp, (eq_of_mem_remember waits old).symm, new⟩
    · rintro ⟨y, hy, rfl, waits⟩
      obtain hy | hy := List.mem_append.1 hy
      · exact subset_remember ((h.waits _).2 ⟨y, hy, rfl, waits⟩)
      · rw [List.mem_singleton.1 hy]
        exact mem_remember
  files other outside off := by
    have apart : other ≠ loc := fun same => outside ⟨x.path, mem_remember, same ▸ located⟩
    exact (FileTree.fileAt_put_of_ne apart).trans
      (h.files other (fun staged => outside (draftPlaces_mono subset_remember staged)) off)
  stocked other := by
    rintro ⟨path, waits, staged⟩
    by_cases here : other = loc
    · rw [here]
      exact ne_of_eq_of_ne (FileTree.fileAt_put_self top) (by simp)
    · refine ne_of_eq_of_ne (FileTree.fileAt_put_of_ne here) (h.stocked other ⟨path, ?_, staged⟩)
      by_contra old
      obtain rfl := eq_of_mem_remember waits old
      exact here (Option.some_inj.1 (staged.symm.trans located))
  texts early y late other split waits staged off last := by
    obtain ⟨rfl, -⟩ | ⟨rest, rfl, rfl⟩ := split_concat split
    · obtain rfl := Option.some_inj.1 (staged.symm.trans located)
      exact ⟨characters, kept, FileTree.fileAt_put_self top⟩
    · have apart : other ≠ loc := fun same =>
        last x (by simp) new (located.trans (congrArg some same.symm))
      obtain ⟨characters', kept', found⟩ := h.texts early y rest other rfl waits staged off fun z hz =>
        last z (List.mem_append_left _ hz)
      exact ⟨characters', kept', (FileTree.fileAt_put_of_ne apart).trans found⟩

theorem Staged.stage (h : Staged done w v) (unmixed : Unmixed paths)
    (off : LogFile.Off w.log (placesOf paths)) (inside : ∀ y ∈ done ++ [x], y.path ∈ paths)
    {staged : Bool} (run : Workspace.stage x.path x.text v = (.ok staged, u)) :
    Staged (done ++ [x]) w u := by
  obtain ⟨characters, kept, outcome⟩ := stage_ok run
  obtain ⟨inside, here⟩ := List.forall_mem_append.1 inside
  have same := h.held_iff unmixed off inside (here x List.mem_cons_self)
  by_cases held : x.Held v.tree
  · have before := same.1 held
    obtain ⟨_, kept', found⟩ := held
    obtain rfl := stage_of_found run kept' found
    exact h.held before
  · obtain ⟨found, -⟩ | ⟨tree, written, quiet⟩ := outcome
    · exact absurd ⟨characters, kept, found⟩ held
    · obtain ⟨loc, located, file, top, rfl⟩ := FileTree.write_of_ok written
      exact (h.wait (mt same.2 held) kept located file top).quiet quiet

theorem Staged.stageAll (h : Staged done w v) (unmixed : Unmixed paths)
    (off : LogFile.Off w.log (placesOf paths)) (inside : ∀ y ∈ done ++ xs, y.path ∈ paths)
    {result : Unit} (run : Draft.stageAll xs v = (.ok result, u)) : Staged (done ++ xs) w u := by
  induction xs generalizing done v with
  | nil =>
    cases run
    rwa [List.append_nil]
  | cons x xs ih =>
    rw [List.append_cons] at inside ⊢
    rw [Draft.stageAll, forM_cons] at run
    obtain ⟨_, t, first, later⟩ := bind_eq_ok.1 run
    obtain ⟨_, _, staged, rest⟩ := bind_eq_ok.1 first
    obtain ⟨-, rfl⟩ := pure_eq_ok.1 rest
    exact ih (h.stage unmixed off (fun y hy => inside y (List.mem_append_left _ hy)) staged) inside
      later

/-- What a commit of texts leaves: a path holds the text that prevails, and if none does, what it held
from the beginning. -/
theorem Staged.commit (h : Staged xs w v) (unmixed : Unmixed (xs.map Draft.path))
    (off : LogFile.Off w.log (placesOf (xs.map Draft.path))) {n : Nat}
    (committed : Workspace.commit v = (.ok n, u)) :
    (∀ path x, Prevails w.tree path xs x → x.Held u.tree) ∧
      ∀ path, (∀ x ∈ xs, x.path = path → x.Held w.tree) →
        ∀ x ∈ xs, x.path = path → x.Held u.tree := by
  obtain ⟨m, moves, rfl⟩ := commit_ok committed
  have waiting : v.pending ⊆ xs.map Draft.path := fun path hpath => by
    obtain ⟨y, hy, rfl, -⟩ := (h.waits path).1 hpath
    exact List.mem_map_of_mem hy
  obtain ⟨moves, apart⟩ := moves_of_ok h.nodup (unmixed.subset waiting)
    (fun loc hloc => FileTree.not_directory_of_file (h.stocked loc hloc)) moves
  have directories (loc : Location) : m.tree.lookup loc = some .directory ↔
      w.tree.lookup loc = some .directory := (moves.directories loc).trans (h.directories loc)
  refine ⟨fun path x prevails => ?_, fun path idle x hx same => ?_⟩
  · obtain ⟨early, late, rfl, rfl, new, last⟩ := prevails
    have waits : x.path ∈ v.pending := (h.waits _).2 ⟨x, by simp, rfl, new⟩
    obtain ⟨a, b, content, movable, -, there⟩ := moves.placed x.path waits
    have source := FileTree.location_of_place movable.source
    obtain ⟨characters, kept, found⟩ := h.texts early x late a rfl new source
      (fun log hlog at_ hat other here => off log hlog at_ hat other
        (here ▸ ⟨x.path, waiting waits, .inr source⟩))
      fun y hy unheld staged => by
        have other : y.path ∈ v.pending := (h.waits _).2 ⟨y, by simp [hy], rfl, unheld⟩
        exact unheld (last y hy (apart.eq_of_mem other waits staged source))
    obtain rfl := Option.some_inj.1 (found.symm.trans movable.found)
    exact ⟨characters, kept, FileTree.read_eq_ok_iff.2 ⟨b, FileTree.place_of_directories
      (fun loc => (moves.directories loc).2) movable.target, there⟩⟩
  · have here : x.path ∈ xs.map Draft.path := List.mem_map_of_mem hx
    refine (idle x hx same).of_file (fun loc => (directories loc).2) fun loc located => ?_
    have outside : loc ∉ placesOf v.pending := by
      rintro ⟨q, hq, file | draft⟩
      · obtain rfl := unmixed.files _ here q (waiting hq) loc located file
        obtain ⟨y, hy, samePath, new⟩ := (h.waits _).1 hq
        exact new (idle y hy (samePath.trans same))
      · exact unmixed.off_drafts here located ⟨q, waiting hq, draft⟩
    refine (moves.others loc outside).trans (h.files loc ?_ ?_)
    · rintro ⟨q, hq, draft⟩
      exact outside ⟨q, hq, .inr draft⟩
    · exact fun log hlog at_ hat other same => off log hlog at_ hat other
        (same ▸ ⟨x.path, here, .inl located⟩)

/-- Texts are given to paths that lead to different files, none of them where another's is staged:
after a commit a path holds the last text that its file did not hold in the beginning. So it holds
the last text it was given unless the file held this one and another was staged before. -/
theorem last_text_held_iff {n : Nat} (pending : w.pending = [])
    (unmixed : Unmixed (xs.map Draft.path)) (off : LogFile.Off w.log (placesOf (xs.map Draft.path)))
    (staged : stageAll xs w = (.ok (), v)) (committed : Workspace.commit v = (.ok n, u)) :
    (∀ path x, Prevails w.tree path xs x → x.Held u.tree) ∧
      ∀ early x late, xs = early ++ x :: late → (∀ y ∈ late, y.path ≠ x.path) →
        (x.Held u.tree ↔ (x.Held w.tree → ∀ y ∈ early, y.path = x.path → y.Held w.tree)) := by
  have done : Staged xs w v := Staged.stageAll (.start pending) unmixed off
    (fun y hy => List.mem_map_of_mem hy) staged
  obtain ⟨prevailing, unchanged⟩ := done.commit unmixed off committed
  refine ⟨prevailing, fun early x late split last => ⟨fun held old y hy same => ?_, fun sooner => ?_⟩⟩
  · by_contra new
    have other : ∃ y ∈ xs, y.path = x.path ∧ ¬y.Held w.tree := ⟨y, by simp [split, hy], same, new⟩
    obtain ⟨z, prevails⟩ := exists_prevails other
    have wins := prevailing _ z prevails
    obtain ⟨_, _, -, samePath, unheld, -⟩ := prevails
    exact unheld (old.of_same samePath.symm (held.same wins samePath.symm))
  · by_cases old : x.Held w.tree
    · refine unchanged x.path (fun y hy same => ?_) x (by simp [split]) rfl
      rw [split] at hy
      obtain hy | hy := List.mem_append.1 hy
      · exact sooner old y hy same
      · obtain rfl | hy := List.mem_cons.1 hy
        · exact old
        · exact absurd same (last y hy)
    · exact prevailing x.path x
        ⟨early, late, split, rfl, old, fun y hy same => absurd same (last y hy)⟩

def oneFile : Workspace := { tree := { entries := [(["p"], .file (.text "old"))] } }

/-- It gets a new text, and then its old one; meanwhile two texts are given to another file. -/
def backAndForth : List Draft := [⟨"p", "new"⟩, ⟨"q", "first"⟩, ⟨"p", "old"⟩, ⟨"q", "second"⟩]

theorem backAndForth_runs : (match stageAll backAndForth oneFile with
    | (.ok _, v) => match Workspace.commit v with
      | (.ok _, u) => u.tree.fileAt ["p"] == some (.text "new") &&
        u.tree.fileAt ["q"] == some (.text "second")
      | _ => false
    | _ => false) = true := by decide +kernel

theorem backAndForth_places : Path.location? "p" = some ["p"] ∧ Path.location? "q" = some ["q"] ∧
    Path.location? (stagedPath "p") = some ["p.tmp"] ∧
    Path.location? (stagedPath "q") = some ["q.tmp"] := by decide +kernel

theorem backAndForth_unmixed : Unmixed (backAndForth.map Draft.path) := by
  constructor <;> simp [backAndForth, backAndForth_places]

/-- A file does not always hold the text that was given last: the old text is not staged while a new
one waits, and the commit puts the new one there. -/
theorem last_text_lost : ∃ v u n, oneFile.pending = [] ∧ oneFile.log = none ∧
    Unmixed (backAndForth.map Draft.path) ∧ stageAll backAndForth oneFile = (.ok (), v) ∧
      Workspace.commit v = (.ok n, u) ∧ backAndForth = backAndForth.take 2 ++
        ⟨"p", "old"⟩ :: [⟨"q", "second"⟩] ∧ ¬Held u.tree ⟨"p", "old"⟩ := by
  have runs := backAndForth_runs
  split at runs
  · next v hstage =>
    split at runs
    · next n u hcommit =>
      simp only [Bool.and_eq_true, beq_iff_eq] at runs
      refine ⟨v, u, n, rfl, rfl, backAndForth_unmixed, hstage, hcommit, rfl, ?_⟩
      rintro ⟨characters, kept, found⟩
      obtain ⟨loc, placed, there⟩ := FileTree.read_eq_ok_iff.1 found
      obtain rfl := Option.some_inj.1
        ((FileTree.location_of_place placed).symm.trans backAndForth_places.1)
      have old : Text.characters? "old" = some "old" := by decide +kernel
      rw [Option.some_inj.1 (kept.symm.trans old), runs.1] at there
      simp at there
    · cases runs
  · cases runs

theorem last_text_held_iff_of_backAndForth : ∃ v u n, oneFile.pending = [] ∧
    Unmixed (backAndForth.map Draft.path) ∧
      LogFile.Off oneFile.log (placesOf (backAndForth.map Draft.path)) ∧
      stageAll backAndForth oneFile = (.ok (), v) ∧ Workspace.commit v = (.ok n, u) ∧
      (∀ path x, Prevails oneFile.tree path backAndForth x → x.Held u.tree) ∧
      (Held u.tree ⟨"q", "second"⟩ ↔ (Held oneFile.tree ⟨"q", "second"⟩ →
        ∀ y ∈ backAndForth.take 3, y.path = "q" → y.Held oneFile.tree)) := by
  have runs := backAndForth_runs
  split at runs
  · next v hstage =>
    split at runs
    · next n u hcommit =>
      have off : LogFile.Off oneFile.log (placesOf (backAndForth.map Draft.path)) :=
        fun _ hlog => by cases hlog
      obtain ⟨prevailing, last⟩ := last_text_held_iff rfl backAndForth_unmixed off hstage hcommit
      exact ⟨v, u, n, rfl, backAndForth_unmixed, off, hstage, hcommit, prevailing,
        last (backAndForth.take 3) ⟨"q", "second"⟩ [] rfl (by simp)⟩
    · cases runs
  · cases runs

end Draft

end ScriptGlue
