import ScriptGlue.Proofs.Files.Keeping
import ScriptGlue.Proofs.Files.Standing

/-! # Saves to one place

Units that are saved to one place in one batch are compared to what was there before the batch, not
to each other. So the last of them that differs from it is committed, although a later one may be
what was there already.
-/
namespace ScriptGlue
open ScriptGlue.Action

namespace FileTree
variable {t : FileTree} {loc : Location} {directory filename characters : String}

theorem walk_ne_missing {asDirectory : Bool} {names : List String}
    (h : t.Directories (Path.steps loc names.dropLast)) :
    t.walk asDirectory loc names ≠ .error .missing := by
  induction names generalizing loc with
  | nil => rintro ⟨⟩
  | cons name rest ih =>
    cases rest with
    | nil =>
      unfold walk
      split
      · rintro ⟨⟩
      · split
        · rintro ⟨⟩
        · split <;> rintro ⟨⟩
    | cons next rest =>
      rw [List.dropLast_cons_cons] at h
      have split : Path.steps loc (name :: (next :: rest).dropLast) =
          Path.steps loc [name] ++ Path.steps (Path.step loc name) (next :: rest).dropLast :=
        Path.steps_append loc [name] _
      rw [split] at h
      unfold walk
      by_cases short : Path.size name ≤ Path.longestName
      · rw [enter_of_directories short h.left]
        exact ih h.right
      · have plain : name ≠ "." ∧ name ≠ ".." :=
          not_or.1 fun dots => short (short_of_dots dots)
        have long : t.enter loc name = .error .nameTooLong := by
          rw [enter, if_neg plain.1, if_neg plain.2, if_pos (Nat.not_le.1 short)]
        rw [long]
        rintro ⟨⟩

/-- Where a text could be staged, the characters that a path lacks are not at its place. -/
theorem Lacks.not_there (h : t.Lacks (Path.join directory filename) characters)
    (bare : '/' ∉ filename.toList) (some : filename ≠ "") (nonempty : directory ≠ "") {place : Place}
    (staged : t.place (Path.join directory (filename ++ ".tmp")) = .ok place)
    (located : Path.location? (Path.join directory filename) = .some loc) :
    t.fileAt loc ≠ .some (.text characters) := by
  intro there
  obtain missing | ⟨other, read, differs⟩ := h
  · obtain ⟨-, passed⟩ := directories_of_place staged
    obtain ⟨named, more⟩ := names_join bare some nonempty
    obtain ⟨named', more'⟩ := names_join (Target.bare_staged bare) (by simp) nonempty
    rw [named', List.dropLast_concat, ← Path.origin_of_goesOn more' nonempty,
      Path.origin_of_goesOn more nonempty] at passed
    cases placed : t.place (Path.join directory filename) with
    | ok place =>
      cases place with
      | directory at_ => simp [FileTree.read, placed, Bind.bind, Except.bind, throw, throwThe,
          MonadExceptOf.throw] at missing
      | entry at_ asDirectory =>
        cases (location_of_place placed).symm.trans located
        cases asDirectory with
        | false => cases missing.symm.trans (read_eq_ok_iff.2 ⟨loc, placed, there⟩)
        | true => simp [FileTree.read, placed, fileAt_eq_some.1 there, Bind.bind, Except.bind, throw,
            throwThe, MonadExceptOf.throw] at missing
    | error fault =>
      have fault : fault = .missing := by
        simpa [FileTree.read, placed, Bind.bind, Except.bind] using missing
      subst fault
      unfold FileTree.place at placed
      split at placed
      · cases placed
      · split at placed
        · cases placed
        · split at placed
          · next empty =>
            obtain ⟨rest, whole, -⟩ := more
            rw [empty] at whole
            exact nonempty (String.toList_injective (List.append_eq_nil_iff.1 whole.symm).1)
          · split at placed
            · cases placed
            · refine walk_ne_missing ?_ placed
              show t.Directories (Path.steps (Path.origin _) (Path.names _).dropLast)
              rw [named, List.dropLast_concat]
              exact passed
  · obtain ⟨at_, placed, found⟩ := read_eq_ok_iff.1 read
    cases (location_of_place placed).symm.trans located
    cases found.symm.trans there
    exact differs rfl

end FileTree

namespace Save
variable {x y z : Save} {w v u : Workspace} {t : FileTree} {ys : List Save}

/-- The save is the last of these whose unit was not at its place. -/
def Prevails (before : FileTree) (ys : List Save) (y : Save) : Prop :=
  ∃ early late, ys = early ++ y :: late ∧ ¬y.AtPlace before ∧ ∀ z ∈ late, z.AtPlace before

theorem Prevails.keep (h : Prevails t ys y) (there : z.AtPlace t) : Prevails t (ys ++ [z]) y := by
  obtain ⟨early, late, rfl, absent, others⟩ := h
  exact ⟨early, late ++ [z], by simp, absent,
    List.forall_mem_append.2 ⟨others, List.forall_mem_singleton.2 there⟩⟩

theorem Prevails.last (absent : ¬z.AtPlace t) : Prevails t (ys ++ [z]) z :=
  ⟨ys, [], rfl, absent, fun _ h => absurd h List.not_mem_nil⟩

theorem Prevails.mem (h : Prevails t ys y) : y ∈ ys := by
  obtain ⟨early, late, rfl, -⟩ := h
  simp

theorem AtPlace.of_file (h : y.AtPlace t) {t' : FileTree}
    (same : ∀ loc, Path.location? y.path = some loc → t'.fileAt loc = t.fileAt loc) :
    y.AtPlace t' := by
  obtain ⟨loc, characters, located, kept, found⟩ := h
  exact ⟨loc, characters, located, kept, (same loc located).trans found⟩

def Turns (x : Target) (before after : FileTree) (ys : List Save) : Prop :=
  (∃ y, Prevails before ys y ∧ y.AtPlace after) ∨
    (¬before.Open x.directory ∨ ∀ y ∈ ys, y.AtPlace before) ∧
      ∀ loc, Path.location? x.path = some loc → after.fileAt loc = before.fileAt loc

theorem Turns.of_file {x : Target} {before after later : FileTree} (h : Turns x before after ys)
    (targets : ∀ y ∈ ys, y.toTarget = x)
    (same : ∀ loc, Path.location? x.path = some loc → later.fileAt loc = after.fileAt loc) :
    Turns x before later ys := by
  obtain ⟨y, prevails, there⟩ | ⟨settled, file⟩ := h
  · exact .inl ⟨y, prevails, there.of_file (targets y prevails.mem ▸ same)⟩
  · exact .inr ⟨settled, fun loc located => (same loc located).trans (file loc located)⟩

structure Competing (x : Target) (w : Workspace) (ys : List Save) (v : Workspace) : Prop where
  place : ∀ loc, Path.location? x.path = some loc → v.tree.fileAt loc = w.tree.fileAt loc
  way : ∀ loc ∈ Path.way x.directory, v.tree.fileAt loc = none ↔ w.tree.fileAt loc = none
  outcome : (x.path ∉ v.pending ∧ (¬w.tree.Open x.directory ∨ ∀ y ∈ ys, y.AtPlace w.tree)) ∨
    x.path ∈ v.pending ∧ w.tree.Open x.directory ∧ ∃ y, Prevails w.tree ys y ∧ y.Waits v.tree

namespace Competing

theorem open_iff (h : Competing x.toTarget w ys v) :
    v.tree.Open x.directory ↔ w.tree.Open x.directory :=
  ⟨fun opened => opened.of_files fun loc hloc => (h.way loc hloc).symm,
    fun opened => opened.of_files h.way⟩

theorem aside (h : Competing x.toTarget w ys v) (targets : ∀ y ∈ ys, y.toTarget = x.toTarget)
    (g : Aside x v u) : Competing x.toTarget w ys u where
  place loc located := (g.files loc (.inl located)).trans (h.place loc located)
  way loc hloc := (g.vacant loc hloc).trans (h.way loc hloc)
  outcome := by
    obtain ⟨idle, settled⟩ | ⟨waits, opened, y, prevails, staged⟩ := h.outcome
    · exact .inl ⟨fun waits => idle (g.pending.1 waits), settled⟩
    · refine .inr ⟨g.pending.2 waits, opened, y, prevails, staged.of_files fun loc hloc => ?_⟩
      have same : y.places = x.places := by rw [targets y prevails.mem]
      exact g.files loc (same ▸ hloc)

theorem start (x : Target) (pending : w.pending = []) : Competing x w [] w where
  place _ _ := rfl
  way _ _ := Iff.rfl
  outcome := .inl ⟨by rw [pending]; exact List.not_mem_nil, .inr fun _ h => absurd h List.not_mem_nil⟩

theorem run {result : Unit} (h : Competing x.toTarget w ys v)
    (targets : ∀ y ∈ ys, y.toTarget = x.toTarget) (clean : Clean x)
    (off : LogFile.Off v.log x.places) (run : x.run v = (.ok result, u)) :
    Competing x.toTarget w (ys ++ [x]) u := by
  obtain ⟨tree, made, run⟩ := run_ok run
  have more := FileTree.moreDirectories_ensureDirectory v.tree x.directory
  rw [← made] at more
  have targets' : ∀ y ∈ ys ++ [x], y.toTarget = x.toTarget :=
    List.forall_mem_append.2 ⟨targets, List.forall_mem_singleton.2 rfl⟩
  have first := aside_of_rested (x := x) (Workspace.rested_tree more) off
  obtain ⟨fault, failed, plain, quiet⟩ | ⟨result, characters, kept, outcome⟩ := run
  · have blocked : ¬w.tree.Open x.directory := by
      rw [← h.open_iff]
      intro opened
      obtain ⟨_, made, -⟩ := FileTree.ensureDirectory_open opened
      rw [made] at failed
      cases failed
    have idle : x.path ∉ v.pending := by
      obtain ⟨idle, -⟩ | ⟨-, opened, -⟩ := h.outcome
      · exact idle
      · exact absurd opened blocked
    have : Competing x.toTarget w (ys ++ [x]) v := ⟨h.place, h.way, .inl ⟨idle, .inl blocked⟩⟩
    exact (this.aside targets' first).aside targets' (aside_of_rested quiet.rested off)
  have nonempty := FileTree.nonempty_of_ensureDirectory result
  have h := h.aside targets first
  obtain ⟨found, quiet⟩ | ⟨lacks, written, done, quiet⟩ := outcome
  · obtain ⟨loc, placed, there⟩ := FileTree.read_eq_ok_iff.1 found
    have there : x.AtPlace w.tree := ⟨loc, characters, FileTree.location_of_place placed, kept,
      (h.place loc (FileTree.location_of_place placed)).symm.trans there⟩
    have opened := h.open_iff.1 (.of_place clean.slash clean.filename nonempty placed)
    refine aside ⟨h.place, h.way, ?_⟩ targets' (aside_of_rested quiet.rested off)
    obtain ⟨idle, settled⟩ | ⟨waits, -, y, prevails, staged⟩ := h.outcome
    · refine .inl ⟨idle, .inr (List.forall_mem_append.2 ⟨?_, List.forall_mem_singleton.2 there⟩)⟩
      exact settled.resolve_left fun blocked => blocked opened
    · exact .inr ⟨waits, opened, y, prevails.keep there, staged⟩
  · obtain ⟨loc, asDirectory, placed, top, rfl⟩ := FileTree.write_eq_ok done
    have located := FileTree.location_of_place placed
    rw [Target.staged, Target.path, Target.stagedPath_join clean.filename] at placed
    have opened := h.open_iff.1 (.of_place (Target.bare_staged clean.slash) (by simp) nonempty placed)
    have absent : ¬x.AtPlace w.tree := by
      rintro ⟨at_, others, located, kept', there⟩
      cases kept.symm.trans kept'
      exact lacks.not_there clean.slash clean.filename nonempty placed located
        ((h.place at_ located).trans there)
    have waits : x.path ∈ (Workspace.remember x.path
        { v with tree := tree.put loc (.file (.text characters)) }).pending := by
      unfold Workspace.remember
      simp only
      split
      · next known => simpa using known
      · simp
    refine aside ⟨fun at_ hat => ?_, fun at_ hat => ?_, .inr ⟨waits, opened, x, .last absent,
      loc, characters, located, kept, FileTree.fileAt_put_self top⟩⟩ targets'
        (aside_of_rested quiet.rested off)
    · have apart : at_ ≠ loc := fun same => clean.own at_ hat (same ▸ located)
      exact (FileTree.fileAt_put_of_ne apart).trans (h.place at_ hat)
    · have apart : at_ ≠ loc := fun same => clean.way at_ hat (.inr (same ▸ located))
      show (tree.put loc _).fileAt at_ = none ↔ _
      rw [FileTree.fileAt_put_of_ne apart]
      exact h.way at_ hat

end Competing

def Gathered (x : Save) (xs : List Save) : Prop :=
  ∀ y ∈ xs, y.toTarget ≠ x.toTarget → Aloof x y.path

def sharing (x : Target) (xs : List Save) : List Save := xs.filter fun y => y.toTarget = x

theorem mem_sharing {x : Target} {xs : List Save} : y ∈ sharing x xs ↔ y ∈ xs ∧ y.toTarget = x := by
  simp [sharing]

theorem Clean.of_target (h : Clean x) (same : y.toTarget = x.toTarget) : Clean y := by
  obtain ⟨target, text⟩ := y
  subst same
  exact ⟨h.filename, h.slash, h.own, h.way⟩

theorem Aside.of_target (h : Aside x w v) (same : y.toTarget = x.toTarget) : Aside y w v := by
  obtain ⟨target, text⟩ := y
  subst same
  exact ⟨h.pending, h.directories, h.files, h.vacant⟩

theorem Saves.competing {xs : List Save} (h : Saves xs w v) (pending : w.pending = [])
    (clean : Clean x) (gathered : Gathered x xs) (off : LogFile.Off w.log x.places) :
    Competing x.toTarget w (sharing x.toTarget xs) v := by
  have targets (xs : List Save) : ∀ y ∈ sharing x.toTarget xs, y.toTarget = x.toTarget :=
    fun y hy => (mem_sharing.1 hy).2
  induction h with
  | quiet quiet =>
    exact (Competing.start x.toTarget pending).aside (targets []) (aside_of_rested quiet.rested off)
  | @save xs y w v u u' before saved after ih =>
    have h := ih pending (fun y hy => gathered y (List.mem_append_left _ hy)) off
    refine Competing.aside ?_ (targets _)
      (aside_of_rested after.rested (log_run saved ▸ before.log ▸ off))
    by_cases same : y.toTarget = x.toTarget
    · have all : sharing x.toTarget (xs ++ [y]) = sharing x.toTarget xs ++ [y] := by
        simp [sharing, same]
      rw [all]
      have clean := clean.of_target same
      obtain ⟨_, text⟩ := y
      subst same
      exact Competing.run (x := { x with text }) h (targets xs) clean (before.log ▸ off) saved
    · have all : sharing x.toTarget (xs ++ [y]) = sharing x.toTarget xs := by
        simp [sharing, same]
      rw [all]
      exact h.aside (targets xs) (aside_run (gathered y (by simp) same) (before.log ▸ off) saved)

/-- After the commit of a batch, the file at a target is the last of the units saved there that
differ from the file before, and that file if there are none or the way there was not open. -/
theorem Saves.commit_turns {xs : List Save} {n : Nat} (saves : Saves xs w v)
    (pending : w.pending = []) (clean : Clean x) (gathered : Gathered x xs)
    (off : LogFile.Off w.log x.places) (h : Workspace.commit v = (.ok n, u)) :
    Turns x.toTarget w.tree u.tree (sharing x.toTarget xs) := by
  obtain ⟨m, moves, rfl⟩ := Workspace.commit_ok h
  have stocked := saves.stocked pending
  have others : ∀ path ∈ v.pending, path = x.path ∨ Aloof x path := fun path hpath => by
    obtain ⟨⟨y, hy, rfl⟩, -⟩ := stocked.staged path hpath
    by_cases same : y.toTarget = x.toTarget
    · exact .inl (congrArg Target.path same)
    · exact .inr (gathered y hy same)
  have competing := saves.competing pending clean gathered off
  show Turns x.toTarget w.tree m.tree _
  obtain ⟨idle, aside⟩ | ⟨waits, u, u', before, moved, after⟩ :=
    forM_moveIntoPlace_split stocked.nodup others stocked.files moves
  · obtain ⟨-, settled⟩ | ⟨waits, -⟩ := competing.outcome
    · exact .inr ⟨settled, fun loc located =>
        (aside.files loc (.inl located)).trans (competing.place loc located)⟩
    · exact absurd waits idle
  · obtain ⟨idle, -⟩ | ⟨-, opened, y, prevails, loc, characters, located, kept, staged⟩ :=
      competing.outcome
    · exact absurd waits idle
    · refine .inl ⟨y, prevails, ?_⟩
      have same := (mem_sharing.1 prevails.mem).2
      have clean := clean.of_target same
      obtain ⟨_, text⟩ := y
      subst same
      have ready : Ready v.tree { x with text } :=
        ⟨competing.open_iff.2 opened, loc, characters, kept, located, staged⟩
      obtain ⟨-, characters, kept, found⟩ :=
        (ready.aside (before.of_target rfl)).moveIntoPlace clean moved
      obtain ⟨at_, placed, there⟩ := FileTree.read_eq_ok_iff.1 found
      have located := FileTree.location_of_place placed
      exact ⟨at_, characters, located, kept, (after.files at_ (.inl located)).trans there⟩

end Save

end ScriptGlue
