import ScriptGlue.Proofs.Files.Moves

/-! # Commits after one that faulted

A commit that faults forgets none of the paths that wait, those included whose files it has moved. A
later one succeeds if and only if each of these can be moved, so that it does after the file was
repaired at which the first one faulted if that was the first to be moved; otherwise it waits in vain
for the staged file of a path that was moved already.
-/
namespace ScriptGlue.Workspace
open ScriptGlue.Action

variable {w v u : Workspace} {path : String} {e : Fault}

/-- The paths that wait lead to different files, and different files are staged for them. -/
structure Orderly (w : Workspace) : Prop where
  nodup : w.pending.Nodup
  unmixed : Unmixed w.pending
  apart : DraftsApart w.pending
  files : ∀ loc ∈ draftPlaces w.pending, w.tree.lookup loc ≠ some .directory

/-- A file is staged for the path, and can be moved into place. -/
def CanMove (w : Workspace) (path : String) : Prop :=
  ∃ a b content, w.tree.Movable path a b content

/-- A commit gives a result if and only if each of the files that wait can be moved. -/
theorem Orderly.commit_ok_iff (h : Orderly w) :
    (∃ n t, commit w = (.ok n, t)) ↔ ∀ path ∈ w.pending, w.CanMove path := by
  constructor
  · rintro ⟨n, t, committed⟩ path hpath
    obtain ⟨m, moves, -⟩ := commit_ok committed
    obtain ⟨moves, -⟩ := moves_of_ok h.nodup h.unmixed h.files moves
    obtain ⟨a, b, content, movable, -⟩ := moves.placed path hpath
    exact ⟨a, b, content, movable⟩
  · intro movable
    obtain ⟨m, committed, -⟩ := commit_of_movable h.nodup h.unmixed h.apart movable
    exact ⟨_, _, committed⟩

theorem commit_of_blocked {first : String} {rest : List String} (pending : w.pending = first :: rest)
    (blocked : moveIntoPlace first w = (.error e, w)) : commit w = (.error e, w) := by
  have stops : w.pending.forM moveIntoPlace w = (.error e, w) := by
    rw [pending, forM_cons, bind_apply, blocked]
  rw [commit, bind_of_ok (get_apply w), bind_apply, stops]

theorem moveIntoPlace_of_gone
    (gone : ∀ a, Path.location? (stagedPath path) = some a → w.tree.lookup a = none) :
    ∃ fault, moveIntoPlace path w = (.error fault, w) := by
  rcases run : moveIntoPlace path w with ⟨fault | _, v⟩
  · exact ⟨fault, by rw [moveIntoPlace_error run]⟩
  · obtain ⟨a, _, content, source, -, found, -⟩ := moveIntoPlace_of_file run
      fun a located => by simp [gone a located]
    cases (gone a (FileTree.location_of_place source)).symm.trans (FileTree.fileAt_eq_some.1 found)

/-- After a commit that faulted, all paths wait that did before, and a later one succeeds if and only
if each of them can be moved. If nothing was moved before the fault, nothing has changed, and what
waits is committed once each file can be moved. If something was, its staged file is gone, and a
commit changes nothing until the first path has another one. -/
theorem commit_after_fault (failed : commit w = (.error e, v)) : ∃ moved path rest,
    w.pending = moved ++ path :: rest ∧ moved.forM moveIntoPlace w = (.ok (), v) ∧
      moveIntoPlace path v = (.error e, v) ∧ v.pending = w.pending ∧
      (Orderly w → Moves moved w v ∧ ∀ loc ∈ draftPlaces moved, v.tree.lookup loc = none) ∧
      ∀ u, v.pending <+: u.pending →
        (Orderly u → ((∃ n t, commit u = (.ok n, t)) ↔ ∀ path ∈ u.pending, u.CanMove path)) ∧
        (moved = [] → v = w ∧ (Orderly u → (∀ path ∈ u.pending, u.CanMove path) →
          ∃ m, commit u = (.ok u.pending.length, { m with pending := [] }) ∧ Moves u.pending u m) ∧
          ∀ fault, moveIntoPlace path u = (.error fault, u) → commit u = (.error fault, u)) ∧
        ∀ first others, moved = first :: others →
          (∀ a, Path.location? (stagedPath first) = some a → u.tree.lookup a = none) →
          ∃ fault, commit u = (.error fault, u) := by
  obtain ⟨moved, path, rest, pending, done, at_, kept⟩ := commit_eq_error failed
  refine ⟨moved, path, rest, pending, done, at_, kept, fun orderly => ?_, fun u ⟨more, later⟩ =>
    ⟨Orderly.commit_ok_iff, ?_, ?_⟩⟩
  · have inside : moved ⊆ w.pending := pending ▸ List.subset_append_left _ _
    obtain ⟨moves, -⟩ := moves_of_ok
      (orderly.nodup.sublist (pending ▸ List.sublist_append_left _ _))
      (orderly.unmixed.subset inside)
      (fun loc hloc => orderly.files loc (draftPlaces_mono inside hloc)) done
    refine ⟨moves, fun loc ⟨p, hp, located⟩ => ?_⟩
    obtain ⟨a, _, content, movable, gone, -⟩ := moves.placed p hp
    obtain rfl := Option.some_inj.1 (located.symm.trans (FileTree.location_of_place movable.source))
    have file : v.tree.lookup loc ≠ some .directory := fun there =>
      orderly.files loc ⟨p, inside hp, located⟩ ((moves.directories loc).1 there)
    unfold FileTree.fileAt at gone
    cases there : v.tree.lookup loc with
    | none => rfl
    | some node =>
      cases node with
      | directory => exact absurd there file
      | file content => simp [there] at gone
  · rintro rfl
    cases done
    refine ⟨rfl, fun orderly movable =>
      commit_of_movable orderly.nodup orderly.unmixed orderly.apart movable, fun fault blocked => ?_⟩
    exact commit_of_blocked (by rw [← later, pending]; rfl) blocked
  · rintro first others rfl gone
    obtain ⟨fault, blocked⟩ := moveIntoPlace_of_gone gone
    exact ⟨fault, commit_of_blocked (by rw [← later, kept, pending]; rfl) blocked⟩

/-- Two texts wait, and the staged file of the second is lost. -/
def halfStaged : Workspace where
  tree := { entries := [(["a.tmp"], .file (.text "A"))] }
  pending := ["a", "b"]

def repaired (w : Workspace) : Workspace :=
  { w with tree := w.tree.put ["b.tmp"] (.file (.text "B")) }

theorem halfStaged_runs : (match commit halfStaged with
    | (.error _, v) => v.pending == ["a", "b"] && v.tree.fileAt ["a"] == some (.text "A") &&
      match moveIntoPlace "b" (repaired v), commit (repaired v) with
      | (.ok _, _), (.error _, u) => u.tree.fileAt ["b"] == none
      | _, _ => false
    | _ => false) = true := by decide +kernel

/-- A commit that faulted may keep the next one from doing the rest: the file of the first path was
moved and cannot be moved again, but the path still waits. -/
theorem moved_path_blocks : ∃ v t u fault fault', commit halfStaged = (.error fault, v) ∧
    v.tree.fileAt ["a"] = some (.text "A") ∧ v.pending = ["a", "b"] ∧
      moveIntoPlace "b" (repaired v) = (.ok (), t) ∧ commit (repaired v) = (.error fault', u) ∧
      u.tree.fileAt ["b"] = none := by
  have runs := halfStaged_runs
  split at runs
  · next fault v hcommit =>
    simp only [Bool.and_eq_true, beq_iff_eq] at runs
    obtain ⟨⟨pending, file⟩, runs⟩ := runs
    split at runs
    · next t fault' u hmove hagain =>
      exact ⟨v, t, u, fault, fault', hcommit, file, pending, hmove, hagain, beq_iff_eq.1 runs⟩
    · cases runs
  · cases runs

theorem commit_after_fault_of_halfStaged : ∃ v fault moved path rest,
    commit halfStaged = (.error fault, v) ∧ moved ++ path :: rest = ["a", "b"] ∧
      moved.forM moveIntoPlace halfStaged = (.ok (), v) ∧
      moveIntoPlace path v = (.error fault, v) ∧ v.pending = ["a", "b"] ∧
      (Orderly halfStaged →
        Moves moved halfStaged v ∧ ∀ loc ∈ draftPlaces moved, v.tree.lookup loc = none) ∧
      ∀ first others, moved = first :: others →
        (∀ a, Path.location? (stagedPath first) = some a → (repaired v).tree.lookup a = none) →
        ∃ fault, commit (repaired v) = (.error fault, repaired v) := by
  have runs := halfStaged_runs
  split at runs
  · next fault v hcommit =>
    obtain ⟨moved, path, rest, pending, done, at_, kept, moves, later⟩ := commit_after_fault hcommit
    exact ⟨v, fault, moved, path, rest, hcommit, pending.symm, done, at_, kept, moves,
      (later (repaired v) List.prefix_rfl).2.2⟩
  · cases runs

end ScriptGlue.Workspace
