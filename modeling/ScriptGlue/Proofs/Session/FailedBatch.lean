import ScriptGlue.Proofs.Files.Moves
import ScriptGlue.Proofs.Session.Aftermath
import ScriptGlue.Proofs.Session.UnitFiles

/-! # What a failed batch leaves in place

A batch whose generation faults leaves every file in place as it was. A commit moves the staged
files one by one: if it faults, those before the one at which it faulted stay moved, and all other
files in place are as they were.
-/
namespace ScriptGlue
open ScriptGlue.Action

namespace Session
variable {s t u v : Session} {forced types : List (Option TypeId)} {e : Fault}

theorem batch_eq_error_of_generated (generated : generate forced types s = (.ok (), v))
    (failed : batch forced types s = (.error e, t)) :
    Workspace.commit v.workspace = (.error e, t.workspace) ∧
      t = { v with workspace := t.workspace } := by
  obtain h | ⟨_, v', hattempt, h⟩ := bind_eq_error.1 failed
  · rw [tryCatch_apply, generated] at h
    cases h
  · obtain ⟨-, rfl⟩ := Prod.mk.inj ((attempt_ok hattempt).symm.trans generated)
    obtain h | ⟨n, w, _, h⟩ := bind_eq_error.1 h
    · cases committed : Workspace.commit v'.workspace with
      | mk result files =>
        have : onWorkspace Workspace.commit v' = (result, { v' with workspace := files }) := by
          simp only [onWorkspace, Action.within, committed]
        cases this.symm.trans h
        exact ⟨rfl, rfl⟩
    · obtain ⟨u, hu, -⟩ := reports_committed n w
      cases hu.symm.trans h

theorem batch_of_failed_commit {w : Workspace} (generated : generate forced types s = (.ok (), v))
    (failed : Workspace.commit v.workspace = (.error e, w)) :
    batch forced types s = (.error e, { v with workspace := w }) := by
  have attempted : (tryCatch (generate forced types) fun fault => do
      onWorkspace Workspace.discard
      throw fault) s = (.ok (), v) := by rw [tryCatch_apply, generated]
  have committed : onWorkspace Workspace.commit v = (.error e, { v with workspace := w }) := by
    simp only [onWorkspace, Action.within, failed]
  exact (bind_of_ok attempted _).trans (bind_of_error committed _)

/-- Up to its end a generation changes files at places for staged texts only. -/
theorem generate_holds {r : Except Fault Unit} (h : generate forced types s = (r, v))
    {loc : Location} (outside : loc ∉ Workspace.stagingPlaces)
    (off : LogFile.Off s.workspace.log {loc}) :
    v.workspace.Holds loc (s.workspace.tree.fileAt loc) := by
  have := ((lasting_held outside (s.workspace.tree.fileAt loc)).generate forced types).outcome
    ⟨rfl, off⟩
  rwa [h] at this

/-- If its generation faults, a batch leaves each file in place as it was. If its commit faults, it
has moved what is staged for the paths before the one at which it faulted, nothing is forgotten of
what is staged, and it leaves each file in place elsewhere as it was. -/
theorem failed_batch_files (failed : batch forced types s = (.error e, t)) :
    ((generate forced types s).1.isOk = false → ∀ loc, loc ∉ Workspace.stagingPlaces →
      LogFile.Off s.workspace.log {loc} →
      t.workspace.tree.fileAt loc = s.workspace.tree.fileAt loc) ∧
    ∀ v, generate forced types s = (.ok (), v) → ∃ moved path rest,
      v.workspace.pending = moved ++ path :: rest ∧
        moved.forM Workspace.moveIntoPlace v.workspace = (.ok (), t.workspace) ∧
        Workspace.moveIntoPlace path t.workspace = (.error e, t.workspace) ∧
        t.workspace.pending = v.workspace.pending ∧
        ∀ loc, loc ∉ Workspace.stagingPlaces → LogFile.Off s.workspace.log {loc} →
          Workspace.Clear moved loc →
          t.workspace.tree.fileAt loc = s.workspace.tree.fileAt loc := by
  constructor
  · intro faulted loc outside off
    obtain ⟨result, v, w, hgenerate, ht, discarded⟩ := batch_eq_error failed
    rw [hgenerate] at faulted
    rw [ht, discarded.resolve_left (by simp [faulted])]
    exact ((Workspace.holds_discard outside).outcome (generate_holds hgenerate outside off)).file
  · intro v generated
    obtain ⟨committed, -⟩ := batch_eq_error_of_generated generated failed
    obtain ⟨moved, path, rest, pending, done, at_, kept⟩ := Workspace.commit_eq_error committed
    refine ⟨moved, path, rest, pending, done, at_, kept, fun loc outside off clear => ?_⟩
    exact ((Workspace.forM_moveIntoPlace_frame done).2 loc clear).trans
      (generate_holds generated outside off).file

/-- The directory for the units of the project is the shared one under another spelling. -/
def respelledSession : Session :=
  fresh {}
    { scriptsDir := .text "out", projectDir := .text ".", hostPluginType := .text "engine",
      generatedUserContent := .text "out" }
    (.text ".cs") {}

theorem respelledSession_runs : (readGraph namesakeDocument).gives respelledSession fun _ s =>
    s.workspace.tree == {} && (generate [] [some 0, some 1]).gives s fun _ v =>
      v.exported == [1, 0] &&
        v.workspace.pending == ["out/E.generated.cs", "./out/E.generated.cs"] &&
        Workspace.commit.faults v.workspace fun _ w =>
          (w.tree.fileAt ["out", "E.generated.cs"]).isSome := by
  rw [generate_eq_direct]
  decide +kernel

/-- A batch whose commit faults may leave a part of its output: two spellings of one directory are
two staged paths for one staged file, so the commit of the second finds nothing to move when the
first is in place already. -/
theorem failed_commit_leaves_part : ∃ asked s t fault,
    [Trigger.read namesakeDocument].mapM Trigger.run respelledSession = (.ok asked, s) ∧
      batch [] [some 0, some 1] s = (.error fault, t) ∧ t.exported = [1, 0] ∧
      Path.location? "out/E.generated.cs" = some ["out", "E.generated.cs"] ∧
      s.workspace.tree.fileAt ["out", "E.generated.cs"] = none ∧
      t.workspace.tree.fileAt ["out", "E.generated.cs"] ≠ none := by
  obtain ⟨g, s, hread, runs⟩ := exists_of_gives respelledSession_runs
  simp only [Bool.and_eq_true, beq_iff_eq] at runs
  obtain ⟨empty, runs⟩ := runs
  obtain ⟨_, v, hgenerate, runs⟩ := exists_of_gives runs
  simp only [Bool.and_eq_true, beq_iff_eq] at runs
  obtain ⟨⟨exported, -⟩, runs⟩ := runs
  obtain ⟨fault, w, hcommit, left⟩ := exists_of_faults runs
  refine ⟨_, s, _, fault, mapM_cons_of_ok (bind_of_ok hread _) rfl,
    batch_of_failed_commit hgenerate hcommit, exported, by decide +kernel, ?_,
    Option.isSome_iff_ne_none.1 left⟩
  rw [empty]
  rfl

theorem failed_batch_files_of_respelled : ∃ s t v fault moved path rest,
    batch [] [some 0, some 1] s = (.error fault, t) ∧
      generate [] [some 0, some 1] s = (.ok (), v) ∧
      moved ++ path :: rest = ["out/E.generated.cs", "./out/E.generated.cs"] ∧
      moved.forM Workspace.moveIntoPlace v.workspace = (.ok (), t.workspace) ∧
      Workspace.moveIntoPlace path t.workspace = (.error fault, t.workspace) ∧
      ∀ loc, loc ∉ Workspace.stagingPlaces → LogFile.Off s.workspace.log {loc} →
        Workspace.Clear moved loc →
        t.workspace.tree.fileAt loc = s.workspace.tree.fileAt loc := by
  obtain ⟨g, s, hread, runs⟩ := exists_of_gives respelledSession_runs
  obtain ⟨-, runs⟩ := Bool.and_eq_true_iff.1 runs
  obtain ⟨_, v, hgenerate, runs⟩ := exists_of_gives runs
  simp only [Bool.and_eq_true, beq_iff_eq] at runs
  obtain ⟨⟨-, pending⟩, runs⟩ := runs
  obtain ⟨fault, w, hcommit, -⟩ := exists_of_faults runs
  have failed := batch_of_failed_commit hgenerate hcommit
  obtain ⟨moved, path, rest, all, done, at_, -, files⟩ :=
    (failed_batch_files failed).2 v hgenerate
  exact ⟨s, _, v, fault, moved, path, rest, failed, hgenerate, all.symm.trans pending, done,
    at_, files⟩

end Session

end ScriptGlue
