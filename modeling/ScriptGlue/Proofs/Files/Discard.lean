import ScriptGlue.Proofs.Files.Commit

/-! # Discards

Until a commit, whether saves fault or not, files change at the places for staged texts only, and a
discard removes files from there only.
-/
namespace ScriptGlue
open ScriptGlue.Action

def Workspace.stagingPlaces : Set Location := {loc | ∃ path, Path.location? (stagedPath path) = some loc}

/-- The file at a location, with the log file off it. -/
structure Workspace.Holds (loc : Location) (content : Option Content) (w : Workspace) : Prop where
  file : w.tree.fileAt loc = content
  off : LogFile.Off w.log {loc}

theorem FileTree.remove_eq_ok {t u : FileTree} {path : String} (h : t.remove path = .ok u) :
    ∃ loc, t.place path = .ok (.entry loc false) ∧ t.fileAt loc ≠ none ∧ u = t.erase loc := by
  unfold remove at h
  cases placed : t.place path with
  | error fault =>
    rw [placed] at h
    cases h
  | ok place =>
    rw [placed] at h
    simp only [Bind.bind, Except.bind] at h
    cases place with
    | directory _ => cases h
    | entry loc asDirectory =>
      simp only at h
      split at h
      · cases h
      · cases h
      · next found =>
        cases asDirectory <;> cases h
        exact ⟨loc, rfl, by simp [fileAt, found], rfl⟩

namespace Workspace
variable {loc : Location} {content : Option Content}

theorem Holds.alike {w v : Workspace} (h : Holds loc content w) (alike : Alike {loc} w v) :
    Holds loc content v :=
  ⟨(alike.files loc rfl).trans h.file, alike.log ▸ h.off⟩

theorem holds_tell (level : Level) (source : Source) (text : String) :
    Keeps (Holds loc content) (Holds loc content) (tell level source text) :=
  .modify fun _ h => h.alike (alike_record h.off _)

theorem holds_onTree {operation : FileTree → Except FileFault FileTree}
    (same : ∀ t u, operation t = .ok u → u.fileAt loc = t.fileAt loc) :
    Keeps (Holds loc content) (Holds loc content) (onTree operation) := by
  refine .of_outcome fun w h => ?_
  unfold onTree
  split
  · next tree done => exact ⟨(same _ _ done).trans h.file, h.off⟩
  · exact h

theorem holds_ensureDirectory (path : String) :
    Keeps (Holds loc content) (Holds loc content) (ensureDirectory path) := by
  refine Keeps.get_bind fun w h => ?_
  have more := FileTree.moreDirectories_ensureDirectory w.tree path
  rcases made : w.tree.ensureDirectory path with ⟨result, tree⟩
  rw [made] at more
  refine (Keeps.set (h.alike (alike_tree more))).bind fun _ => ?_
  split
  · exact .pure _
  · exact .throw (fun _ h => h) _
  · exact .throw (fun _ h => h) _
  · exact (holds_tell _ _ _).bind fun _ => .pure _

section
variable (outside : loc ∉ stagingPlaces)
include outside

theorem holds_write (path : String) (written : Content) :
    Keeps (Holds loc content) (Holds loc content)
      (onTree fun t => t.write (stagedPath path) written) := by
  refine holds_onTree fun t u done => ?_
  obtain ⟨place, _, placed, -, rfl⟩ := FileTree.write_eq_ok done
  exact FileTree.fileAt_put_of_ne fun same =>
    outside ⟨path, same ▸ FileTree.location_of_place placed⟩

theorem holds_stage (path text : String) :
    Keeps (Holds loc content) (Holds loc content) (stage path text) := by
  have read : Keeps (Holds loc content) (Holds loc content) (held path) := by
    refine .of_outcome fun w h => ?_
    unfold held
    split <;> exact h
  refine read.bind fun _ => ?_
  split
  · exact (holds_write outside path _).bind fun _ => .throw (fun _ h => h) _
  · refine .ite (.pure _) ((holds_write outside path _).bind fun _ => ?_)
    exact (Keeps.modify fun w h => ⟨h.file, h.off⟩).bind fun _ =>
      (holds_tell _ _ _).bind fun _ => .pure _

theorem holds_run (x : Save) : Keeps (Holds loc content) (Holds loc content) x.run := by
  refine (holds_ensureDirectory _).bind fun _ => .ite ?_ (.pure _)
  exact (holds_stage outside _ _).bind fun _ => .ite (holds_tell _ _ _) (.pure _)

theorem holds_dropStaged (path : String) :
    Keeps (Holds loc content) (Holds loc content) (dropStaged path) := by
  have removed : Keeps (Holds loc content) (Holds loc content) (remove (stagedPath path)) := by
    refine Keeps.get.bind fun w => (holds_onTree fun t u done => ?_).bind fun _ => ?_
    · obtain ⟨place, placed, -, rfl⟩ := FileTree.remove_eq_ok done
      exact FileTree.fileAt_erase_of_ne fun same =>
        outside ⟨path, same ▸ FileTree.location_of_place placed⟩
    · split
      · refine Keeps.modify fun v h => ⟨h.file, fun file hfile at_ hat => ?_⟩
        obtain ⟨old, hold, rfl⟩ := Option.map_eq_some_iff.1 hfile
        exact h.off old hold at_ (Option.filter_eq_some_iff.1 hat).1
      · exact .pure _
  have attempted := removed.bind fun r => Keeps.pure (Except.ok r : Except Unit Unit)
  refine (attempted.tryCatch fun fault _ held => Keeps.leaves ?_ held).bind fun e => ?_
  · split
    · exact .pure _
    · exact (Keeps.throw (fun _ h => h) _).bind fun _ => .pure _
  · cases e <;> exact .pure _

theorem holds_discard : Keeps (Holds loc content) (Holds loc content) discard :=
  Keeps.get.bind fun _ => (Keeps.forM fun path _ => holds_dropStaged outside path).bind fun _ =>
    .modify fun _ h => ⟨h.file, h.off⟩

end

end Workspace

end ScriptGlue
