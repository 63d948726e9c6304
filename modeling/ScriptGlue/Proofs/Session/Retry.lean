import ScriptGlue.Proofs.Session.Aftermath
import ScriptGlue.Proofs.Session.RetriedUnits
import ScriptGlue.Proofs.Session.Stagers

/-! # Failed batches and retries

A batch that faults keeps the types it marked. If its generation faulted, it leaves no other trace
among the files than at places for staged texts. A retry exports only types that were not marked, and
writes the units of these and the extension units; a type that the failed batch marked gets none.
-/
namespace ScriptGlue.Session
open ScriptGlue.Action

variable {s t u : Session}

/-- After a failed batch, whatever is done to the files, a retry of it that gives a result finishes
types that were not marked, and writes their units and the extension units only. If operations led to
the session before the failure, one batch from there exports these types too and writes the same units
of them. -/
theorem retry_wrote {forced types : List (Option TypeId)} {e : Fault} {x : Unit} {w : Workspace}
    (failed : batch forced types s = (.error e, t))
    (retried : batch forced types { t with workspace := w } = (.ok x, u)) :
    (s.exported ⊆ t.exported ∧ s.extensions <+: t.extensions) ∧
      ((generate forced types s).1.isOk = false → ∀ loc, loc ∉ Workspace.stagingPlaces →
        LogFile.Off s.workspace.log {loc} →
        t.workspace.tree.fileAt loc = s.workspace.tree.fileAt loc) ∧
      ∃ finished, finished.Nodup ∧ (∀ id ∈ finished, id ∉ t.exported) ∧
        (∀ id, id ∈ u.exported ↔ id ∈ t.exported ∨ id ∈ finished) ∧
        u.extensions = t.extensions ++ finished.flatMap t.methodsOf ∧
        (Clear { t with workspace := w } finished u →
          Wrote anySession { t with workspace := w } finished w u) ∧
        ∀ b operations w' y single, Reached b operations s →
          batch forced types { s with workspace := w' } = (.ok y, single) →
          ∃ done, Subsumed (heldModules b operations) { t with workspace := w } u
            { s with workspace := w' } single finished done := by
  obtain ⟨result, v, w', hgenerate, ht, discarded⟩ := batch_eq_error failed
  have further : Further s v := by
    have := ((lasting_further s).generate forced types).outcome
      ⟨List.suffix_refl _, List.prefix_rfl⟩
    rwa [hgenerate] at this
  obtain ⟨finished, batched⟩ := batch_batched (knows_anySession _)
    (during_any { t with workspace := w }) (fun _ _ => .inr trivial) retried
  refine ⟨?_, ?_, finished, batched.nodup, batched.fresh, batched.marked, batched.extensions,
    batched.wrote_of_clear, fun b operations w'' y single reached once => ?_⟩
  · rw [ht]
    exact ⟨further.exported.subset, further.extensions⟩
  · intro faulted loc outside off
    have held : Held loc (s.workspace.tree.fileAt loc) v := by
      have := ((lasting_held outside (s.workspace.tree.fileAt loc)).generate forced types).outcome
        ⟨rfl, off⟩
      rwa [hgenerate] at this
    rw [hgenerate] at faulted
    rw [ht, discarded.resolve_left (by simp [faulted])]
    exact ((Workspace.holds_discard outside).outcome held).file
  · subst ht
    obtain ⟨ids, done, again, subsumed⟩ :=
      reached.subsumed hgenerate further.exported.subset retried once
    refine ⟨done, subsumed.perm ((List.perm_ext_iff_of_nodup again.nodup batched.nodup).2 fun id => ?_)⟩
    have new := again.fresh id
    have new' := batched.fresh id
    have marked := (again.marked id).symm.trans (batched.marked id)
    tauto

def enumDocument : Value :=
  .object [("types", .list [
    .object [("kind", .text "enum"), ("name", .text "E"), ("module", .text "M")],
    .object [("kind", .text "enum"), ("name", .text "F"), ("module", .text "M")]])]

/-- What lies where the unit of the first enum goes is no text. -/
def enumSession : Session :=
  fresh {} { scriptsDir := .text "out" } (.text ".cs")
    { tree := { entries :=
        [(["out"], .directory), (["out", "E.generated.cs"], .file (.binary [255]))] } }

def cleared (w : Workspace) : Workspace :=
  { w with tree := w.tree.erase ["out", "E.generated.cs"] }

abbrev firstUnit : Location := ["out", "E.generated.cs"]

theorem enumSession_loses : (readGraph enumDocument).gives enumSession fun _ s =>
    s.exported == [] && (batch [some 0] []).faults s fun _ t => t.exported == [0] &&
      (cleared t.workspace).tree.lookup ["out"] == some .directory &&
      ((batch [some 0] []).gives { t with workspace := cleared t.workspace } fun _ u =>
        u.workspace.tree.fileAt firstUnit == none) &&
      (batch [some 0] []).gives { s with workspace := cleared s.workspace } fun _ single =>
        (single.workspace.tree.fileAt firstUnit).isSome := by
  rw [batch_eq_direct]
  decide +kernel

/-- A failed batch may lose a unit: the retry leaves it out although its directory is there, and one
batch after the obstacle is removed writes it. -/
theorem retry_loses_unit : ∃ asked s t u single fault,
    [Trigger.read enumDocument].mapM Trigger.run enumSession = (.ok asked, s) ∧
      batch [some 0] [] s = (.error fault, t) ∧
      batch [some 0] [] { t with workspace := cleared t.workspace } = (.ok (), u) ∧
      batch [some 0] [] { s with workspace := cleared s.workspace } = (.ok (), single) ∧
      s.exported = [] ∧ t.exported = [0] ∧
      (cleared t.workspace).tree.lookup ["out"] = some .directory ∧
      u.workspace.tree.fileAt firstUnit = none ∧ single.workspace.tree.fileAt firstUnit ≠ none := by
  obtain ⟨g, s, hread, runs⟩ := exists_of_gives enumSession_loses
  simp only [Bool.and_eq_true, beq_iff_eq] at runs
  obtain ⟨exported, runs⟩ := runs
  obtain ⟨fault, t, failed, runs⟩ := exists_of_faults runs
  simp only [Bool.and_eq_true, beq_iff_eq] at runs
  obtain ⟨⟨⟨marked, directory⟩, again⟩, once⟩ := runs
  obtain ⟨_, u, retried, lost⟩ := exists_of_gives again
  obtain ⟨_, single, alone, kept⟩ := exists_of_gives once
  exact ⟨_, s, t, u, single, fault, mapM_cons_of_ok (bind_of_ok hread _) rfl, failed, retried, alone,
    exported, marked, directory, beq_iff_eq.1 lost, Option.isSome_iff_ne_none.1 kept⟩

abbrev secondUnit : Target := { directory := "out", filename := "F.generated.cs" }

abbrev enums : List (Option TypeId) := [some 0, some 1]

theorem enumSession_retries : (Operation.adopt enumDocument).run.gives enumSession fun _ s =>
    decide (Keyed s.store) && decide (∀ id < s.store.size, (s.store.type id).home.name.isText) &&
      s.registry == [] && decide (∀ entry ∈ (s.graph.getD {}).modules, entry.2.name.isText) &&
      (batch enums []).faults s fun _ t => t.exported == [0] && (cleared t.workspace).pending == [] &&
        (cleared t.workspace).log.isNone &&
        ((batch enums []).gives { t with workspace := cleared t.workspace } fun _ u =>
          u.exported == [1, 0] && t.targets u.registry [1] u.extendedModules == [secondUnit]) &&
        (batch enums []).gives { s with workspace := cleared s.workspace } fun _ single =>
          single.exported == [1, 0] := by
  rw [batch_eq_direct]
  decide +kernel

theorem secondUnit_located :
    Path.location? secondUnit.path = some ["out", "F.generated.cs"] ∧
      Path.location? secondUnit.staged = some ["out", "F.generated.cs.tmp"] ∧
      Path.way secondUnit.directory = [["out"]] := by decide +kernel

theorem secondUnit_apart : Target.Apart [secondUnit] where
  own x hx loc located := by
    obtain rfl := List.mem_singleton.1 hx
    rw [secondUnit_located.1] at located
    cases located
    rw [secondUnit_located.2.1]
    decide
  others := List.pairwise_singleton ..
  ways x hx y hy loc hloc := by
    obtain rfl := List.mem_singleton.1 hx
    obtain rfl := List.mem_singleton.1 hy
    rw [secondUnit_located.2.2] at hloc
    obtain rfl := List.mem_singleton.1 hloc
    rintro (located | located)
    · rw [secondUnit_located.1] at located
      cases located
    · rw [secondUnit_located.2.1] at located
      cases located

/-- The graph holds the modules of one document only, so they differ by their names. -/
theorem knownByName_of_adopted (ran : (Operation.adopt enumDocument).run enumSession = (.ok (), s))
    (homes : ∀ id < s.store.size, (s.store.type id).home.name.isText) (empty : s.registry = [])
    (declared : ∀ entry ∈ (s.graph.getD {}).modules, entry.2.name.isText) :
    KnownByName enumSession [.adopt enumDocument] := by
  have left : after enumSession [.adopt enumDocument] = s := congrArg Prod.snd ran
  have held {m : NativeModule} (h : HeldByGraph enumSession [.adopt enumDocument] m) :
      s.findModule? m.name = some m := by
    obtain ⟨before, begun, found⟩ := h
    obtain rfl | ⟨rest, rfl, nothing⟩ := List.prefix_cons_iff.1 begun
    · cases found
    · rwa [List.prefix_nil.1 nothing, left] at found
  refine ⟨left ▸ homes, fun name m found => ?_, fun m hm => ?_, fun m m' hm hm' same => ?_⟩
  · rw [left] at found
    obtain ⟨g, hg, found⟩ := Option.bind_eq_some_iff.1 found
    obtain ⟨entry, hentry, rfl⟩ := Option.map_eq_some_iff.1 found
    rw [hg] at declared
    exact declared entry (List.mem_of_find?_eq_some hentry)
  · rw [left, empty] at hm
    cases hm
  · exact Option.some_inj.1 ((held hm).symm.trans (same ▸ held hm'))

theorem retry_wrote_of_enums : ∃ s t u single fault,
    batch enums [] s = (.error fault, t) ∧
      batch enums [] { t with workspace := cleared t.workspace } = (.ok (), u) ∧
      batch enums [] { s with workspace := cleared s.workspace } = (.ok (), single) ∧
      Reached enumSession [.adopt enumDocument] s ∧ t.exported = [0] ∧ single.exported = [1, 0] ∧
      Clear { t with workspace := cleared t.workspace } [1] u ∧
      Wrote anySession { t with workspace := cleared t.workspace } [1] (cleared t.workspace) u ∧
      ∃ done, Subsumed (heldModules enumSession [.adopt enumDocument])
        { t with workspace := cleared t.workspace } u { s with workspace := cleared s.workspace }
        single [1] done := by
  obtain ⟨⟨⟩, s, ran, runs⟩ := exists_of_gives enumSession_retries
  simp only [Bool.and_eq_true, decide_eq_true_eq, beq_iff_eq] at runs
  obtain ⟨⟨⟨⟨keyed, homes⟩, empty⟩, declared⟩, runs⟩ := runs
  obtain ⟨fault, t, failed, runs⟩ := exists_of_faults runs
  simp only [Bool.and_eq_true, beq_iff_eq, Option.isNone_iff_eq_none] at runs
  obtain ⟨⟨⟨⟨exported, pending⟩, log⟩, again⟩, once⟩ := runs
  obtain ⟨_, u, retried, runs⟩ := exists_of_gives again
  simp only [Bool.and_eq_true, beq_iff_eq] at runs
  obtain ⟨marked, targets⟩ := runs
  obtain ⟨_, single, alone, both⟩ := exists_of_gives once
  obtain ⟨-, -, finished, nodup, fresh, after, -, wrote, subsumed⟩ := retry_wrote failed retried
  have only : finished = [1] := by
    refine List.perm_singleton.1 ((List.perm_ext_iff_of_nodup nodup (by simp)).2 fun id => ?_)
    have known := after id
    have new := fresh id
    simp only [marked, exported, List.mem_cons, List.not_mem_nil, or_false] at known new ⊢
    constructor
    · intro hid
      exact (known.2 (.inr hid)).resolve_right (new hid)
    · rintro rfl
      exact (known.1 (.inl rfl)).resolve_left (by decide)
  subst only
  have placed : Session.targets { t with workspace := cleared t.workspace } u.registry [1]
      u.extendedModules = [secondUnit] := targets
  have clear : Clear { t with workspace := cleared t.workspace } [1] u := by
    refine ⟨pending, ?_, fun file hfile => ?_⟩
    · rw [placed]
      exact secondUnit_apart
    · cases log.symm.trans hfile
  have reached : Reached enumSession [.adopt enumDocument] s :=
    ⟨⟨_, _, _, _, rfl⟩, (congrArg Prod.snd ran).symm, keyed,
      knownByName_of_adopted ran homes empty declared⟩
  exact ⟨s, t, u, single, fault, failed, retried, alone, reached, exported, beq_iff_eq.1 both, clear,
    wrote clear, subsumed _ _ _ _ _ reached alone⟩

end ScriptGlue.Session
