import ScriptGlue.CommandLine.Run
import ScriptGlue.Proofs.Session.Outputs

/-! # Triggers of a run

A trigger reads a graph file and makes a batch of its types, or faults over what it reads before any
unit is made. So between the triggers of a run nothing waits; and one that faults, but not over a
file that it writes, takes back what it staged.
-/
namespace ScriptGlue
open ScriptGlue.Action

namespace Session
variable {s t u : Session} {a : Generation Unit}

/-- From this session the action reads types and makes a batch, or faults before that. -/
def Batches (a : Generation Unit) (s : Session) : Prop :=
  ∃ b, Prepared s b ∧ b.packaging = s.packaging ∧ Linked b ∧
    ((∃ e, a s = (.error e, b)) ∨ ∃ forced types, a s = batch forced types b)

theorem batches_of_error {b : Session} {e : Fault} (prepared : Prepared s b)
    (packaging : b.packaging = s.packaging) (linked : Linked b) (run : a s = (.error e, b)) :
    Batches a s := ⟨b, prepared, packaging, linked, .inl ⟨e, run⟩⟩

theorem Prepared.trans (h : Prepared s t) (g : Prepared t u) : Prepared s u where
  grown := h.grown.grown_trans g.grown
  exported := g.exported.trans h.exported
  extensions := g.extensions.trans h.extensions
  registry := g.registry.trans h.registry
  fileExtension := g.fileExtension.trans h.fileExtension
  quiet := h.quiet.trans g.quiet

theorem prepared_refl (linked : Linked s) : Prepared s s :=
  ⟨SameRules.grown (.refl s) linked.store, rfl, rfl, rfl, rfl, .refl _⟩

theorem Batches.after (h : Batches a t) (prepared : Prepared s t)
    (packaging : t.packaging = s.packaging) {a' : Generation Unit} (run : a' s = a t) :
    Batches a' s := by
  obtain ⟨b, prepared', packaging', linked, outcome⟩ := h
  refine ⟨b, prepared.trans prepared', packaging'.trans packaging, linked, ?_⟩
  rw [run]
  exact outcome

theorem start_eq (g : Graph) (s : Session) : start (some g) s =
    batch (([interfaceClass, objectClass].filterMap (g.find? s.store)).map some)
      (g.members.map some) (s.started g) := rfl

theorem batches_scan (linked : Linked s) (data : Value) : Batches (Session.scan data) s := by
  rcases hread : Graph.ofDocument s.store data with e | read
  · exact batches_of_error (prepared_refl linked) rfl linked
      (bind_of_error (by rw [readGraph_apply, hread]) _)
  · have inside : Graph.Inside s.store {} := fun _ hid => absurd hid List.not_mem_nil
    obtain ⟨embeds, -, -⟩ := Graph.extend_grows linked.store inside hread
    obtain ⟨linked', known⟩ := linked.read inside hread
    refine ⟨Session.started { s with store := read.store } read.graph,
      ⟨⟨rfl, embeds⟩, rfl, rfl, rfl, rfl, .record _ _⟩, rfl,
      ⟨linked'.store, by simpa using known⟩,
      .inr ⟨([interfaceClass, objectClass].filterMap (read.graph.find? read.store)).map some,
        read.graph.members.map some, ?_⟩⟩
    rw [Session.scan, bind_of_ok (by rw [readGraph_apply, hread]), start_eq]

theorem batches_load (linked : Linked s) (data : Value) :
    Batches (do let _ ← moduleLoaded data) s := by
  have known : (s.graph.getD {}).Inside s.store := by
    cases graph : s.graph with
    | none => exact fun _ hid => absurd hid List.not_mem_nil
    | some g => exact linked.graph g graph
  rcases hread : Graph.extend s.store (s.graph.getD {}) data with e | read
  · refine batches_of_error (b := { s with graph := some (s.graph.getD {}) })
      ⟨⟨rfl, (prepared_refl linked).grown.embeds⟩, rfl, rfl, rfl, rfl, .refl _⟩ rfl
      ⟨linked.store, by simpa using known⟩ (e := e) (bind_of_error ?_ _)
    exact bind_of_error (by rw [merge_apply, hread]) _
  · obtain ⟨embeds, -, -⟩ := Graph.extend_grows linked.store known hread
    obtain ⟨linked', inside⟩ := linked.read known hread
    refine ⟨s.loaded read, ⟨⟨rfl, embeds⟩, rfl, rfl, rfl, rfl, .record _ _⟩, rfl,
      ⟨linked'.store, by simpa using inside⟩, .inr ⟨[], read.added.map some, ?_⟩⟩
    have loaded : moduleLoaded data s = (do
        batch [] (read.added.map some)
        return read.added : Generation (List TypeId)) (s.loaded read) := by
      rw [moduleLoaded, bind_of_ok (by rw [merge_apply, hread])]
      rfl
    rw [bind_apply, loaded, bind_apply]
    rcases batch [] (read.added.map some) (s.loaded read) with ⟨_ | _, _⟩ <;> rfl

theorem Prepared.sameOutputs (h : Prepared s t) (packaging : t.packaging = s.packaging) :
    SameOutputs s t := ⟨h.grown, packaging, h.fileExtension⟩

theorem Prepared.tracked (h : Prepared s t) (packaging : t.packaging = s.packaging)
    (linked : Linked t) (hs : Tracked s) : Tracked t where
  collected := (@gains_nothing _ _ True h.grown h.exported h.extensions).collected hs.collected linked
  equipped := ⟨rfl, rfl, by
    rw [h.registry, packaging]
    exact hs.equipped.offered⟩

theorem Prepared.frame (h : Prepared s t) (hs : AtRest s) :
    Workspace.Frame ∅ s.workspace t.workspace := h.quiet.rested.frame hs.anchored

theorem Prepared.atRest (h : Prepared s t) (packaging : t.packaging = s.packaging)
    (linked : Linked t) (hs : AtRest s) : AtRest t where
  toTracked := h.tracked packaging linked hs.toTracked
  pending := h.quiet.rested.pending.trans hs.pending
  anchored := (h.frame hs).anchored hs.anchored

theorem batch_tracked {forced types : List (Option TypeId)} (hs : Tracked s)
    {r : Except Fault Unit} (run : batch forced types s = (r, t)) : Tracked t ∧ SameOutputs s t := by
  have linked := (stepwise_linked.enduring.batch forced types).outcome hs.collected.linked
  have equipped := ((stepwise_equipped s.packaging s.fileExtension).enduring.batch forced
    types).outcome hs.equipped
  rw [run] at linked equipped
  have gains := batch_gains hs.collected.linked.store run
  refine ⟨⟨gains.collected hs.collected linked, ⟨rfl, rfl, ?_⟩⟩,
    ⟨gains.grown, equipped.packaging, equipped.fileExtension⟩⟩
  rw [equipped.packaging]
  exact equipped.offered

variable {r : Except Fault Unit}

theorem Batches.tracked (h : Batches a s) (hs : Tracked s) (run : a s = (r, t)) :
    Tracked t ∧ SameOutputs s t := by
  obtain ⟨b, prepared, packaging, linked, ⟨e, outcome⟩ | ⟨forced, types, outcome⟩⟩ := h
  · cases outcome.symm.trans run
    exact ⟨prepared.tracked packaging linked hs, prepared.sameOutputs packaging⟩
  · obtain ⟨tracked, same⟩ := batch_tracked (prepared.tracked packaging linked hs)
      (outcome.symm.trans run)
    exact ⟨tracked, (prepared.sameOutputs packaging).trans same⟩

theorem Batches.atRest (h : Batches a s) (hs : AtRest s) {x : Unit} (run : a s = (.ok x, t))
    (proper : Proper s.workspace.logPlace t) :
    AtRest t ∧ t.workspace.logPlace = s.workspace.logPlace := by
  obtain ⟨tracked, -⟩ := h.tracked hs.toTracked run
  obtain ⟨b, prepared, packaging, linked, ⟨e, outcome⟩ | ⟨forced, types, outcome⟩⟩ := h
  · cases outcome.symm.trans run
  · have rest := prepared.atRest packaging linked hs
    have batched := outcome.symm.trans run
    obtain ⟨-, same⟩ := batch_tracked rest.toTracked batched
    have place := (prepared.frame hs).logPlace
    obtain ⟨frame, pending⟩ := batch_frame rest (place ▸ proper.earlier same) batched
    exact ⟨⟨tracked, pending, frame.anchored rest.anchored⟩, frame.logPlace.trans place⟩

/-- A trigger that faults, but not over a file that it writes, takes back what it staged. -/
theorem Batches.withdrawn (h : Batches a s) (hs : AtRest s) {e : Fault} (run : a s = (.error e, t))
    (other : ∀ fault, e ≠ .file fault) (proper : Proper s.workspace.logPlace t) : Withdrawn s t := by
  obtain ⟨b, prepared, packaging, linked, ⟨e, outcome⟩ | ⟨forced, types, outcome⟩⟩ := h
  · cases outcome.symm.trans run
    exact withdrawn_of_frame (prepared.frame hs) (prepared.atRest packaging linked hs).pending
  · have rest := prepared.atRest packaging linked hs
    have batched := outcome.symm.trans run
    obtain ⟨-, same⟩ := batch_tracked rest.toTracked batched
    have frame := prepared.frame hs
    exact (batch_withdrawn rest (frame.logPlace ▸ proper.earlier same) same other
      batched).1.after frame

/-- From the first session the action is this batch of the second one, where only types joined. -/
structure MakesBatch (a : Generation Unit) (s b : Session) (forced types : List (Option TypeId)) :
    Prop where
  prepared : Prepared s b
  packaging : b.packaging = s.packaging
  linked : Linked b
  run : a s = batch forced types b

/-- Nothing remains of what the batch staged that a trigger faults in, but not over a file. -/
theorem MakesBatch.cleared {b : Session} {forced types : List (Option TypeId)}
    (h : MakesBatch a s b forced types) (hs : AtRest s) {e : Fault} (run : a s = (.error e, t))
    (other : ∀ fault, e ≠ .file fault) (proper : Proper s.workspace.logPlace t) :
    Cleared forced types b t := by
  have rest := h.prepared.atRest h.packaging h.linked hs
  have batched := h.run.symm.trans run
  obtain ⟨-, same⟩ := batch_tracked rest.toTracked batched
  have place := (h.prepared.frame hs).logPlace
  exact (batch_withdrawn rest (place ▸ proper.earlier same) same other batched).2

def IsTrigger (a : Generation Unit) : Prop := ∀ s, Linked s → Batches a s

variable {as : List (Generation Unit)}

theorem forM_tracked (triggers : ∀ a ∈ as, IsTrigger a) (hs : Tracked s)
    (run : as.forM id s = (r, t)) : Tracked t ∧ SameOutputs s t := by
  induction as generalizing s with
  | nil =>
    cases run
    exact ⟨hs, SameRules.grown (.refl _) hs.collected.linked.store, rfl, rfl⟩
  | cons a as ih =>
    rw [forM_cons] at run
    have batches := triggers a List.mem_cons_self s hs.collected.linked
    rcases first : a s with ⟨e | x, u⟩
    · cases (bind_of_error first _).symm.trans run
      exact batches.tracked hs first
    · obtain ⟨tracked, same⟩ := batches.tracked hs first
      obtain ⟨tracked', same'⟩ := ih (fun a ha => triggers a (List.mem_cons_of_mem _ ha)) tracked
        ((bind_of_ok first _).symm.trans run)
      exact ⟨tracked', same.trans same'⟩

theorem forM_atRest (triggers : ∀ a ∈ as, IsTrigger a) (hs : AtRest s) {x : Unit}
    (run : as.forM id s = (.ok x, t)) (proper : Proper s.workspace.logPlace t) :
    AtRest t ∧ t.workspace.logPlace = s.workspace.logPlace := by
  induction as generalizing s with
  | nil =>
    cases run
    exact ⟨hs, rfl⟩
  | cons a as ih =>
    rw [forM_cons] at run
    obtain ⟨_, u, first, later⟩ := bind_eq_ok.1 run
    have batches := triggers a List.mem_cons_self s hs.collected.linked
    have others := fun a ha => triggers a (List.mem_cons_of_mem _ ha)
    obtain ⟨-, same⟩ := forM_tracked others (batches.tracked hs.toTracked first).1 later
    obtain ⟨rest, place⟩ := batches.atRest hs first (proper.earlier same)
    obtain ⟨rest', place'⟩ := ih others rest later (place ▸ proper)
    exact ⟨rest', place'.trans place⟩

/-- If triggers fault in the end, but not over a file that they write, those before the last one
left nothing waiting, and the last one took back what it staged. -/
theorem forM_withdrawn (triggers : ∀ a ∈ as, IsTrigger a) (hs : AtRest s) {e : Fault}
    (run : as.forM id s = (.error e, t)) (other : ∀ fault, e ≠ .file fault)
    (proper : Proper s.workspace.logPlace t) : ∃ done a rest u, as = done ++ a :: rest ∧
      done.forM id s = (.ok (), u) ∧ a u = (.error e, t) ∧
      u.workspace.logPlace = s.workspace.logPlace ∧ Withdrawn u t ∧
      ∀ b forced types, MakesBatch a u b forced types → Cleared forced types b t := by
  obtain ⟨done, a, rest, u, rfl, ok, failed⟩ := forM_eq_error run
  have before := fun a ha => triggers a (List.mem_append_left _ ha)
  obtain ⟨tracked, -⟩ := forM_tracked before hs.toTracked ok
  have batches := triggers a (List.mem_append_right _ List.mem_cons_self) u tracked.collected.linked
  obtain ⟨-, same⟩ := batches.tracked tracked failed
  obtain ⟨rest, place⟩ := forM_atRest before hs ok (proper.earlier same)
  exact ⟨done, a, _, u, rfl, ok, failed, place,
    batches.withdrawn rest failed other (place ▸ proper),
    fun _ _ _ makes => makes.cleared rest failed other (place ▸ proper)⟩

end Session

namespace CommandLine
open Session
variable {s : Session}

theorem graphDocument_apply (path : Value) (s : Session) :
    graphDocument path s = (readNamedFile s.workspace.tree .graph path, s) := rfl

theorem isTrigger_scan (path : Value) : IsTrigger (scan path) := by
  intro s linked
  rcases hread : readNamedFile s.workspace.tree .graph path with e | data
  · exact batches_of_error (prepared_refl linked) rfl linked
      (bind_of_error (by rw [graphDocument_apply, hread]) _)
  · refine (batches_scan linked data).after (prepared_refl linked) rfl ?_
    exact bind_of_ok (by rw [graphDocument_apply, hread]) _

theorem isTrigger_loadModule (path : Value) : IsTrigger (loadModule path) := by
  intro s linked
  let told : Session := { s with
    workspace := s.workspace.record ⟨.info, .commandLine, "  " ++ path.plain⟩ }
  have linked' : Linked told := linked.of_same rfl rfl
  have prepared : Prepared s told :=
    ⟨⟨rfl, (prepared_refl linked).grown.embeds⟩, rfl, rfl, rfl, rfl, .record _ _⟩
  have run : loadModule path s = (do
      let _ ← moduleLoaded (← graphDocument path) : Generation Unit) told := rfl
  rcases hread : readNamedFile told.workspace.tree .graph path with e | data
  · refine batches_of_error (e := e) prepared rfl linked' (run.trans ?_)
    exact bind_of_error (by rw [graphDocument_apply, hread]) _
  · refine (batches_load linked' data).after prepared rfl (run.trans ?_)
    exact bind_of_ok (by rw [graphDocument_apply, hread]) _

end CommandLine

end ScriptGlue
