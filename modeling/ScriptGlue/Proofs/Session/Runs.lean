import ScriptGlue.Proofs.Session.Operations
import ScriptGlue.Proofs.Session.Rescan

/-! # Runs

What the triggers of a session add up to. From one to the next, types are read, exported, and
registered modules and extension methods are added, and nothing of that is taken back.
-/
namespace ScriptGlue.Session
open ScriptGlue.Action

variable {s t u v : Session} {id : TypeId} {x : Target}

/-- What a trigger does before its batch: types are read and records made. -/
structure Prepared (s t : Session) : Prop where
  grown : Grown s t
  exported : t.exported = s.exported
  extensions : t.extensions = s.extensions
  registry : t.registry = s.registry
  fileExtension : t.fileExtension = s.fileExtension
  quiet : s.workspace.Quiet t.workspace

/-- A trigger prepares a batch and makes it; only to read types takes no batch. -/
theorem Trigger.run_prepared {trigger : Trigger} {asked : Asked} (hs : Sound s)
    (h : trigger.run s = (.ok asked, t)) : ∃ v, Prepared s v ∧
      (t = v ∧ v.workspace = s.workspace ∨
        ∃ requests finished, Batched anyModule v requests finished v t) := by
  have refl : Grown s s := SameRules.grown (.refl s) hs.linked
  cases trigger with
  | read data =>
    obtain ⟨-, grown, -, -⟩ := run_read hs h
    obtain ⟨g, _, hread, h⟩ := bind_eq_ok.1 h
    obtain ⟨-, rfl⟩ := pure_eq_ok.1 h
    obtain ⟨store, rfl⟩ := readGraph_ok hread
    exact ⟨_, ⟨grown, rfl, rfl, rfl, rfl, .refl _⟩, .inl ⟨rfl, rfl⟩⟩
  | start g =>
    obtain ⟨_, v, hstart, h⟩ := bind_eq_ok.1 h
    obtain ⟨_, _, hget, h⟩ := bind_eq_ok.1 h
    obtain ⟨rfl, rfl⟩ := get_eq_ok.1 hget
    obtain ⟨-, rfl⟩ := pure_eq_ok.1 h
    cases g with
    | none => cases hstart
    | some g =>
      obtain ⟨requests, finished, batched⟩ := start_batched hs hstart
      exact ⟨s.started g, ⟨⟨rfl, refl.embeds⟩, rfl, rfl, rfl, rfl, .record _ _⟩,
        .inr ⟨requests, finished, batched⟩⟩
  | load data =>
    obtain ⟨added, v, hload, h⟩ := bind_eq_ok.1 h
    obtain ⟨-, rfl⟩ := pure_eq_ok.1 h
    obtain ⟨read, hextend, rfl, hbatch⟩ := moduleLoaded_eq_ok hload
    obtain ⟨sound, grown, -⟩ := hs.read hs.graph_inside hextend
    have during := sound.during (t := s.loaded read) ⟨rfl, rfl⟩ rfl rfl rfl rfl
    obtain ⟨finished, batched⟩ :=
      batch_batched (knows_any (s.loaded read)) during (fun _ _ => .inr trivial) hbatch
    exact ⟨s.loaded read, ⟨⟨rfl, grown.embeds⟩, rfl, rfl, rfl, rfl, .record _ _⟩,
      .inr ⟨_, finished, batched⟩⟩
  | types forced gated =>
    obtain ⟨_, v, hbatch, h⟩ := bind_eq_ok.1 h
    obtain ⟨-, rfl⟩ := pure_eq_ok.1 h
    obtain ⟨finished, batched⟩ := batch_batched (knows_any s)
      (hs.during (.refl s) rfl rfl rfl rfl) (fun _ _ => .inr trivial) hbatch
    exact ⟨s, ⟨refl, rfl, rfl, rfl, rfl, .refl _⟩, .inr ⟨_, finished, batched⟩⟩

structure Ahead (s t : Session) : Prop where
  grown : Grown s t
  exported : s.exported ⊆ t.exported
  extensions : s.extensions <+: t.extensions
  registry : s.registry <+: t.registry
  fileExtension : t.fileExtension = s.fileExtension

theorem Ahead.trans (h : Ahead s t) (g : Ahead t u) : Ahead s u where
  grown := h.grown.grown_trans g.grown
  exported := List.Subset.trans h.exported g.exported
  extensions := h.extensions.trans g.extensions
  registry := h.registry.trans g.registry
  fileExtension := g.fileExtension.trans h.fileExtension

theorem Prepared.ahead (h : Prepared s t) : Ahead s t where
  grown := h.grown
  exported := h.exported ▸ List.Subset.refl _
  extensions := h.extensions ▸ List.prefix_rfl
  registry := h.registry ▸ List.prefix_rfl
  fileExtension := h.fileExtension

theorem Batched.ahead {requests : List Request} {finished : List TypeId}
    (h : Batched anyModule s requests finished s t) (linked : s.store.Linked) : Ahead s t where
  grown := h.during.rules.grown linked
  exported id hid := (h.marked id).2 (.inl hid)
  extensions := h.extensions ▸ List.prefix_append _ _
  registry := h.registry
  fileExtension := h.during.fileExtension

/-- What a run keeps between its triggers: nothing waits, and extension methods come from exported
types. -/
structure Rooted (s : Session) : Prop where
  sound : Sound s
  libraries : ∀ e ∈ s.extensions, e.library ∈ s.exported
  pending : s.workspace.pending = []

theorem Batched.rooted {requests : List Request} {finished : List TypeId}
    (h : Batched anyModule s requests finished s t) (sound : Sound t)
    (libraries : ∀ e ∈ s.extensions, e.library ∈ s.exported) : Rooted t where
  sound := sound
  libraries e he := by
    rw [h.extensions] at he
    obtain he | he := List.mem_append.1 he
    · exact (h.marked _).2 (.inl (libraries e he))
    · obtain ⟨id, hid, he⟩ := List.mem_flatMap.1 he
      rw [library_of_mem_methodsOf he]
      exact (h.marked _).2 (.inr hid)
  pending := by
    obtain ⟨-, -, v, n, w, -, -, -, commit, quiet⟩ := h.output
    obtain ⟨m, -, rfl⟩ := Workspace.commit_ok commit
    exact quiet.rested.pending

theorem Trigger.run_ahead {trigger : Trigger} {asked : Asked} (hs : Rooted s)
    (h : trigger.run s = (.ok asked, t)) : Ahead s t ∧ Rooted t := by
  obtain ⟨sound, -⟩ := Trigger.run_walks hs.sound h
  obtain ⟨v, prepared, ⟨rfl, same⟩ | ⟨requests, finished, batched⟩⟩ := Trigger.run_prepared hs.sound h
  · refine ⟨prepared.ahead, sound, ?_, prepared.quiet.rested.pending.trans hs.pending⟩
    rw [prepared.extensions, prepared.exported]
    exact hs.libraries
  · have linked : v.store.Linked := batched.during.rules.2 ▸ sound.linked
    refine ⟨prepared.ahead.trans (batched.ahead linked), batched.rooted sound ?_⟩
    rw [prepared.extensions, prepared.exported]
    exact hs.libraries

theorem Trigger.mapM_ahead {triggers : List Trigger} {asked : List Asked} (hs : Rooted s)
    (h : triggers.mapM Trigger.run s = (.ok asked, t)) : Ahead s t ∧ Rooted t := by
  induction triggers generalizing s asked with
  | nil =>
    obtain ⟨-, rfl⟩ := pure_eq_ok.1 h
    exact ⟨⟨SameRules.grown (.refl s) hs.sound.linked, List.Subset.refl _, List.prefix_rfl,
      List.prefix_rfl, rfl⟩, hs⟩
  | cons trigger triggers ih =>
    rw [List.mapM_cons] at h
    obtain ⟨first, v, hfirst, h⟩ := bind_eq_ok.1 h
    obtain ⟨rest, w, hrest, h⟩ := bind_eq_ok.1 h
    obtain ⟨-, rfl⟩ := pure_eq_ok.1 h
    obtain ⟨ahead, rooted⟩ := Trigger.run_ahead hs hfirst
    obtain ⟨ahead', rooted'⟩ := ih rooted hrest
    exact ⟨ahead.trans ahead', rooted'⟩

theorem rooted_fresh (policy : Policy) (packaging : Packaging) (fileExtension : Value)
    {workspace : Workspace} (pending : workspace.pending = []) :
    Rooted (fresh policy packaging fileExtension workspace) :=
  ⟨sound_fresh _ _ _ _, fun _ he => absurd he List.not_mem_nil, pending⟩

theorem Ahead.typeTarget? (h : Ahead s t) (hid : id < s.store.size)
    (placed : s.typeTarget? s.registry id = some x) : t.typeTarget? t.registry id = some x := by
  obtain ⟨m, found, placed⟩ := Option.bind_eq_some_iff.1 placed
  unfold Session.typeTarget? unitFile
  rw [h.grown.type_eq hid, find?_grows h.registry found, h.fileExtension]
  exact placed

theorem Ahead.moduleTarget? (h : Ahead s t) {name : Name}
    (placed : s.moduleTarget? s.registry name = some x) :
    t.moduleTarget? t.registry name = some x := by
  obtain ⟨m, found, placed⟩ := Option.bind_eq_some_iff.1 placed
  unfold Session.moduleTarget?
  rw [find?_grows h.registry found, h.fileExtension]
  exact placed

theorem Ahead.extendedModules (h : Ahead s t) (hs : Rooted s) (orderly : t.Orderly) :
    s.extendedModules ⊆ t.extendedModules := by
  intro name hname
  obtain ⟨e, he, rfl⟩ := List.mem_map.1 (Value.mem_of_mem_distinct hname)
  have he' := h.extensions.subset he
  obtain ⟨word, -, named⟩ := Value.eq_text_of_worded (orderly.modules e he')
  have same := h.grown.type_eq (hs.sound.exported _ (hs.libraries e he))
  rw [same] at named
  rw [named]
  refine Value.text_mem_distinct (List.mem_map.2 ⟨e, he', ?_⟩)
  rw [same, named]

end ScriptGlue.Session
