import ScriptGlue.Proofs.Files.Discard
import ScriptGlue.Proofs.Session.Operations
import ScriptGlue.Proofs.Session.Reachability

/-! # What a batch leaves

Whatever its outcome, a batch leaves what its generation left, but for the files. If the generation
faulted, it leaves no other trace among the files than at places for staged texts. An operation that
makes a batch only reads types and makes records before it.
-/
namespace ScriptGlue.Session
open ScriptGlue.Action

variable {s t u : Session}

/-- The types exported and the extension methods found are at least those of the first session. -/
structure Further (s t : Session) : Prop where
  exported : s.exported <:+ t.exported
  extensions : s.extensions <+: t.extensions

theorem Further.of_same (h : Further s t) (exported : u.exported = t.exported)
    (extensions : u.extensions = t.extensions) : Further s u :=
  ⟨exported ▸ h.exported, extensions ▸ h.extensions⟩

theorem lasting_further (s : Session) : Lasting (Further s) (Further s) where
  toSteady := Inert.steady
    { faulted := fun _ h => h
      refused := fun _ _ h => h.of_same rfl rfl
      accepted := fun _ _ _ _ h => h.of_same rfl rfl
      recorded := fun _ _ h => h.of_same rfl rfl
      registered := fun _ _ _ _ _ h => h.of_same rfl rfl
      measured := fun _ _ _ h => h.of_same rfl rfl }
  marked _ id h := ⟨h.exported.trans (List.suffix_cons id _), h.extensions⟩
  passedOver _ _ h := h.of_same rfl rfl
  extended _ e h := ⟨h.exported, h.extensions.trans (List.prefix_append _ [e])⟩
  saved := keeps_saveUnit (fun _ h => h) fun _ _ h => h.of_same rfl rfl

/-- The file at a location is as it was, with the log file off it. -/
abbrev Held (loc : Location) (content : Option Content) (s : Session) : Prop :=
  s.workspace.Holds loc content

theorem lasting_held {loc : Location} (outside : loc ∉ Workspace.stagingPlaces)
    (content : Option Content) : Lasting (Held loc content) (Held loc content) where
  toSteady := Inert.steady
    { faulted := fun _ h => h
      refused := fun _ _ h => h
      accepted := fun _ _ _ _ h => h
      recorded := fun _ r h => h.alike (Workspace.alike_record h.off r)
      registered := fun _ _ _ _ _ h => h
      measured := fun _ _ _ h => h }
  marked _ _ h := h
  passedOver _ _ h := h
  extended _ _ h := h
  saved m filename text := by
    rw [saveUnit_eq]
    split
    · exact .of_outcome fun _ h => (Workspace.holds_run outside _).outcome h
    · exact .throw (fun _ h => h) _

/-- A batch that faults left its generation somewhere, discarded what that staged if it faulted, and
changed files only. -/
theorem batch_eq_error {forced types : List (Option TypeId)} {e : Fault}
    (h : batch forced types s = (.error e, t)) :
    ∃ result v w, generate forced types s = (result, v) ∧ t = { v with workspace := w } ∧
      (result.isOk ∨ w = (Workspace.discard v.workspace).2) := by
  have files {α : Type} {a : Action Workspace α} {v u : Session} {r : Except Fault α}
      (h : onWorkspace a v = (r, u)) : u = { v with workspace := (a v.workspace).2 } :=
    (congrArg Prod.snd h).symm
  obtain h | ⟨_, v, hattempt, h⟩ := bind_eq_error.1 h
  · rw [tryCatch_apply] at h
    rcases hgenerate : generate forced types s with ⟨e' | x, v⟩
    · rw [hgenerate] at h
      refine ⟨.error e', v, _, rfl, ?_, .inr rfl⟩
      obtain h | ⟨_, u, hdiscard, hthrow⟩ := bind_eq_error.1 h
      · exact files h
      · cases hthrow
        exact files hdiscard
    · rw [hgenerate] at h
      cases h
  · have hgenerate := attempt_ok hattempt
    obtain h | ⟨n, w, hcommit, h⟩ := bind_eq_error.1 h
    · exact ⟨.ok (), v, _, hgenerate, files h, .inl rfl⟩
    · obtain ⟨u, hu, -⟩ := reports_committed n w
      cases hu.symm.trans h

/-- Whatever its outcome, a batch leaves what its generation left, but for the files. -/
theorem batch_left (forced types : List (Option TypeId)) (s : Session) :
    ∃ w, (batch forced types s).2 = { (generate forced types s).2 with workspace := w } := by
  rcases run : batch forced types s with ⟨e | x, t⟩
  · obtain ⟨result, v, w, generated, rfl, -⟩ := batch_eq_error run
    exact ⟨w, by rw [generated]⟩
  · obtain ⟨v, n, w, generated, -, w', -, rfl⟩ := batch_ok run
    exact ⟨w', by rw [generated]⟩

theorem after_scan {data : Value} {g : Graph} (read : readGraph data s = (.ok g, t)) :
    ∃ w, after s [.scan data] =
      { (generate (t.roots g) (g.members.map some) (t.started g)).2 with workspace := w } := by
  show ∃ w, (scan data s).2 = _
  rw [scan, bind_of_ok read]
  exact batch_left _ _ _

theorem after_load {data : Value} {read : Graph.Extension}
    (hread : Graph.extend s.store (s.graph.getD {}) data = .ok read) :
    ∃ w, after s [.load data] =
      { (generate [] (read.added.map some) (s.loaded read)).2 with workspace := w } := by
  have loaded : moduleLoaded data s =
      (batch [] (read.added.map some) >>= fun _ => Pure.pure read.added) (s.loaded read) := by
    rw [moduleLoaded, bind_of_ok (by rw [merge_apply, hread])]
    rfl
  have left := batch_left [] (read.added.map some) (s.loaded read)
  show ∃ w, ((moduleLoaded data >>= fun _ => Pure.pure ()) s).2 = _
  rcases run : batch [] (read.added.map some) (s.loaded read) with ⟨e | x, u⟩ <;> rw [run] at left
  · rwa [bind_of_error (loaded.trans (bind_of_error run _))]
  · rwa [bind_of_ok (loaded.trans (bind_of_ok run _))]

def Operation.batches : Operation → Bool
  | .scan _ | .rescan | .load _ | .batch _ _ => true
  | _ => false

/-- An operation that makes a batch only reads types and makes records before it. -/
theorem Operation.run_batched {operation : Operation} (batches : operation.batches)
    (run : operation.run s = (.ok (), t)) :
    ∃ v forced types, v = { operation.base s with workspace := v.workspace } ∧
      s.workspace.Quiet v.workspace ∧ Session.batch forced types v = (.ok (), t) := by
  cases operation with
  | scan data =>
    have run : (readGraph data >>= fun g => start (some g)) s = (.ok (), t) := run
    rcases hread : Graph.ofDocument s.store data with e | read
    · rw [bind_of_error (by rw [readGraph_apply, hread])] at run
      cases run
    · rw [bind_of_ok (by rw [readGraph_apply, hread])] at run
      exact ⟨_, _, _, by simp only [base, hread], .record _ _, start_eq_ok run⟩
  | rescan =>
    have run : start s.graph s = (.ok (), t) := run
    cases graph : s.graph with
    | none =>
      rw [graph] at run
      cases run
    | some g =>
      rw [graph] at run
      exact ⟨_, _, _, by simp only [base, started, graph], .record _ _, start_eq_ok run⟩
  | load data =>
    obtain ⟨added, v, hload, run⟩ := bind_eq_ok.1 run
    obtain ⟨-, rfl⟩ := pure_eq_ok.1 run
    obtain ⟨read, hread, rfl, hbatch⟩ := moduleLoaded_eq_ok hload
    exact ⟨_, _, _, by simp only [base, hread], .record _ _, hbatch⟩
  | batch forced types => exact ⟨s, forced, types, rfl, .refl _, run⟩
  | _ => cases batches

/-- Any module may be registered, and nothing is supposed of the memo tables. -/
abbrev anySession : Setting := { modules := fun _ => True, exact := False }

theorem knows_anySession (s : Session) : Knows anySession s :=
  ⟨fun _ => trivial, fun _ _ _ => trivial⟩

theorem during_any (s : Session) : During anySession s s where
  rules := .refl s
  graph := rfl
  packaging := rfl
  fileExtension := rfl
  registry := False.elim
  remembers := False.elim
  consults := .refl

end ScriptGlue.Session
