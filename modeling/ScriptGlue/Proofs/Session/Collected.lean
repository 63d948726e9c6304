import ScriptGlue.Proofs.Session.Collection
import ScriptGlue.Proofs.Session.Once
import ScriptGlue.Proofs.Session.Runs

/-! # Extension methods over a session

What a session collects is decided once for each type, by the operation that exports it first: all
its extension methods if that operation gave a result, the first of them if it faulted. Nothing is
collected again and nothing is dropped, whatever the later operations do.
-/
namespace ScriptGlue
open ScriptGlue.Action

theorem ExtensionMethod.relocate_id (e : ExtensionMethod) : e.relocate id = e := by
  rw [ExtensionMethod.relocate, Function.relocate_id]
  rfl

namespace Session

variable {s t u v : Session} {id : TypeId} {whole : Prop}

/-- From one session to the other types were exported first, and their extension methods joined: of
each the first of its methods, or all of them. -/
structure Gains (whole : Prop) (s t : Session) : Prop where
  grown : Grown s t
  marked : s.exported ⊆ t.exported
  inside : ∀ id ∈ t.exported, id ∈ s.exported ∨ id < t.store.size
  joined : ∃ new, t.extensions = s.extensions ++ new ∧
    (∀ e ∈ new, e.library ∈ t.exported ∧ e.library ∉ s.exported) ∧
    (∀ id, methodsFrom id new <+: t.methodsOf id) ∧
    (whole → ∀ id ∈ t.exported, id ∉ s.exported → methodsFrom id new = t.methodsOf id)

theorem gains_nothing (grown : Grown s t) (exported : t.exported = s.exported)
    (extensions : t.extensions = s.extensions) : Gains whole s t where
  grown := grown
  marked := exported ▸ List.Subset.refl _
  inside id hid := .inl (exported ▸ hid)
  joined := ⟨[], by rw [extensions, List.append_nil], by simp, fun _ => List.nil_prefix,
    fun _ id hid fresh => absurd (exported ▸ hid) fresh⟩

theorem Gains.files (h : Gains whole s t) (w : Workspace) :
    Gains whole s { t with workspace := w } :=
  ⟨⟨h.grown.policy, h.grown.embeds⟩, h.marked, h.inside, h.joined⟩

theorem Gains.after (h : Gains whole s t) (grown : Grown u s) (exported : s.exported = u.exported)
    (extensions : s.extensions = u.extensions) : Gains whole u t where
  grown := grown.grown_trans h.grown
  marked := exported ▸ h.marked
  inside := exported ▸ h.inside
  joined := exported ▸ extensions ▸ h.joined

theorem SameRules.methodsOf (h : SameRules s t) (id : TypeId) :
    t.methodsOf id = s.methodsOf id := by
  unfold Session.methodsOf
  rw [h.2, h.passedFunctions]

theorem Mirrors.methodsOf_eq (h : Grown s t) (hid : id < s.store.size) :
    t.methodsOf id = s.methodsOf id :=
  (h.methodsOf hid).trans (List.map_id'' ExtensionMethod.relocate_id _)

theorem Extends.gains {new : List ExtensionMethod} (h : Extends s new t) (linked : s.store.Linked)
    (part : ∀ id, methodsFrom id new <+: s.methodsOf id)
    (all : whole → ∀ id ∈ t.exported, id ∉ s.exported → methodsFrom id new = s.methodsOf id) :
    Gains whole s t where
  grown := h.rules.grown linked
  marked := h.marked
  inside id hid := by
    rw [h.rules.2]
    exact h.inside id hid
  joined := ⟨new, h.extensions, h.libraries, fun id => h.rules.methodsOf id ▸ part id,
    fun holds id hid fresh => h.rules.methodsOf id ▸ all holds id hid fresh⟩

theorem Collects.gains (h : Collects s [] t) (linked : s.store.Linked) : Gains whole s t := by
  have some := h.some
  obtain ⟨-, new, joined, collected⟩ := h
  obtain ⟨new', joined', part⟩ := some
  obtain rfl : new' = new :=
    List.append_cancel_left (joined'.extensions.symm.trans joined.extensions)
  exact joined.gains linked part fun _ id hid fresh => by simpa using collected id hid fresh

theorem CollectsSome.gains (h : CollectsSome s t) (linked : s.store.Linked) (part : ¬whole) :
    Gains whole s t := by
  obtain ⟨new, joined, some⟩ := h
  exact joined.gains linked some fun holds => absurd holds part

theorem collects_refl (s : Session) : Collects s [] s :=
  ⟨⟨.nil, by simp⟩, [], {
    rules := .refl s
    marked := List.Subset.refl _
    inside := fun _ hid => .inl hid
    extensions := (List.append_nil _).symm
    libraries := by simp }, fun _ hid fresh => absurd hid fresh⟩

theorem gains_of_noted {α : Type} {n : Noted α} {a : Generation α} (linked : s.store.Linked)
    (follows : Noted.Follows False n a)
    (meets : Meets (fun x => Collects s [] x.1) (fun _ x => CollectsSome s x.1) n fun _ => True)
    {r : Except Fault α} (run : a s = (r, t)) : Gains (r.isOk = true) s t := by
  have meets := follows.meets (I := Collects s []) (J := fun _ => CollectsSome s) meets
  cases r with
  | ok x => exact (meets.result (collects_refl s) run).2.gains linked
  | error e => exact (meets.fault (collects_refl s) run).gains linked fun ok => by cases ok

theorem generate_gains (linked : s.store.Linked) {forced types : List (Option TypeId)}
    {r : Except Fault Unit} (run : generate forced types s = (r, t)) : Gains (r.isOk = true) s t :=
  gains_of_noted linked (Noted.follows_generate forced types)
    ((nesting_collects s).generate forced types) run

theorem visit_gains (linked : s.store.Linked) {force : Bool} {r : Except Fault Unit}
    (run : visit force id s = (r, t)) : Gains (r.isOk = true) s t :=
  gains_of_noted linked (Noted.follows_visit force id) ((nesting_collects s).visit force id) run

theorem batch_gains (linked : s.store.Linked) {forced types : List (Option TypeId)}
    {r : Except Fault Unit} (run : batch forced types s = (r, t)) : Gains (r.isOk = true) s t := by
  cases r with
  | ok x =>
    obtain ⟨v, n, w, hgenerate, -, w', -, rfl⟩ := batch_ok run
    exact (generate_gains linked hgenerate).files w'
  | error e =>
    obtain ⟨result, v, w, hgenerate, rfl, -⟩ := batch_eq_error run
    obtain ⟨grown, marked, inside, new, joined, libraries, part, -⟩ :=
      (generate_gains linked hgenerate).files w
    exact ⟨grown, marked, inside, new, joined, libraries, part, fun h => by cases h⟩

theorem start_gains (linked : s.store.Linked) {g : Option Graph} {r : Except Fault Unit}
    (run : start g s = (r, t)) : Gains (r.isOk = true) s t := by
  have refl : Grown s s := SameRules.grown (.refl s) linked
  cases g with
  | none =>
    cases run
    exact gains_nothing ⟨rfl, refl.embeds⟩ rfl rfl
  | some g =>
    have batched : batch (([interfaceClass, objectClass].filterMap (g.find? s.store)).map some)
        (g.members.map some) (s.started g) = (r, t) := run
    exact (batch_gains (s := s.started g) linked batched).after ⟨rfl, refl.embeds⟩ rfl rfl

theorem gains_of_map {α β : Type} {a : Generation α} {f : α → β} {r : Except Fault β}
    (h : ∀ r t, a s = (r, t) → Gains (r.isOk = true) s t)
    (run : (a >>= fun x => Pure.pure (f x)) s = (r, t)) : Gains (r.isOk = true) s t := by
  rcases made : a s with ⟨e | x, u⟩
  · rw [bind_of_error made] at run
    cases run
    exact h _ _ made
  · rw [bind_of_ok made] at run
    cases run
    exact h _ _ made

theorem moduleLoaded_gains (linked : Linked s) {data : Value} {r : Except Fault (List TypeId)}
    (run : moduleLoaded data s = (r, t)) : Gains (r.isOk = true) s t := by
  have known : (s.graph.getD {}).Inside s.store := by
    cases graph : s.graph with
    | none => exact fun _ hid => absurd hid List.not_mem_nil
    | some g => exact linked.graph g graph
  rcases hread : Graph.extend s.store (s.graph.getD {}) data with e | read
  · rw [moduleLoaded, bind_of_error (by rw [merge_apply, hread])] at run
    cases run
    exact gains_nothing ⟨rfl, (SameRules.grown (.refl s) linked.store).embeds⟩ rfl rfl
  · rw [moduleLoaded, bind_of_ok (by rw [merge_apply, hread])] at run
    obtain ⟨embeds, inside, -⟩ := Graph.extend_grows linked.store known hread
    have batched : (batch [] (read.added.map some) >>= fun _ => Pure.pure read.added)
        (s.loaded read) = (r, t) := run
    exact (gains_of_map (fun _ _ run => batch_gains inside run) batched).after ⟨rfl, embeds⟩ rfl rfl

/-- A graph that is read from a document is of types that join the store. -/
theorem readGraph_gains (linked : Linked s) {data : Value} {f : Graph → Generation Unit}
    {r : Except Fault Unit} (run : (readGraph data >>= f) s = (r, t))
    (h : ∀ v g, v.store.Linked → f g v = (r, t) → Gains (r.isOk = true) v t) :
    Gains (r.isOk = true) s t := by
  rcases hread : Graph.ofDocument s.store data with e | read
  · rw [bind_of_error (by rw [readGraph_apply, hread])] at run
    cases run
    exact gains_nothing (SameRules.grown (.refl s) linked.store) rfl rfl
  · rw [bind_of_ok (by rw [readGraph_apply, hread])] at run
    have inside : Graph.Inside s.store {} := fun _ hid => absurd hid List.not_mem_nil
    obtain ⟨embeds, inside, -⟩ := Graph.extend_grows linked.store inside hread
    exact (h { s with store := read.store } read.graph inside run).after ⟨rfl, embeds⟩ rfl rfl

/-- What leaves the marks and the extension methods alone collects nothing. -/
theorem gains_of_keeps (linked : s.store.Linked) {α : Type} {a : Generation α}
    (keeps : Keeps (Gathers s []) (Gathers s []) a) : Gains whole s (a s).2 :=
  have kept := keeps.outcome (.refl s)
  gains_nothing (kept.rules.grown linked) kept.exported (kept.extensions.trans (List.append_nil _))

theorem saving_gathers (s : Session) : Saving (Gathers s []) (Gathers s []) where
  toSteady := (inert_gathers s []).steady
  saved := keeps_saveUnit (fun _ h => h) fun _ _ h => ⟨h.rules, h.exported, h.extensions⟩

/-- What an operation collects, unless it exports a type whether that is marked or not. -/
theorem Operation.run_gains {operation : Operation} (indirect : operation.isDirect = false)
    (linked : Linked s) : Gains ((operation.run s).1.isOk = true) s (operation.run s).2 := by
  have steady := (inert_gathers s []).steady
  have kept {α : Type} {a : Action Workspace α} :
      Keeps (Gathers s []) (Gathers s []) (onWorkspace a) :=
    .of_outcome fun _ h => ⟨h.rules, h.exported, h.extensions⟩
  cases operation with
  | scan data => exact readGraph_gains linked rfl fun v g inside run => start_gains inside run
  | rescan => exact start_gains linked.store (g := s.graph) rfl
  | load data => exact gains_of_map (fun _ _ run => moduleLoaded_gains linked run) rfl
  | adopt data =>
    rcases run : (Operation.adopt data).run s with ⟨r, t⟩
    exact readGraph_gains linked run fun v g inside run => by
      cases run
      exact gains_nothing ⟨rfl, (SameRules.grown (.refl v) inside).embeds⟩ rfl rfl
  | batch forced types => exact batch_gains linked.store rfl
  | visit force id => exact visit_gains linked.store rfl
  | exportAs form id => cases indirect
  | saveModules => exact gains_of_keeps linked.store (saving_gathers s).saveModuleUnits
  | commit => exact gains_of_keeps linked.store (kept.bind fun _ => .pure _)
  | discard => exact gains_of_keeps linked.store kept
  | properties id =>
    exact gains_of_keeps linked.store ((steady.exportedProperties id).bind fun _ => .pure _)
  | functions id =>
    exact gains_of_keeps linked.store (Keeps.bind (Keeps.get.bind fun _ => .pure _) fun t =>
      (steady.exportedFunctions t).bind fun _ => .pure _)
  | layout ref =>
    exact gains_of_keeps linked.store (Keeps.get.bind fun _ =>
      .ite ((steady.measured ref).bind fun _ => .pure _) (.pure _))
  | outside files =>
    exact gains_of_keeps linked.store (.modify fun _ h => ⟨h.rules, h.exported, h.extensions⟩)

/-- What a session has collected comes from exported types, and of each it is the first of its
extension methods. -/
structure Collected (s : Session) : Prop where
  linked : Linked s
  inside : ∀ id ∈ s.exported, id < s.store.size
  libraries : ∀ e ∈ s.extensions, e.library ∈ s.exported
  part : ∀ id, methodsFrom id s.extensions <+: s.methodsOf id

def Complete (s : Session) (id : TypeId) : Prop :=
  id ∈ s.exported ∧ methodsFrom id s.extensions = s.methodsOf id

namespace Gains
variable (h : Gains whole s t) (hs : Collected s)
include h hs

omit hs in
theorem methodsFrom_old (hid : id ∈ s.exported) :
    methodsFrom id t.extensions = methodsFrom id s.extensions := by
  obtain ⟨new, joined, libraries, -⟩ := h.joined
  have none : methodsFrom id new = [] :=
    methodsFrom_eq_nil fun e he same => (libraries e he).2 (same ▸ hid)
  rw [joined, methodsFrom_append, none, List.append_nil]

theorem methodsFrom_new (fresh : id ∉ s.exported) : methodsFrom id t.extensions <+: t.methodsOf id ∧
    (whole → id ∈ t.exported → methodsFrom id t.extensions = t.methodsOf id) := by
  obtain ⟨new, joined, -, part, all⟩ := h.joined
  have none : methodsFrom id s.extensions = [] :=
    methodsFrom_eq_nil fun e he same => fresh (same ▸ hs.libraries e he)
  rw [joined, methodsFrom_append, none, List.nil_append]
  exact ⟨part id, fun holds hid => all holds id hid fresh⟩

theorem collected (linked : Linked t) : Collected t where
  linked := linked
  inside id hid := by
    obtain old | inside := h.inside id hid
    · exact h.grown.embeds.inside id (hs.inside id old)
    · exact inside
  libraries e he := by
    obtain ⟨new, joined, libraries, -⟩ := h.joined
    rw [joined] at he
    obtain he | he := List.mem_append.1 he
    · exact h.marked (hs.libraries e he)
    · exact (libraries e he).1
  part id := by
    by_cases hid : id ∈ s.exported
    · rw [h.methodsFrom_old hid, h.grown.methodsOf_eq (hs.inside id hid)]
      exact hs.part id
    · exact (h.methodsFrom_new hs hid).1

theorem complete (hid : Complete s id) : Complete t id :=
  ⟨h.marked hid.1, by
    rw [h.methodsFrom_old hid.1, h.grown.methodsOf_eq (hs.inside id hid.1), hid.2]⟩

end Gains

variable {operations : List Operation}

theorem Operation.run_collected {operation : Operation} (indirect : operation.isDirect = false)
    (hs : Collected s) : Collected (operation.run s).2 :=
  (operation.run_gains indirect hs.linked).collected hs
    (stepwise_linked.enduring.run (fun _ h => h) operation hs.linked)

theorem collected_after (indirect : ∀ operation ∈ operations, operation.isDirect = false)
    (hs : Collected s) : Collected (after s operations) := by
  induction operations generalizing s with
  | nil => exact hs
  | cons operation operations ih =>
    exact ih (fun o ho => indirect o (List.mem_cons_of_mem _ ho))
      (operation.run_collected (indirect operation List.mem_cons_self) hs)

theorem complete_after (indirect : ∀ operation ∈ operations, operation.isDirect = false)
    (hs : Collected s) (hid : Complete s id) : Complete (after s operations) id := by
  induction operations generalizing s with
  | nil => exact hid
  | cons operation operations ih =>
    have here := indirect operation List.mem_cons_self
    exact ih (fun o ho => indirect o (List.mem_cons_of_mem _ ho)) (operation.run_collected here hs)
      ((operation.run_gains here hs.linked).complete hs hid)

/-- One of the operations gave a result and was the first to export the type. -/
def ExportedWhole (s : Session) (operations : List Operation) (id : TypeId) : Prop :=
  ∃ before operation rest, operations = before ++ operation :: rest ∧
    (operation.run (after s before)).1 = .ok () ∧ id ∉ (after s before).exported ∧
    id ∈ (operation.run (after s before)).2.exported

/-- What is collected of a type that an operation with a result exported first stays complete. -/
theorem ExportedWhole.complete (h : ExportedWhole s operations id)
    (indirect : ∀ operation ∈ operations, operation.isDirect = false) (hs : Collected s) :
    Complete (after s operations) id := by
  obtain ⟨before, operation, rest, rfl, ok, fresh, marked⟩ := h
  have earlier := collected_after (fun o ho => indirect o (List.mem_append_left _ ho)) hs
  have here := indirect operation (List.mem_append_right _ List.mem_cons_self)
  have gains := operation.run_gains here earlier.linked
  have complete : Complete (operation.run (after s before)).2 id :=
    ⟨marked, (gains.methodsFrom_new earlier fresh).2 (by rw [ok]; rfl) marked⟩
  rw [after_append]
  exact complete_after (s := (operation.run (after s before)).2)
    (fun o ho => indirect o (List.mem_append_right _ (List.mem_cons_of_mem _ ho)))
    (operation.run_collected here earlier) complete

end Session

end ScriptGlue
