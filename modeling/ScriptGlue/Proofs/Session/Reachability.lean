import Mathlib.Order.Bounds.Basic
import ScriptGlue.Proofs.Graph.Growth
import ScriptGlue.Proofs.Session.Stagers

/-! # The exported types

The types a session has exported are the least set that holds what was asked for and is closed under
what exported types need. This holds over all its triggers together, although later ones read more
types: what is known of a type does not change when the store grows.
-/
namespace ScriptGlue.Session
open ScriptGlue.Action

variable {s t u : Session}

/-- What every session without a fault keeps between its triggers. -/
structure Sound (s : Session) : Prop where
  coherent : Coherent s
  linked : s.store.Linked
  exported : ∀ id ∈ s.exported, id < s.store.size
  graph : ∀ g ∈ s.graph, g.Inside s.store
  registry : ∀ m ∈ s.registry, ∃ home : NativeModule, home.name = m.name ∧
    s.packaging.directory home = .ok m.directory

/-- The session is exact, and any module may be registered. -/
abbrev anyModule : Setting := { modules := fun _ => True, exact := True }

theorem knows_any (s : Session) : Knows anyModule s := ⟨fun _ => trivial, fun _ _ _ => trivial⟩

/-- A batch may begin in a session that differs in nothing that batches look at. -/
theorem Sound.during (h : Sound s) (rules : SameRules s t) (packaging : t.packaging = s.packaging)
    (registry : t.registry = s.registry) (accepted : t.acceptedProperties = s.acceptedProperties)
    (blittable : t.blittable = s.blittable) : During anyModule t t where
  rules := .refl t
  graph := rfl
  packaging := rfl
  fileExtension := rfl
  registry _ m hm := by
    obtain ⟨home, name, directory⟩ := h.registry m (registry ▸ hm)
    exact ⟨home, trivial, name, packaging ▸ directory⟩
  remembers _ :=
    (h.coherent.of_same rules blittable (h.coherent.accepted.of_same rules accepted)).coherent
  consults := .refl

theorem During.sound (h : During anyModule s t) (linked : s.store.Linked)
    (exported : ∀ id ∈ t.exported, id < s.store.size) (graph : ∀ g ∈ s.graph, g.Inside s.store) :
    Sound t where
  coherent := (h.remembers trivial).coherent
  linked := h.rules.2 ▸ linked
  exported := h.rules.2 ▸ exported
  graph := by rw [h.graph, h.rules.2]; exact graph
  registry m hm := by
    obtain ⟨home, -, name, directory⟩ := h.registry trivial m hm
    exact ⟨home, name, h.packaging ▸ directory⟩

/-- The session has the same policy and has read more types at most. -/
abbrev Grown (s t : Session) : Prop := Mirrors id s t

theorem SameRules.grown (h : SameRules s t) (linked : s.store.Linked) : Grown s t where
  policy := h.1
  embeds :=
    { linked
      inside := fun id hid => h.2 ▸ hid
      node := fun id _ => by rw [h.2, TypeNode.relocate_id]; rfl
      injective := fun _ _ _ _ same => same }

theorem Mirrors.grown_trans (h : Grown s t) (g : Grown t u) : Grown s u where
  policy := g.policy.trans h.policy
  embeds :=
    { linked := h.embeds.linked
      inside := fun id hid => g.embeds.inside id (h.embeds.inside id hid)
      node := fun id hid =>
        (g.embeds.node id (h.embeds.inside id hid)).trans
          ((TypeNode.relocate_id _).trans (h.embeds.node id hid))
      injective := fun _ _ _ _ same => same }

theorem Mirrors.type_eq (h : Grown s t) {id : TypeId} (hid : id < s.store.size) :
    t.store.type id = s.store.type id :=
  (h.embeds.node id hid).trans (TypeNode.relocate_id _)

theorem Walk.grown (h : Grown s t) {requests : List Request} {marked after finished : List TypeId}
    (walk : Walk s requests marked after finished) (known : ∀ id ∈ marked, id < s.store.size) :
    Walk t requests marked after finished := by
  simpa using walk.mirror h known

theorem Sound.read (h : Sound s) {known : Graph} {data : Value} {read : Graph.Extension}
    (inside : known.Inside s.store) (hread : Graph.extend s.store known data = .ok read) :
    Sound { s with store := read.store } ∧ Grown s { s with store := read.store } ∧
      read.graph.Inside read.store := by
  obtain ⟨embeds, linked, added⟩ := Graph.extend_grows h.linked inside hread
  have grown : Grown s { s with store := read.store } := ⟨rfl, embeds⟩
  refine ⟨⟨h.coherent.mirror grown rfl rfl, linked, fun id hid => ?_, fun g hg id hid => ?_,
    h.registry⟩, grown, added⟩
  · exact embeds.inside id (h.exported id hid)
  · exact embeds.inside id (h.graph g hg id hid)

/-- A batch without a fault walks through what it asks for; the graph may be one whose types are
only known to lie in the store because the batch asks for them. -/
theorem batch_sound (during : During anyModule s s) (linked : s.store.Linked)
    (exported : ∀ id ∈ s.exported, id < s.store.size) {forced types : List (Option TypeId)}
    {x : Unit} (graph : (∀ r ∈ requestsOf forced types, r.2 < s.store.size) →
      ∀ g ∈ s.graph, g.Inside s.store) (h : batch forced types s = (.ok x, t)) :
    Sound t ∧ SameRules s t ∧
      ∃ finished, Walk t (requestsOf forced types) s.exported t.exported finished := by
  obtain ⟨finished, batched⟩ := batch_batched (knows_any s) during (fun _ _ => .inr trivial) h
  have walk := batched.walk trivial
  obtain ⟨asked, marked⟩ := walk.lt_size exported
  have rules := batched.during.rules
  exact ⟨batched.during.sound linked marked (graph asked), rules, finished,
    walk.grown (rules.grown linked) exported⟩

/-- Types that were asked for, forced or left to their gates. -/
structure Asked where
  forced : List (Option TypeId) := []
  gated : List (Option TypeId) := []

/-- What may happen to a session whose policy stays. -/
inductive Trigger where
  /-- A graph is read, for a scan to come. -/
  | read (data : Value)
  | start (g : Option Graph)
  | load (data : Value)
  | types (forced gated : List (Option TypeId))

def Trigger.run : Trigger → Generation Asked
  | .read data => do
    let _ ← readGraph data
    return {}
  | .start g => do
    Session.start g
    let store := (← get).store
    let g := g.getD {}
    return {
      forced := ([interfaceClass, objectClass].filterMap (g.find? store)).map some
      gated := g.members.map some }
  | .load data => do return { gated := (← moduleLoaded data).map some }
  | .types forced gated => do
    batch forced gated
    return { forced, gated }

theorem run_read {data : Value} {asked : Asked} (hs : Sound s)
    (h : (Trigger.read data).run s = (.ok asked, t)) :
    Sound t ∧ Grown s t ∧ asked = {} ∧ t.exported = s.exported := by
  obtain ⟨_, v, hread, h⟩ := bind_eq_ok.1 h
  obtain ⟨rfl, rfl⟩ := pure_eq_ok.1 h
  obtain ⟨_, _, hget, hread⟩ := bind_eq_ok.1 hread
  obtain ⟨rfl, rfl⟩ := get_eq_ok.1 hget
  obtain ⟨read, _, hdocument, hread⟩ := bind_eq_ok.1 hread
  obtain ⟨hextend, rfl⟩ := ofExcept_eq_ok.1 hdocument
  obtain ⟨_, _, hstore, hread⟩ := bind_eq_ok.1 hread
  obtain rfl := modify_eq_ok.1 hstore
  obtain ⟨-, rfl⟩ := pure_eq_ok.1 hread
  have inside : Graph.Inside s.store {} := fun _ hid => absurd hid List.not_mem_nil
  obtain ⟨sound, grown, -⟩ := hs.read inside hextend
  exact ⟨sound, grown, rfl, rfl⟩

theorem mem_requestsOf {forced types : List (Option TypeId)} {id : TypeId} :
    ((true, id) ∈ requestsOf forced types ↔ some id ∈ forced) ∧
      ((false, id) ∈ requestsOf forced types ↔ some id ∈ types) := by
  constructor <;> simp [requestsOf]

/-- The session in which a start begins its batch. -/
abbrev started (s : Session) (g : Graph) : Session := { s with
  graph := some g
  workspace := s.workspace.record ⟨.info, .session, "=== Generating C# glue:"⟩ }

abbrev roots (s : Session) (g : Graph) : List (Option TypeId) :=
  ([interfaceClass, objectClass].filterMap (g.find? s.store)).map some

/-- The session in which a load begins its batch, after what it read. -/
abbrev loaded (s : Session) (read : Graph.Extension) : Session := { s with
  store := read.store
  graph := some read.graph
  workspace := s.workspace.record ⟨.info, .session,
    "=== Module loaded: " ++ toString read.added.length ++ " new types"⟩ }

theorem start_eq_ok {g : Graph} {x : Unit} (h : start (some g) s = (.ok x, t)) :
    batch (([interfaceClass, objectClass].filterMap (g.find? s.store)).map some)
      (g.members.map some) (s.started g) = (.ok x, t) := by
  obtain ⟨_, s₁, htell, h⟩ := bind_eq_ok.1 h
  obtain ⟨_, s₂, hadopt, h⟩ := bind_eq_ok.1 h
  cases htell
  obtain rfl := modify_eq_ok.1 hadopt
  obtain ⟨_, _, hstore, hbatch⟩ := bind_eq_ok.1 h
  obtain ⟨rfl, rfl⟩ := get_eq_ok.1 hstore
  exact hbatch

theorem moduleLoaded_eq_ok {data : Value} {added : List TypeId}
    (h : moduleLoaded data s = (.ok added, t)) : ∃ read,
      Graph.extend s.store (s.graph.getD {}) data = .ok read ∧ added = read.added ∧
        batch [] (read.added.map some) (s.loaded read) = (.ok (), t) := by
  obtain ⟨_, s₁, hmerge, h⟩ := bind_eq_ok.1 h
  obtain ⟨_, s₂, htell, h⟩ := bind_eq_ok.1 h
  obtain ⟨_, s₃, hbatch, h⟩ := bind_eq_ok.1 h
  obtain ⟨rfl, rfl⟩ := pure_eq_ok.1 h
  cases htell
  obtain ⟨_, _, hget, hmerge⟩ := bind_eq_ok.1 hmerge
  obtain ⟨rfl, rfl⟩ := get_eq_ok.1 hget
  obtain ⟨_, _, hadopt, hmerge⟩ := bind_eq_ok.1 hmerge
  obtain rfl := modify_eq_ok.1 hadopt
  obtain ⟨_, _, hget, hmerge⟩ := bind_eq_ok.1 hmerge
  obtain ⟨rfl, rfl⟩ := get_eq_ok.1 hget
  obtain ⟨read, _, hdocument, hmerge⟩ := bind_eq_ok.1 hmerge
  obtain ⟨hextend, rfl⟩ := ofExcept_eq_ok.1 hdocument
  obtain ⟨_, _, hstore, hmerge⟩ := bind_eq_ok.1 hmerge
  obtain rfl := modify_eq_ok.1 hstore
  obtain ⟨rfl, rfl⟩ := pure_eq_ok.1 hmerge
  exact ⟨read, hextend, rfl, hbatch⟩

theorem Sound.graph_inside (h : Sound s) : (s.graph.getD {}).Inside s.store := by
  cases graph : s.graph with
  | none => exact fun _ hid => absurd hid List.not_mem_nil
  | some g => exact h.graph g graph

theorem run_start {g : Option Graph} {asked : Asked} (hs : Sound s)
    (h : (Trigger.start g).run s = (.ok asked, t)) :
    Sound t ∧ Grown s t ∧
      ∃ finished, Walk t (requestsOf asked.forced asked.gated) s.exported t.exported finished := by
  obtain ⟨_, v, hstart, h⟩ := bind_eq_ok.1 h
  obtain ⟨_, _, hget, h⟩ := bind_eq_ok.1 h
  obtain ⟨rfl, rfl⟩ := get_eq_ok.1 hget
  obtain ⟨rfl, rfl⟩ := pure_eq_ok.1 h
  cases g with
  | none => cases hstart
  | some g =>
    have during := hs.during (t := s.started g) ⟨rfl, rfl⟩ rfl rfl rfl rfl
    obtain ⟨sound, rules, walk⟩ := batch_sound during hs.linked hs.exported
      (fun asked _ hg id hid => by
        cases hg
        exact asked (false, id) (mem_requestsOf.2.2 (List.mem_map_of_mem hid))) (start_eq_ok hstart)
    have rules : SameRules s v := ⟨rules.1, rules.2⟩
    rw [rules.2]
    exact ⟨sound, rules.grown hs.linked, walk⟩

theorem run_load {data : Value} {asked : Asked} (hs : Sound s)
    (h : (Trigger.load data).run s = (.ok asked, t)) :
    Sound t ∧ Grown s t ∧
      ∃ finished, Walk t (requestsOf asked.forced asked.gated) s.exported t.exported finished := by
  obtain ⟨added, v, hload, h⟩ := bind_eq_ok.1 h
  obtain ⟨rfl, rfl⟩ := pure_eq_ok.1 h
  obtain ⟨read, hextend, rfl, hbatch⟩ := moduleLoaded_eq_ok hload
  obtain ⟨sound, grown, added⟩ := hs.read hs.graph_inside hextend
  have during := sound.during (t := s.loaded read) ⟨rfl, rfl⟩ rfl rfl rfl rfl
  obtain ⟨ended, rules, walk⟩ := batch_sound during sound.linked sound.exported
    (fun _ _ hg => by
      cases hg
      exact added) hbatch
  have rules : SameRules { s with store := read.store } v := ⟨rules.1, rules.2⟩
  exact ⟨ended, grown.grown_trans (rules.grown sound.linked), walk⟩

/-- A trigger without a fault walks through what it asked for, over the types read by then. -/
theorem Trigger.run_walks {trigger : Trigger} {asked : Asked} (hs : Sound s)
    (h : trigger.run s = (.ok asked, t)) :
    Sound t ∧ Grown s t ∧
      ∃ finished, Walk t (requestsOf asked.forced asked.gated) s.exported t.exported finished := by
  cases trigger with
  | read data =>
    obtain ⟨sound, grown, rfl, same⟩ := run_read hs h
    rw [same]
    exact ⟨sound, grown, [], .nil _⟩
  | start g => exact run_start hs h
  | load data => exact run_load hs h
  | types forced gated =>
    obtain ⟨_, v, hbatch, h⟩ := bind_eq_ok.1 h
    obtain ⟨rfl, rfl⟩ := pure_eq_ok.1 h
    obtain ⟨sound, rules, walk⟩ :=
      batch_sound (hs.during (.refl s) rfl rfl rfl rfl) hs.linked hs.exported (fun _ => hs.graph) hbatch
    exact ⟨sound, rules.grown hs.linked, walk⟩

def Asked.requests (a : Asked) : List Request := requestsOf a.forced a.gated

theorem Trigger.mapM_walks {triggers : List Trigger} {asked : List Asked} (hs : Sound s)
    (h : triggers.mapM Trigger.run s = (.ok asked, t)) :
    Sound t ∧ Grown s t ∧
      ∃ finished, Walk t (asked.flatMap Asked.requests) s.exported t.exported finished := by
  induction triggers generalizing s asked with
  | nil =>
    obtain ⟨rfl, rfl⟩ := pure_eq_ok.1 h
    exact ⟨hs, SameRules.grown (.refl s) hs.linked, [], .nil _⟩
  | cons trigger triggers ih =>
    rw [List.mapM_cons] at h
    obtain ⟨first, u, hfirst, h⟩ := bind_eq_ok.1 h
    obtain ⟨rest, v, hrest, h⟩ := bind_eq_ok.1 h
    obtain ⟨rfl, rfl⟩ := pure_eq_ok.1 h
    obtain ⟨hu, grown, finished, walk⟩ := Trigger.run_walks hs hfirst
    obtain ⟨hv, grown', finished', walk'⟩ := ih hu hrest
    have known : ∀ id ∈ s.exported, id < u.store.size := fun id hid =>
      grown.embeds.inside id (hs.exported id hid)
    exact ⟨hv, grown.grown_trans grown', _, (walk.grown grown' known).append walk'⟩

abbrev fresh (policy : Policy) (packaging : Packaging) (fileExtension : Value)
    (workspace : Workspace) : Session := { policy, packaging, fileExtension, workspace }

theorem sound_fresh (policy : Policy) (packaging : Packaging) (fileExtension : Value)
    (workspace : Workspace) : Sound (fresh policy packaging fileExtension workspace) where
  coherent :=
    { rules := .refl _
      accepted := fun _ _ known => by cases known
      layouts := fun _ _ known => by cases known }
  linked := fun _ hid => absurd hid (Nat.not_lt_zero _)
  exported := fun _ hid => absurd hid List.not_mem_nil
  graph := fun _ hg => by cases hg
  registry := fun _ hm => absurd hm List.not_mem_nil

/-- The set holds what was asked for, up to the types that are passed over, and with a type what it
needs. -/
structure Closed (s : Session) (asked : List Asked) (S : Set TypeId) : Prop where
  forced : ∀ a ∈ asked, ∀ id, some id ∈ a.forced → ¬Skips s id → id ∈ S
  gated : ∀ a ∈ asked, ∀ id, some id ∈ a.gated → ¬Skips s id → s.admits id → id ∈ S
  closed : ∀ id ∈ S, ∀ d ∈ s.dependencies id, ¬Skips s d → d ∈ S

theorem closed_iff {asked : List Asked} {S : Set TypeId} :
    Closed s asked S ↔
      Fulfils s (asked.flatMap Asked.requests) S ∧ ∀ id ∈ S, ClosedAt s S id := by
  constructor
  · intro h
    refine ⟨?_, h.closed⟩
    rintro ⟨force, id⟩ hr kept granted
    obtain ⟨a, ha, hr⟩ := List.mem_flatMap.1 hr
    cases force with
    | true => exact h.forced a ha id (mem_requestsOf.1.1 hr) kept
    | false => exact h.gated a ha id (mem_requestsOf.2.1 hr) kept granted
  · rintro ⟨fulfils, closed⟩
    refine ⟨fun a ha id hid kept => ?_, fun a ha id hid kept admitted => ?_, closed⟩
    · exact fulfils (true, id) (List.mem_flatMap.2 ⟨a, ha, mem_requestsOf.1.2 hid⟩) kept rfl
    · exact fulfils (false, id) (List.mem_flatMap.2 ⟨a, ha, mem_requestsOf.2.2 hid⟩) kept admitted

section
variable {policy : Policy} {packaging : Packaging} {fileExtension : Value} {workspace : Workspace}
  {triggers : List Trigger} {asked : List Asked}
  (h : triggers.mapM Trigger.run (fresh policy packaging fileExtension workspace) = (.ok asked, s))
include h

theorem closed_exported : Closed s asked {id | id ∈ s.exported} := by
  obtain ⟨-, -, finished, walk⟩ :=
    Trigger.mapM_walks (sound_fresh policy packaging fileExtension workspace) h
  refine closed_iff.2 ⟨walk.fulfils, fun id hid => walk.closed id ?_⟩
  exact (walk.mem_after.1 hid).resolve_left List.not_mem_nil

theorem exported_subset_of_closed {S : Set TypeId} (hS : Closed s asked S) :
    ∀ id ∈ s.exported, id ∈ S := by
  obtain ⟨-, -, finished, walk⟩ :=
    Trigger.mapM_walks (sound_fresh policy packaging fileExtension workspace) h
  obtain ⟨fulfils, closed⟩ := closed_iff.1 hS
  exact walk.sound (fun _ hid => absurd hid List.not_mem_nil) fulfils closed

end

/-- If no trigger of a fresh session faults, the exported types are the least set that holds what
the triggers asked for and is closed under what its types need. -/
theorem exported_isLeast {policy : Policy} {packaging : Packaging} {fileExtension : Value}
    {workspace : Workspace} {triggers : List Trigger} {asked : List Asked}
    (h : triggers.mapM Trigger.run (fresh policy packaging fileExtension workspace) =
      (.ok asked, s)) :
    IsLeast {S : Set TypeId | Closed s asked S} {id | id ∈ s.exported} :=
  ⟨closed_exported h, fun _ hS => exported_subset_of_closed h hS⟩

/-- An enum, and a struct that holds it and itself. -/
def ringDocument : Value :=
  .object [("types", .list [
    .object [("kind", .text "enum"), ("name", .text "E"), ("module", .text "M")],
    .object [("kind", .text "struct"), ("name", .text "S"), ("module", .text "M"),
      ("properties", .list [
        .object [("name", .text "e"), ("kind", .text "enum"), ("type", .text "E"),
          ("flags", .list [.text "blueprint_visible"])],
        .object [("name", .text "s"), ("kind", .text "struct"), ("type", .text "S"),
          ("flags", .list [.text "blueprint_visible"])]])]])]

/-- A file lies where the units would go, so they are dropped. -/
def ringSession : Session :=
  fresh {} { scriptsDir := .text "out" } (.text ".cs")
    { tree := { entries := [(["out"], .file (.text ""))] } }

theorem ringSession_runs : (readGraph ringDocument).gives ringSession fun _ s =>
    (batch [some 1] []).gives s fun _ t => t.exported == [0, 1] := by
  rw [batch_eq_direct]
  decide +kernel

theorem exported_isLeast_of_ring : ∃ asked s,
    [Trigger.read ringDocument, .types [some 1] []].mapM Trigger.run ringSession = (.ok asked, s) ∧
      s.exported = [0, 1] ∧ IsLeast {S : Set TypeId | Closed s asked S} {id | id ∈ s.exported} := by
  obtain ⟨g, s, hread, runs⟩ := exists_of_gives ringSession_runs
  obtain ⟨_, t, hbatch, exported⟩ := exists_of_gives runs
  have run : [Trigger.read ringDocument, .types [some 1] []].mapM Trigger.run ringSession =
      (.ok [{}, { forced := [some 1] }], t) :=
    mapM_cons_of_ok (bind_of_ok hread _) (mapM_cons_of_ok (bind_of_ok hbatch _) rfl)
  exact ⟨_, t, run, beq_iff_eq.1 exported, exported_isLeast run⟩

end ScriptGlue.Session
