import ScriptGlue.Proofs.Files.Commit
import ScriptGlue.Proofs.Names
import ScriptGlue.Proofs.Session.NativeLayout
import ScriptGlue.Proofs.Session.Walk

/-! # Progress of a batch

Between the sessions of a batch the rules, the graph and the packaging stay. If the session it began
in was exact, the memo tables stay right and every registered module has the directory of a module
known by its name. The makers of parts stand still: they only record and register. The exports
advance, by a walk if the session is exact: they stage the units of the types that they mark, in the
order in which these are finished, and collect their extension methods.
-/
namespace ScriptGlue.Session
open ScriptGlue.Action

structure Setting where
  /-- Holds of the modules that may be registered. -/
  modules : NativeModule → Prop
  /-- The memo tables and the registry are right. -/
  exact : Prop

variable {C : Setting} {s t u v : Session}

/-- What the memo tables and the registry took in since the first session are answers that were
given and modules that were registered, under the same rules. -/
inductive Consults (s : Session) : Session → Prop
  | refl : Consults s s
  | layout {t u : Session} {ref : Option TypeId} {b : Bool} (h : Consults s t)
      (asked : isStructBlittable ref t = (.ok b, u)) : Consults s u
  | properties {t : Session} {id : TypeId} (h : Consults s t)
      (new : t.acceptedProperties.lookup id = none) : Consults s (t.accepting id)
  | registered {t : Session} {m : NativeModule} {directory : Value} (h : Consults s t)
      (new : t.registry.find? m.name = none) (found : t.packaging.directory m = .ok directory) :
      Consults s { t with registry := t.registry ++ [{ name := m.name, directory }] }
  | other {t u : Session} (h : Consults s t) (rules : SameRules t u)
      (packaging : u.packaging = t.packaging)
      (properties : u.acceptedProperties = t.acceptedProperties)
      (layouts : u.blittable = t.blittable) (registry : u.registry = t.registry) : Consults s u

/-- Whatever was asked since, a session gives the same properties for a type. -/
theorem Consults.givenProperties (h : Consults s t) : t.givenProperties = s.givenProperties := by
  have gated (r : Session) : Gated (fun t => SameRules r t ∧ t.givenProperties = r.givenProperties)
      fun _ => True :=
    { faulted := fun _ _ => trivial
      refused := fun t _ h => ⟨h.1.trans ⟨rfl, rfl⟩, h.2⟩
      accepted := fun t id new _ h =>
        ⟨h.1.trans (sameRules_accepting t id), (givenProperties_accepting new).trans h.2⟩ }
  induction h with
  | refl => rfl
  | @layout t u ref b _ asked ih =>
    have same : SameRules t u ∧ u.givenProperties = t.givenProperties :=
      ((gated t).isStructBlittable (fun _ _ h => h) ref).result ⟨.refl t, rfl⟩ asked
    exact same.2.trans ih
  | properties _ new ih => exact (givenProperties_accepting new).trans ih
  | registered _ _ _ ih => exact ih
  | other _ rules _ properties _ _ ih => exact (givenProperties_of_same rules properties).trans ih

/-- The predicate holds of all modules that the session knows of. -/
structure Knows (C : Setting) (s : Session) : Prop where
  home : ∀ id, C.modules (s.store.type id).home
  declared : ∀ name m, s.findModule? name = some m → C.modules m

/-- What a batch leaves alone, and what it keeps of the modules it registers. -/
structure Frame (C : Setting) (s t : Session) : Prop where
  rules : SameRules s t
  graph : t.graph = s.graph
  packaging : t.packaging = s.packaging
  fileExtension : t.fileExtension = s.fileExtension
  registry : C.exact → ∀ m ∈ t.registry, ∃ home, C.modules home ∧ home.name = m.name ∧
    s.packaging.directory home = .ok m.directory

/-- A session in the course of a batch that began as `s`. -/
structure During (C : Setting) (s t : Session) : Prop extends Frame C s t where
  remembers : C.exact → Remembers s [] t
  consults : Consults s t

theorem Frame.of_same (h : Frame C s t) (rules : SameRules t u) (graph : u.graph = t.graph)
    (packaging : u.packaging = t.packaging) (fileExtension : u.fileExtension = t.fileExtension)
    (registry : u.registry = t.registry) : Frame C s u where
  rules := h.rules.trans rules
  graph := graph.trans h.graph
  packaging := packaging.trans h.packaging
  fileExtension := fileExtension.trans h.fileExtension
  registry := registry ▸ h.registry

theorem During.of_same (h : During C s t) (rules : SameRules t u) (graph : u.graph = t.graph)
    (packaging : u.packaging = t.packaging) (fileExtension : u.fileExtension = t.fileExtension)
    (registry : u.registry = t.registry) (accepted : u.acceptedProperties = t.acceptedProperties)
    (blittable : u.blittable = t.blittable) : During C s u where
  toFrame := h.toFrame.of_same rules graph packaging fileExtension registry
  remembers exact := (h.remembers exact).of_same rules blittable
    ((h.remembers exact).accepted.of_same rules accepted)
  consults := h.consults.other rules packaging accepted blittable registry

theorem Knows.frame_home (k : Knows C s) (h : Frame C s t) (id : TypeId) :
    C.modules (t.store.type id).home := h.rules.2 ▸ k.home id

theorem Knows.frame_declared (k : Knows C s) (h : Frame C s t) {name : Name} {m : NativeModule}
    (hm : t.findModule? name = some m) : C.modules m := by
  refine k.declared name m ?_
  rw [findModule?, ← h.graph]
  exact hm

theorem Frame.registering (h : Frame C s t) {m : NativeModule} {directory : Value} (hm : C.modules m)
    (found : t.packaging.directory m = .ok directory) :
    Frame C s { t with registry := t.registry ++ [{ name := m.name, directory }] } := by
  refine ⟨h.rules, h.graph, h.packaging, h.fileExtension, fun exact added hadded => ?_⟩
  obtain hadded | hadded := List.mem_append.1 hadded
  · exact h.registry exact added hadded
  · cases List.mem_singleton.1 hadded
    exact ⟨m, hm, rfl, h.packaging ▸ found⟩

theorem gated_frame (C : Setting) (s : Session) : Gated (Frame C s) fun _ => True where
  faulted _ _ := trivial
  refused _ _ h := h.of_same ⟨rfl, rfl⟩ rfl rfl rfl rfl
  accepted _ _ _ _ h := h.of_same ⟨rfl, rfl⟩ rfl rfl rfl rfl

/-- Apart from the extension methods that join, the session made no progress. -/
structure Still (new : List ExtensionMethod) (t u : Session) : Prop where
  exported : u.exported = t.exported
  extensions : u.extensions = t.extensions ++ new
  registry : t.registry <+: u.registry
  quiet : t.workspace.Quiet u.workspace

theorem Still.refl (t : Session) : Still [] t t :=
  ⟨rfl, (List.append_nil _).symm, List.prefix_rfl, .refl _⟩

theorem Still.trans {new more : List ExtensionMethod} (h : Still new t u) (g : Still more u v) :
    Still (new ++ more) t v where
  exported := g.exported.trans h.exported
  extensions := by rw [g.extensions, h.extensions, List.append_assoc]
  registry := h.registry.trans g.registry
  quiet := h.quiet.trans g.quiet

theorem Still.of_same {new : List ExtensionMethod} (h : Still new t u)
    (exported : v.exported = u.exported) (extensions : v.extensions = u.extensions)
    (registry : v.registry = u.registry) (workspace : v.workspace = u.workspace) :
    Still new t v where
  exported := exported.trans h.exported
  extensions := extensions.trans h.extensions
  registry := registry ▸ h.registry
  quiet := workspace ▸ h.quiet

theorem gated_still (t : Session) : Gated (Still [] t) fun _ => True where
  faulted _ _ := trivial
  refused _ _ h := h.of_same rfl rfl rfl rfl
  accepted _ _ _ _ h := h.of_same rfl rfl rfl rfl

theorem steady_during (k : Knows C s) : Steady C.modules (During C s) fun _ => True where
  toAsking := Gated.asking
    { faulted := fun _ _ => trivial
      refused := fun _ _ h => h.of_same ⟨rfl, rfl⟩ rfl rfl rfl rfl rfl rfl
      accepted := fun u id new inside h =>
        ⟨(gated_frame C s).accepted u id new inside h.toFrame,
          fun exact => (gated_remembers s []).accepted u id new inside (h.remembers exact),
          h.consults.properties new⟩ }
  recorded _ _ h := h.of_same ⟨rfl, rfl⟩ rfl rfl rfl rfl rfl rfl
  registered _ _ _ hm _ new found _ h :=
    ⟨h.toFrame.registering hm found,
      fun exact => (h.remembers exact).of_same ⟨rfl, rfl⟩ rfl
        ((h.remembers exact).accepted.of_same ⟨rfl, rfl⟩ rfl),
      h.consults.registered new found⟩
  measured ref := by
    have frame : Keeps (Frame C s) (fun _ => True) (isStructBlittable ref) :=
      (gated_frame C s).isStructBlittable (fun _ _ h => h.of_same ⟨rfl, rfl⟩ rfl rfl rfl rfl) ref
    constructor
    · intro u v b h he
      exact ⟨frame.result h.toFrame he, fun exact =>
        (keeps_isStructBlittable s ref).result (h.remembers exact) he, h.consults.layout he⟩
    · exact fun _ _ => trivial
  home _ id h := k.frame_home h.toFrame id
  declared _ _ _ h hm := k.frame_declared h.toFrame hm

theorem steady_stands (t : Session) : Steady (fun _ => True) (Still [] t) fun _ => True where
  toAsking := (gated_still t).asking
  recorded u r h :=
    { exported := h.exported
      extensions := h.extensions
      registry := h.registry
      quiet := h.quiet.trans (.record u.workspace r) }
  registered _ _ _ _ _ _ _ _ h :=
    { exported := h.exported
      extensions := h.extensions
      registry := h.registry.trans (List.prefix_append _ _)
      quiet := h.quiet }
  measured := (gated_still t).isStructBlittable fun _ _ h => h.of_same rfl rfl rfl rfl
  home _ _ _ := trivial
  declared _ _ _ _ _ := trivial

theorem steady_still (k : Knows C s) (t : Session) :
    Steady C.modules (fun u => During C s u ∧ Still [] t u) fun _ => True :=
  (steady_during k).and (steady_stands t)

theorem Still.of_keeps {α : Type} {a : Generation α} {x : α}
    (h : Keeps (fun u => During C s u ∧ Still [] t u) (fun _ => True) a) (ht : During C s t)
    (he : a t = (.ok x, u)) : During C s u ∧ Still [] t u := h.result ⟨ht, .refl t⟩ he

theorem register_ok {m : NativeModule} {known : OutputModule} (h : register m t = (.ok known, u)) :
    u.registry.find? m.name = some known := by
  rw [register_apply] at h
  split at h
  · next key =>
    split at h
    · next found =>
      cases h
      exact found
    · next missing =>
      split at h
      · cases h
      · split at h
        · cases h
          have missing : t.registry.find? m.name = none := missing
          simp only [registering, Registry.find?, List.find?_append] at missing ⊢
          simp [missing, Value.alike_self key]
        · cases h
  · cases h

/-- Where a unit of a module goes; a directory that is no text is none. -/
def target? (m : OutputModule) (filename : String) : Option Target :=
  match m.directory with
  | .text directory => some { directory, filename }
  | _ => none

def unitFile (s : Session) (id : TypeId) : String :=
  (s.store.type id).label ++ ".generated" ++ s.fileExtension.plain

/-- Where the unit of a type goes when these modules are registered. -/
def typeTarget? (s : Session) (r : Registry) (id : TypeId) : Option Target :=
  (r.find? (s.store.type id).home.name).bind fun m => target? m (s.unitFile id)

theorem saveUnit_eq (m : OutputModule) (filename text : String) :
    saveUnit m filename text = match target? m filename with
      | some target => onWorkspace (Save.run { target with text })
      | none => throw .wrongType := by
  have on_bind {α β : Type} (a : Action Workspace α) (f : α → Action Workspace β) :
      onWorkspace (a >>= f) = onWorkspace a >>= fun x => onWorkspace (f x) := by
    funext v
    simp only [onWorkspace, within, bind_apply]
    rcases a v.workspace with ⟨_ | _, _⟩ <;> rfl
  have on_ite (c : Bool) (a : Action Workspace Unit) :
      onWorkspace (if c then a else Pure.pure ()) = if c then onWorkspace a else Pure.pure () := by
    cases c <;> rfl
  unfold saveUnit target?
  cases m.directory with
  | text directory =>
    simp only [Save.run, on_bind, on_ite]
    rfl
  | _ => rfl

theorem saveUnit_ok {m : OutputModule} {filename text : String} {x : Unit}
    (h : saveUnit m filename text t = (.ok x, u)) :
    ∃ target w, target? m filename = some target ∧ u = { t with workspace := w } ∧
      Save.run { target with text } t.workspace = (.ok (), w) := by
  rw [saveUnit_eq] at h
  split at h
  · next target placed =>
    rcases run : Save.run { target with text } t.workspace with ⟨result, w⟩
    simp only [onWorkspace, within, run] at h
    cases h
    exact ⟨target, w, placed, rfl, run⟩
  · cases h

/-- A session of the same batch that has the same progress but for its files. -/
structure Saved (C : Setting) (s t u : Session) : Prop where
  during : During C s u
  exported : u.exported = t.exported
  extensions : u.extensions = t.extensions
  registry : t.registry <+: u.registry

theorem During.files (h : During C s t) (w : Workspace) : During C s { t with workspace := w } :=
  h.of_same ⟨rfl, rfl⟩ rfl rfl rfl rfl rfl rfl

theorem saveTypeUnit_ok (k : Knows C s) {id : TypeId} {code : Code} {x : Unit}
    (ht : During C s t) (h : saveTypeUnit (s.store.type id) code t = (.ok x, u)) :
    Saved C s t u ∧ ∃ target, s.typeTarget? u.registry id = some target ∧
      Save.Saves [{ target with text := code.text }] t.workspace u.workspace := by
  obtain ⟨known, t', hknown, h⟩ := bind_eq_ok.1 h
  obtain ⟨_, _, hget, h⟩ := bind_eq_ok.1 h
  obtain ⟨rfl, rfl⟩ := get_eq_ok.1 hget
  obtain ⟨ht', still⟩ := Still.of_keeps ((steady_still k t).register (k.home id)) ht hknown
  obtain ⟨target, w, placed, rfl, run⟩ := saveUnit_ok h
  refine ⟨⟨ht'.files w, still.exported, by rw [still.extensions, List.append_nil],
    still.registry⟩, target, ?_, .single still.quiet run⟩
  unfold typeTarget? unitFile
  rw [register_ok hknown, ← ht'.fileExtension]
  exact placed

/-- The code is the unit of the type, made somewhere in the course of a batch. -/
inductive Renders (C : Setting) (s : Session) (id : TypeId) : Code → Prop
  | interface {t u : Session} {unit : InterfaceUnit} (variant : (s.store.type id).isClass)
      (interface : isInterface s.store id) (during : During C s t)
      (made : interfaceUnit (s.store.type id) t = (.ok unit, u)) : Renders C s id unit.code
  | plainClass {t u : Session} {unit : ClassUnit} {visit : Visit}
      (variant : (s.store.type id).isClass) (plain : isInterface s.store id = false)
      (visits : ∀ force d, Keeps (During C s) (fun _ => True) (visit force d))
      (during : During C s t)
      (made : classUnit visit id (s.store.type id) t = (.ok unit, u)) : Renders C s id unit.code
  | struct {t u : Session} {unit : StructUnit} {ps : List Property}
      (variant : (s.store.type id).variant = .struct) (given : ps = s.givenProperties id)
      (passed : C.exact → ps = s.passedProperties id) (during : During C s t)
      (made : structUnit id (s.store.type id) ps t = (.ok unit, u)) : Renders C s id unit.code
  | enum {t u : Session} {unit : EnumUnit} (variant : (s.store.type id).variant = .enum)
      (during : During C s t) (made : enumUnit (s.store.type id) t = (.ok unit, u)) :
      Renders C s id unit.code

/-- The save is that of the unit of the type, when these modules are registered. -/
structure IsUnit (C : Setting) (s : Session) (r : Registry) (id : TypeId) (x : Save) : Prop where
  target : s.typeTarget? r id = some x.toTarget
  text : ∃ code, Renders C s id code ∧ x.text = code.text

theorem IsUnit.grow {r q : Registry} {id : TypeId} {x : Save} (h : IsUnit C s r id x) (more : r <+: q) :
    IsUnit C s q id x := by
  refine ⟨?_, h.text⟩
  obtain ⟨m, found, placed⟩ := Option.bind_eq_some_iff.1 h.target
  exact Option.bind_eq_some_iff.2 ⟨m, find?_grows more found, placed⟩

/-- The units of the types were saved in this order, with nothing but records in between. -/
def Stages (C : Setting) (s : Session) (ids : List TypeId) (t u : Session) : Prop :=
  ∃ xs, Save.Saves xs t.workspace u.workspace ∧ List.Forall₂ (IsUnit C s u.registry) ids xs

theorem Stages.quiet (quiet : t.workspace.Quiet u.workspace) : Stages C s [] t u :=
  ⟨[], .quiet quiet, .nil⟩

theorem Stages.append {ids more : List TypeId} (first : Stages C s ids t u)
    (second : Stages C s more u v) (registry : u.registry <+: v.registry) :
    Stages C s (ids ++ more) t v := by
  obtain ⟨xs, saves, units⟩ := first
  obtain ⟨ys, saves', units'⟩ := second
  exact ⟨xs ++ ys, saves.append saves',
    List.rel_append (units.imp fun _ _ h => h.grow registry) units'⟩

/-- A run that exported what some requests asked for: the types it marked, by a walk if the session
is exact, the extension methods it found, and the units it staged. -/
structure Advances (C : Setting) (s : Session) (requests : List Request)
    (finished : List TypeId) (t u : Session) : Prop where
  during : During C s u
  walk : C.exact → Walk s requests t.exported u.exported finished
  marked : ∀ id, id ∈ u.exported ↔ id ∈ t.exported ∨ id ∈ finished
  fresh : ∀ id ∈ finished, id ∉ t.exported
  nodup : finished.Nodup
  extensions : u.extensions = t.extensions ++ finished.flatMap s.methodsOf
  registry : t.registry <+: u.registry
  stages : Stages C s finished t u

namespace Advances
variable {requests more : List Request} {finished rest : List TypeId}

theorem of_still (h : During C s u) (still : Still [] t u) : Advances C s [] [] t u where
  during := h
  walk _ := by
    rw [still.exported]
    exact .nil _
  marked := by simp [still.exported]
  fresh := by simp
  nodup := .nil
  extensions := still.extensions
  registry := still.registry
  stages := .quiet still.quiet

theorem append (first : Advances C s requests finished t u) (second : Advances C s more rest u v) :
    Advances C s (requests ++ more) (finished ++ rest) t v where
  during := second.during
  walk exact := (first.walk exact).append (second.walk exact)
  marked id := by rw [second.marked, first.marked, List.mem_append, or_assoc]
  fresh id hid := by
    obtain hid | hid := List.mem_append.1 hid
    · exact first.fresh id hid
    · exact fun known => second.fresh id hid ((first.marked id).2 (.inl known))
  nodup := first.nodup.append second.nodup fun id hid hrest =>
    second.fresh id hrest ((first.marked id).2 (.inr hid))
  extensions := by
    rw [second.extensions, first.extensions, List.flatMap_append, List.append_assoc]
  registry := first.registry.trans second.registry
  stages := first.stages.append second.stages second.registry

end Advances

end ScriptGlue.Session
