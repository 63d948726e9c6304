import ScriptGlue.Proofs.Session.Repetition
import ScriptGlue.Proofs.Session.UnitFiles

/-! # Starting again

A start leaves each of the types it asked for exported, or passed over, or refused by its gate, and
none of that changes when it is started again with the same graph: the second start visits in vain,
finds every extension unit in place, and commits nothing.
-/
namespace ScriptGlue.Session
open ScriptGlue.Action

variable {s t u v : Session}

def Registered (r : Registry) (m : NativeModule) : Prop := m.name.isKey ∧ (r.find? m.name).isSome

/-- The type is exported, or passed over, or its gate refuses it; then its module is registered if
it is a class. A visit of it does nothing. -/
def Passes (s : Session) (r : Request) : Prop :=
  r.2 ∈ s.exported ∨ Skips s r.2 ∨ Stays s r.2 ∧ s.grants r = false ∧
    ((s.store.type r.2).isClass → Registered s.registry (s.store.type r.2).home)

/-- Later in a batch: no rule changes, and what is exported and registered stays so. -/
structure Onward (t u : Session) : Prop where
  rules : SameRules t u
  exported : t.exported ⊆ u.exported
  registry : t.registry <+: u.registry

theorem Onward.refl (t : Session) : Onward t t := ⟨.refl t, List.Subset.refl _, List.prefix_rfl⟩

theorem Onward.trans (h : Onward t u) (g : Onward u v) : Onward t v :=
  ⟨h.rules.trans g.rules, List.Subset.trans h.exported g.exported, h.registry.trans g.registry⟩

theorem Registered.grow {r q : Registry} {m : NativeModule} (h : Registered r m) (more : r <+: q) :
    Registered q m := by
  obtain ⟨o, found⟩ := Option.isSome_iff_exists.1 h.2
  exact ⟨h.1, by rw [find?_grows more found]; rfl⟩

theorem Passes.onward {r : Request} (h : t.Passes r) (g : Onward t u) : u.Passes r := by
  obtain known | skips | ⟨stays, refused, registered⟩ := h
  · exact .inl (g.exported known)
  · refine .inr (.inl ?_)
    rw [Skips, g.rules.2]
    exact skips
  · refine .inr (.inr ⟨?_, (g.rules.grants r).trans refused, fun variant => ?_⟩)
    · rw [Stays, g.rules.2]
      exact stays
    · rw [g.rules.2] at variant ⊢
      exact (registered variant).grow g.registry

theorem Reaches.onward {requests : List Request} (h : Reaches anySession s requests t u)
    (ht : During anySession s t) : Onward t u := by
  obtain ⟨finished, h⟩ := h
  exact ⟨ht.rules.symm.trans h.during.rules, fun id hid => (h.marked id).2 (.inl hid), h.registry⟩

theorem register_registered {m : NativeModule} {o : OutputModule}
    (h : register m t = (.ok o, u)) : Registered u.registry m := by
  have found := register_ok h
  rw [register_apply] at h
  split at h
  · next key => exact ⟨key, by rw [found]; rfl⟩
  · cases h

theorem mem_exported_of_marking {id : TypeId} {body : TypeNode → Generation Unit} {x : Unit}
    (fresh : id ∉ t.exported) (keeps : ∀ s node, Keeps (Further s) (Further s) (body node))
    (h : (do
      let node ← typeAt id
      if ← mark id node then body node : Generation Unit) t = (.ok x, u)) : id ∈ u.exported := by
  rw [marked_run body (during_any t) fresh] at h
  have further := (keeps { t with exported := id :: t.exported } _).result
    ⟨List.suffix_refl _, List.prefix_rfl⟩ h
  exact further.exported.subset List.mem_cons_self

section
variable {visit : Visit} (visits : ∀ s force id, Keeps (Further s) (Further s) (visit force id))
  {id : TypeId} {x : Unit} (fresh : id ∉ t.exported)
include fresh

theorem mem_exported_of_interface (h : exportInterface id t = (.ok x, u)) : id ∈ u.exported :=
  mem_exported_of_marking fresh (fun s _ => ((lasting_further s).interfaceUnit trivial).bind
    fun _ => (lasting_further s).saveTypeUnit _ _) h

theorem mem_exported_of_enum (h : exportEnum id t = (.ok x, u)) : id ∈ u.exported :=
  mem_exported_of_marking fresh (fun s _ => ((lasting_further s).enumUnit trivial).bind
    fun _ => (lasting_further s).saveTypeUnit _ _) h

include visits

theorem mem_exported_of_struct (h : exportStruct visit id t = (.ok x, u)) : id ∈ u.exported :=
  mem_exported_of_marking fresh (fun s _ => ((lasting_further s).exportedProperties id).bind
    fun _ => (Keeps.forM fun p _ => keeps_exportDependencies (visits s) p).bind fun _ =>
      ((lasting_further s).structUnit id trivial _).bind fun _ =>
        (lasting_further s).saveTypeUnit _ _) h

theorem mem_exported_of_class (h : exportClass visit id t = (.ok x, u)) : id ∈ u.exported := by
  refine mem_exported_of_marking fresh (fun s node => ?_) h
  have made : Keeps (Further s) (Further s) (do
      let unit ← classUnit visit id node
      saveTypeUnit node unit.code) :=
    ((lasting_further s).classUnit (visits s) id node).bind fun _ =>
      (lasting_further s).saveTypeUnit _ _
  exact .ite ((Keeps.throw (fun _ h => h) _).bind fun _ => made) made

omit visits fresh in
theorem passes_of_gated {force : Bool} (gate : Session → Bool) {export? : Generation Unit}
    (stays : Stays t id) (grants : t.grants (force, id) = (force || gate t))
    (registered : (t.store.type id).isClass → Registered t.registry (t.store.type id).home)
    (exports : export? t = (.ok x, u) → id ∈ u.exported)
    (h : (do if force || gate (← get) then export?) t = (.ok x, u)) : u.Passes (force, id) := by
  obtain ⟨_, _, hget, h⟩ := bind_eq_ok.1 h
  obtain ⟨rfl, rfl⟩ := get_eq_ok.1 hget
  rw [← grants] at h
  split at h
  · exact .inl (exports h)
  · next refused =>
    obtain rfl := (pure_eq_ok.1 h).2
    exact .inr (.inr ⟨stays, Bool.eq_false_iff.2 refused, registered⟩)

theorem passes_of_dispatchClass {force : Bool} (stays : Stays t id)
    (grants : t.grants (force, id) = (force || (isInterface t.store id || t.shouldExportClass id)))
    (h : (do
      let _ ← register (t.store.type id).home
      let s ← get
      if isInterface s.store id then exportInterface id
      else if force || s.shouldExportClass id then exportClass visit id) t = (.ok x, u)) :
    u.Passes (force, id) := by
  obtain ⟨_, v, hregister, h⟩ := bind_eq_ok.1 h
  obtain ⟨hv, still⟩ := Still.of_keeps ((steady_still (knows_anySession t) t).register trivial)
    (during_any t) hregister
  have registered := register_registered hregister
  have fresh : id ∉ v.exported := still.exported ▸ fresh
  obtain ⟨_, _, hget, h⟩ := bind_eq_ok.1 h
  obtain ⟨rfl, rfl⟩ := get_eq_ok.1 hget
  rw [← hv.rules.2] at registered grants
  split at h
  · exact .inl (mem_exported_of_interface fresh h)
  · next plain =>
    refine passes_of_gated (fun s => s.shouldExportClass id) ?_ ?_
      (fun _ => registered) (mem_exported_of_class visits fresh) h
    · rw [Stays, hv.rules.2]
      exact stays
    · rw [hv.rules.grants, grants, (hv.rules.shouldExport id).1]
      simp [plain]

theorem passes_of_dispatch {force : Bool} (stays : Stays t id)
    (h : dispatch visit force id (t.store.type id) t = (.ok x, u)) : u.Passes (force, id) := by
  cases body : (t.store.type id).body with
  | plainClass c =>
    rw [dispatch, body] at h
    exact passes_of_dispatchClass visits fresh stays (by simp [grants, admits, TypeNode.variant, body]) h
  | interface c =>
    rw [dispatch, body] at h
    exact passes_of_dispatchClass visits fresh stays (by simp [grants, admits, TypeNode.variant, body]) h
  | struct ps =>
    rw [dispatch, body] at h
    exact passes_of_gated (fun s => s.shouldExportStruct id) stays
      (by simp [grants, admits, TypeNode.variant, body])
      (by simp [TypeNode.isClass, TypeNode.classBody?, body])
      (mem_exported_of_struct visits fresh) h
  | enum entries underlying =>
    rw [dispatch, body] at h
    exact passes_of_gated (fun s => s.shouldExportEnum id) stays
      (by simp [grants, admits, TypeNode.variant, body])
      (by simp [TypeNode.isClass, TypeNode.classBody?, body])
      (mem_exported_of_enum fresh) h

end

theorem visit_passes {force : Bool} {id : TypeId} {x : Unit} (h : visit force id t = (.ok x, u)) :
    u.Passes (force, id) := by
  obtain ⟨_, _, hget, h⟩ := bind_eq_ok.1 h
  obtain ⟨rfl, rfl⟩ := get_eq_ok.1 hget
  obtain ⟨_, _, hget, h⟩ := bind_eq_ok.1 h
  obtain ⟨rfl, rfl⟩ := get_eq_ok.1 hget
  split at h
  · next known =>
    obtain rfl := (pure_eq_ok.1 h).2
    exact .inl (by simpa using known)
  · next fresh =>
    have fresh : id ∉ t.exported := by simpa using fresh
    obtain ⟨node, _, hnode, h⟩ := bind_eq_ok.1 h
    obtain ⟨_, _, hget, hnode⟩ := bind_eq_ok.1 hnode
    obtain ⟨rfl, rfl⟩ := get_eq_ok.1 hget
    obtain ⟨rfl, rfl⟩ := pure_eq_ok.1 hnode
    obtain ⟨skip, _, hasked, h⟩ := bind_eq_ok.1 h
    obtain ⟨hskip, rfl⟩ := ofExcept_eq_ok.1 hasked
    cases skip with
    | true =>
      obtain ⟨_, v, hnoted, htell⟩ := bind_eq_ok.1 h
      obtain rfl := modify_eq_ok.1 hnoted
      cases htell
      exact .inr (.inl hskip)
    | false =>
      exact passes_of_dispatch (fun s => (lasting_further s).visitWithin _) fresh hskip h

theorem forM_visitRef_passes {force : Bool} {refs : List (Option TypeId)} {x : Unit}
    (h : refs.forM (visitRef force) t = (.ok x, u)) :
    Onward t u ∧ ∀ ref ∈ refs, ∃ id, ref = some id ∧ u.Passes (force, id) := by
  induction refs generalizing t with
  | nil =>
    obtain rfl := (pure_eq_ok.1 h).2
    exact ⟨.refl t, fun _ h => absurd h List.not_mem_nil⟩
  | cons ref refs ih =>
    rw [forM_cons] at h
    obtain ⟨_, v, href, hrest⟩ := bind_eq_ok.1 h
    obtain ⟨rest, others⟩ := ih hrest
    cases ref with
    | none => cases href
    | some id =>
      have first := (visit_walks (knows_anySession t) force id t _ v (during_any t) href).onward
        (during_any t)
      exact ⟨first.trans rest, List.forall_mem_cons.2
        ⟨⟨id, rfl, (visit_passes href).onward rest⟩, others⟩⟩

def Idle (t u : Session) : Prop := ∃ skipped w, t.skipped <:+ skipped ∧ t.workspace.Quiet w ∧
  u = { t with skipped, workspace := w }

theorem Idle.refl (t : Session) : Idle t t := ⟨t.skipped, t.workspace, List.suffix_refl _, .refl _, rfl⟩

theorem Idle.trans (h : Idle t u) (g : Idle u v) : Idle t v := by
  obtain ⟨skipped, w, more, quiet, rfl⟩ := h
  obtain ⟨skipped', w', more', quiet', rfl⟩ := g
  exact ⟨skipped', w', more.trans more', quiet.trans quiet', rfl⟩

theorem Idle.onward (h : Idle t u) : Onward t u := by
  obtain ⟨skipped, w, -, -, rfl⟩ := h
  exact ⟨⟨rfl, rfl⟩, List.Subset.refl _, List.prefix_rfl⟩

theorem register_of_registered {m : NativeModule} (h : Registered t.registry m) :
    ∃ o, register m t = (.ok o, t) := by
  obtain ⟨key, found⟩ := h
  obtain ⟨o, found⟩ := Option.isSome_iff_exists.1 found
  exact ⟨o, by rw [register_apply, if_pos key, found]⟩

theorem dispatch_of_refused {visit : Visit} {force : Bool} {id : TypeId}
    (refused : t.grants (force, id) = false)
    (registered : (t.store.type id).isClass → Registered t.registry (t.store.type id).home) :
    dispatch visit force id (t.store.type id) t = (.ok (), t) := by
  have ofClass (variant : (t.store.type id).isClass)
      (refused : (force || (isInterface t.store id || t.shouldExportClass id)) = false) : (do
      let _ ← register (t.store.type id).home
      let s ← get
      if isInterface s.store id then exportInterface id
      else if force || s.shouldExportClass id then exportClass visit id : Generation Unit) t =
        (.ok (), t) := by
    obtain ⟨o, found⟩ := register_of_registered (registered variant)
    simp only [Bool.or_eq_false_iff] at refused
    obtain ⟨notForced, plain, closed⟩ := refused
    rw [bind_of_ok found]
    simp only [bind_apply, get_apply, plain, notForced, closed]
    rfl
  cases body : (t.store.type id).body with
  | plainClass c =>
    rw [dispatch, body]
    exact ofClass (by simp [TypeNode.isClass, TypeNode.classBody?, body])
      (by simpa [grants, admits, TypeNode.variant, body] using refused)
  | interface c =>
    rw [dispatch, body]
    exact ofClass (by simp [TypeNode.isClass, TypeNode.classBody?, body])
      (by simpa [grants, admits, TypeNode.variant, body] using refused)
  | struct ps =>
    rw [dispatch, body]
    have refused : (force || t.shouldExportStruct id) = false := by
      simpa [grants, admits, TypeNode.variant, body] using refused
    simp only [bind_apply, get_apply, refused]
    rfl
  | enum entries underlying =>
    rw [dispatch, body]
    have refused : (force || t.shouldExportEnum id) = false := by
      simpa [grants, admits, TypeNode.variant, body] using refused
    simp only [bind_apply, get_apply, refused]
    rfl

theorem visit_of_fresh {force : Bool} {id : TypeId} (fresh : id ∉ t.exported) :
    visit force id t = (Action.ofExcept (shouldSkip (t.store.type id)) >>= fun skip =>
      if skip then noteSkipped (t.store.type id)
      else dispatch (visitWithin (t.store.size + 1)) force id (t.store.type id)) t := by
  have fresh : t.exported.contains id = false := by simpa using fresh
  show visitWithin (t.store.size + 1 + 1) force id t = _
  rw [visitWithin]
  simp only [bind_apply, get_apply, fresh]
  rfl

theorem visit_of_passes {force : Bool} {id : TypeId} (h : t.Passes (force, id)) :
    ∃ u, visit force id t = (.ok (), u) ∧ Idle t u := by
  by_cases known : id ∈ t.exported
  · have known : t.exported.contains id := by simpa using known
    refine ⟨t, ?_, .refl t⟩
    show visitWithin (t.store.size + 1 + 1) force id t = _
    rw [visitWithin]
    simp only [bind_apply, get_apply, known]
    rfl
  · rw [visit_of_fresh known]
    obtain skips | ⟨stays, refused, registered⟩ := h.resolve_left known
    · have skips : shouldSkip (t.store.type id) = .ok true := skips
      rw [skips]
      exact ⟨_, rfl, _, _, List.suffix_cons _ _, .record _ _, rfl⟩
    · have stays : shouldSkip (t.store.type id) = .ok false := stays
      rw [stays]
      exact ⟨t, dispatch_of_refused refused registered, .refl t⟩

theorem forM_visitRef_of_passes {force : Bool} {refs : List (Option TypeId)}
    (h : ∀ ref ∈ refs, ∃ id, ref = some id ∧ t.Passes (force, id)) :
    ∃ u, refs.forM (visitRef force) t = (.ok (), u) ∧ Idle t u := by
  induction refs generalizing t with
  | nil => exact ⟨t, rfl, .refl t⟩
  | cons ref refs ih =>
    obtain ⟨⟨id, rfl, passes⟩, others⟩ := List.forall_mem_cons.1 h
    obtain ⟨u, first, idle⟩ := visit_of_passes passes
    obtain ⟨v, rest, idle'⟩ := ih fun ref href => by
      obtain ⟨id, rfl, passes⟩ := others ref href
      exact ⟨id, rfl, passes.onward idle.onward⟩
    rw [forM_cons]
    exact ⟨v, (bind_of_ok (a := visitRef force (some id)) first _).trans rest, idle.trans idle'⟩

/-- Where the units of the exported types and the extension units go. -/
def outputs (s : Session) : List Target := s.targets s.registry s.exported s.extendedModules

/-- The units are called by words, and no directory of one lies at or below the path of another or
of what is staged for it. -/
structure Orderly (s : Session) : Prop where
  bare : '/' ∉ s.fileExtension.plain.toList
  types : ∀ id ∈ s.exported, (s.store.type id).name.Worded
  modules : ∀ e ∈ s.extensions, (s.store.type e.library).home.name.Worded
  ways : ∀ x ∈ s.outputs, ∀ y ∈ s.outputs, ∀ loc ∈ Path.way x.directory, loc ∉ y.places

theorem Orderly.worded (h : s.Orderly) {name : Name} (hname : name ∈ s.extendedModules) :
    name.Worded := by
  obtain ⟨e, he, rfl⟩ := List.mem_map.1 (Value.mem_of_mem_distinct hname)
  exact h.modules e he

theorem Orderly.nodup (h : s.Orderly) : s.extendedModules.Nodup :=
  Value.nodup_distinct fun v hv => by
    obtain ⟨e, he, rfl⟩ := List.mem_map.1 hv
    obtain ⟨word, -, named⟩ := Value.eq_text_of_worded (h.modules e he)
    rw [named]
    rfl

theorem aloof_of_disjoint {x y : Save} (apart : Disjoint x.places y.places)
    (way : ∀ loc ∈ Path.way x.directory, loc ∉ y.places) : Save.Aloof x y.path :=
  fun loc located => ⟨fun here => Set.disjoint_left.1 apart here located,
    fun passed => way loc passed located⟩

theorem off_of_mem {log : Option LogFile} {xs : List Target} {x : Target} (off : LogOff log xs)
    (hx : x ∈ xs) : LogFile.Off log x.places :=
  fun file hfile loc hloc other hother => off file hfile loc hloc other ⟨x, hx, hother⟩

section
variable {ids : List TypeId} {units modules : List Save} (known : ∀ id ∈ ids, id ∈ u.exported)
  (ofType : List.Forall₂ (fun id x => u.typeTarget? u.registry id = some x.toTarget) ids units)
  (ofModule : List.Forall₂ (fun name x => u.moduleTarget? u.registry name = some x.toTarget)
    u.extendedModules modules)
include known ofType ofModule

theorem mem_outputs : ∀ x ∈ units ++ modules, x.toTarget ∈ u.outputs := by
  intro x hx
  obtain hx | hx := List.mem_append.1 hx
  · obtain ⟨id, hid, placed⟩ := exists_of_forall₂ ofType.flip hx
    exact List.mem_append_left _ (List.mem_filterMap.2 ⟨id, known id hid, placed⟩)
  · obtain ⟨name, hname, placed⟩ := exists_of_forall₂ ofModule.flip hx
    exact List.mem_append_right _ (List.mem_filterMap.2 ⟨name, hname, placed⟩)

theorem lone_of_orderly (orderly : u.Orderly) :
    ∀ x ∈ modules, Save.Clean x ∧ Save.Lone x (units ++ modules) := by
  have outputs := mem_outputs known ofType ofModule
  have unitFiles : ∀ y ∈ units, ∃ word, y.IsFile true word u.fileExtension.plain := fun y hy => by
    obtain ⟨id, hid, placed⟩ := exists_of_forall₂ ofType.flip hy
    obtain ⟨word, isWord, named⟩ := Value.eq_text_of_worded (orderly.types id (known id hid))
    exact ⟨word, isFile_of_typeTarget? orderly.bare isWord named placed⟩
  have moduleFiles : ∀ y ∈ modules, ∃ word, y.IsFile false word u.fileExtension.plain :=
    fun y hy => by
      obtain ⟨name, hname, placed⟩ := exists_of_forall₂ ofModule.flip hy
      obtain ⟨word, isWord, rfl⟩ := Value.eq_text_of_worded (orderly.worded hname)
      exact ⟨word, isFile_of_moduleTarget? orderly.bare isWord placed⟩
  have apart : modules.Pairwise fun x y => Disjoint x.places y.places := by
    rw [← List.pairwise_map (f := Save.toTarget) (R := fun x y => Disjoint x.places y.places),
      map_toTarget ofModule fun _ _ h => h]
    refine List.pairwise_filterMap.2 (orderly.nodup.imp_of_mem fun hn hm apart x hx y hy => ?_)
    obtain ⟨word, isWord, rfl⟩ := Value.eq_text_of_worded (orderly.worded hn)
    obtain ⟨word', isWord', rfl⟩ := Value.eq_text_of_worded (orderly.worded hm)
    exact (isFile_of_moduleTarget? orderly.bare isWord hx).disjoint
      (isFile_of_moduleTarget? orderly.bare isWord' hy) (.inr (.inl fun same => apart (by rw [same])))
  intro x hx
  obtain ⟨word, isFile⟩ := moduleFiles x hx
  have output := outputs x (List.mem_append_right _ hx)
  refine ⟨⟨?_, ?_, fun loc => isFile.own, orderly.ways _ output _ output⟩, ?_⟩
  · rw [isFile.filename]
    exact (isFile.bare false).2
  · rw [isFile.filename]
    exact (isFile.bare false).1
  · obtain ⟨before, after, rfl⟩ := List.append_of_mem hx
    refine ⟨units ++ before, after, by simp, fun y hy => ?_⟩
    have member : y ∈ units ++ (before ++ x :: after) := by
      simp only [List.mem_append, List.mem_cons] at hy ⊢
      tauto
    refine aloof_of_disjoint ?_ (orderly.ways _ output _ (outputs y member))
    obtain ⟨-, others, between⟩ := List.pairwise_append.1 apart
    rw [List.append_assoc] at hy
    obtain hy | hy := List.mem_append.1 hy
    · obtain ⟨word', isFile'⟩ := unitFiles y hy
      exact isFile.disjoint isFile' (.inr (.inr (by decide)))
    · obtain hy | hy := List.mem_append.1 hy
      · exact (between y hy x List.mem_cons_self).symm
      · exact (List.pairwise_cons.1 others).1 y hy

end

/-- What a start leaves that decides the next one: no visit has anything to do, and the extension
units are in place. -/
structure Settled (g : Graph) (u : Session) : Prop where
  graph : u.graph = some g
  pending : u.workspace.pending = []
  forced : ∀ ref ∈ u.roots g, ∃ id, ref = some id ∧ u.Passes (true, id)
  others : ∀ ref ∈ g.members.map some, ∃ id, ref = some id ∧ u.Passes (false, id)
  modules : ∃ saves, List.Forall₂ (SavedAgain u) u.extendedModules saves ∧
    ∀ x ∈ saves, x.Rests u.workspace.tree ∧ LogFile.Off u.workspace.log x.places

theorem typeTarget?_of_during {C : Setting} (h : During C s t) (r : Registry) (id : TypeId) :
    t.typeTarget? r id = s.typeTarget? r id := by
  unfold typeTarget? unitFile
  rw [h.rules.2, h.fileExtension]

theorem batch_settles {g : Graph} {x : Unit} (adopted : t.graph = some g)
    (pending : t.workspace.pending = []) (h : batch (t.roots g) (g.members.map some) t = (.ok x, u))
    (orderly : u.Orderly) (off : LogOff t.workspace.log u.outputs) : Settled g u := by
  obtain ⟨v, n, w, hgenerate, hcommit, w', quiet, hu⟩ := batch_ok h
  obtain ⟨_, t₁, hforced, hgenerate⟩ := bind_eq_ok.1 hgenerate
  obtain ⟨_, t₂, htypes, hgenerate⟩ := bind_eq_ok.1 hgenerate
  have first := forM_reaches (fun _ _ _ _ _ ht h => visitRef_reaches (knows_anySession t) ht h)
    (during_any t) hforced
  obtain ⟨finished, advances⟩ := first.trans
    (forM_reaches (fun _ _ _ _ _ ht h => visitRef_reaches (knows_anySession t) ht h) first.during htypes)
  obtain ⟨-, forced⟩ := forM_visitRef_passes hforced
  obtain ⟨onward, others⟩ := forM_visitRef_passes htypes
  obtain ⟨_, _, hget, hmodules⟩ := bind_eq_ok.1 hgenerate
  obtain ⟨rfl, rfl⟩ := get_eq_ok.1 hget
  obtain ⟨units, unitSaves, isUnit⟩ := advances.stages
  obtain ⟨saved, -⟩ := forM_saveExtensions_ok (knows_anySession t) advances.during
    (fun _ _ => .inr trivial) hmodules
  obtain ⟨later, modules, again, moduleSaves⟩ := forM_saveExtensions_again hmodules
  -- from the session with all types visited on, only modules are registered and files change
  have during : During anySession t u := hu ▸ saved.during.files w'
  have later' : Subsequent v u := hu ▸ (Subsequent.refl v).files w'
  have files : u.workspace = w' := hu ▸ rfl
  have exported : u.exported = t₂.exported := (show u.exported = v.exported from hu ▸ rfl).trans saved.exported
  have ended : Onward t₂ u := ⟨advances.during.rules.symm.trans during.rules,
    by rw [exported]; exact fun _ h => h, later.registry.trans later'.registry⟩
  have known : ∀ id ∈ finished, id ∈ u.exported := fun id hid => by
    rw [exported]
    exact (advances.marked id).2 (.inr hid)
  have again : List.Forall₂ (SavedAgain u) u.extendedModules modules := by
    have names : u.extendedModules = t₂.extendedModules := by
      simp only [extendedModules, (later.trans later').extensions, (later.trans later').store]
    rw [names]
    exact again.imp fun _ _ h => h.later later'
  have ofType := isUnit.imp fun id x (h : IsUnit anySession t t₂.registry id x) =>
    (typeTarget?_of_during during u.registry id).trans (h.grow ended.registry).target
  have ofModule : List.Forall₂ (fun name x => u.moduleTarget? u.registry name = some x.toTarget)
      u.extendedModules modules := again.imp fun _ _ h => h.target
  have outputs := mem_outputs known ofType ofModule
  have saves := unitSaves.append moduleSaves
  have inside : ∀ x ∈ units ++ modules, x.places ⊆ {loc | ∃ y ∈ u.outputs, loc ∈ y.places} :=
    fun x hx loc hloc => ⟨x.toTarget, outputs x hx, hloc⟩
  have log : w.log = t.workspace.log := saves.commit_log pending inside off hcommit
  have cleared : w.pending = [] := by
    obtain ⟨m, -, rfl⟩ := Workspace.commit_ok hcommit
    rfl
  have rested : Workspace.Rested w u.workspace := files ▸ quiet.rested
  refine ⟨during.graph.trans adopted, rested.pending.trans cleared, fun ref href => ?_,
    fun ref href => ?_, modules, again, fun x hx => ?_⟩
  · rw [roots, during.rules.2] at href
    obtain ⟨id, rfl, passes⟩ := forced ref href
    exact ⟨id, rfl, passes.onward (onward.trans ended)⟩
  · obtain ⟨id, rfl, passes⟩ := others ref href
    exact ⟨id, rfl, passes.onward ended⟩
  · have off := off_of_mem off (outputs x (List.mem_append_right _ hx))
    obtain ⟨clean, lone⟩ := lone_of_orderly known ofType ofModule orderly x hx
    refine ⟨?_, rested.log.symm ▸ log.symm ▸ off⟩
    exact (saves.commit_rests pending clean lone off hcommit).aside
      (Save.aside_of_rested rested (log.symm ▸ off))

/-- Where everything is settled, a generation visits in vain and stages nothing. -/
theorem Settled.generate {g : Graph} (h : Settled g u) (idle : Idle u t) :
    ∃ v, generate (t.roots g) (g.members.map some) t = (.ok (), v) ∧ ∃ skipped w,
      u.skipped <:+ skipped ∧ Workspace.Rested u.workspace w ∧
        v = { u with skipped, workspace := w } := by
  have same : t.roots g = u.roots g := by
    rw [roots, roots, idle.onward.rules.2]
  obtain ⟨t₁, hforced, first⟩ := forM_visitRef_of_passes fun ref href => by
    obtain ⟨id, rfl, passes⟩ := h.forced ref (same ▸ href)
    exact ⟨id, rfl, passes.onward idle.onward⟩
  obtain ⟨t₂, htypes, second⟩ := forM_visitRef_of_passes fun ref href => by
    obtain ⟨id, rfl, passes⟩ := h.others ref href
    exact ⟨id, rfl, passes.onward (idle.trans first).onward⟩
  obtain ⟨skipped, w, more, quiet, rfl⟩ := (idle.trans first).trans second
  obtain ⟨saves, again, rests⟩ := h.modules
  have rested := quiet.rested
  obtain ⟨w', runs, rested'⟩ := Save.forM_run_of_rests
    (fun x hx => (rests x hx).1.aside (Save.aside_of_rested rested (rests x hx).2))
    fun x hx => rested.log.symm ▸ (rests x hx).2
  have later : Subsequent u { u with skipped, workspace := w } := ⟨rfl, rfl, rfl, rfl, List.prefix_rfl⟩
  refine ⟨_, ?_, skipped, w', more, rested.trans rested', rfl⟩
  refine (bind_of_ok hforced _).trans ((bind_of_ok htypes _).trans ?_)
  exact forM_saveExtensions_of_runs again later runs

/-- After a start that gives a result, a start with the same graph gives a result too. It exports no
type, finds no extension method, registers no module, refuses no member and stages nothing; only
records and notes of types passed over are added, and no file but the log file changes. -/
theorem start_again {g : Graph} {x : Unit} (pending : s.workspace.pending = [])
    (first : start (some g) s = (.ok x, u)) (orderly : u.Orderly)
    (off : LogOff s.workspace.log u.outputs) : ∃ v skipped w,
    generate (u.roots g) (g.members.map some) (u.started g) = (.ok (), v) ∧
      v.workspace.pending = [] ∧
      start (some g) u = (.ok (), { u with skipped, workspace := w }) ∧ u.skipped <:+ skipped ∧
      w.pending = [] ∧ ∀ loc, LogFile.Off u.workspace.log {loc} →
        w.tree.fileAt loc = u.workspace.tree.fileAt loc := by
  have settled : Settled g u := by
    obtain ⟨_, s₁, htell, h⟩ := bind_eq_ok.1 first
    obtain ⟨_, s₂, hadopt, h⟩ := bind_eq_ok.1 h
    cases htell
    obtain rfl := modify_eq_ok.1 hadopt
    obtain ⟨_, _, hstore, hbatch⟩ := bind_eq_ok.1 h
    obtain ⟨rfl, rfl⟩ := get_eq_ok.1 hstore
    have quiet := (Workspace.Quiet.record s.workspace
      ⟨.info, .session, "=== Generating C# glue:"⟩).rested
    exact batch_settles (t := s.started g) rfl (quiet.pending.trans pending) hbatch orderly
      (quiet.log.symm ▸ off)
  have idle : Idle u (u.started g) := by
    have adopted := settled.graph
    refine ⟨u.skipped, _, List.suffix_refl _, .record _ ⟨.info, .session, "=== Generating C# glue:"⟩, ?_⟩
    rw [started, ← adopted]
  obtain ⟨v, hgenerate, skipped, w, more, rested, rfl⟩ := settled.generate idle
  have empty : w.pending = [] := rested.pending.trans settled.pending
  have hcommit : Workspace.commit w = (.ok 0, { w with pending := [] }) := by
    simp only [Workspace.commit, bind_apply, get_apply, empty]
    rfl
  obtain ⟨u', hbatch, w', quiet, rfl⟩ := batch_of_ok hgenerate hcommit
  have hstart : start (some g) u = (.ok (), _) := hbatch
  have rested' := quiet.rested
  refine ⟨_, skipped, w', hgenerate, empty, hstart, more, rested'.pending, fun loc off => ?_⟩
  exact (rested'.files loc (rested.log.symm ▸ off)).trans (rested.files loc off)

/-- A function library with an extension method, an enum that is passed over, and a class that the
gate refuses. -/
def libraryDocument : Value :=
  .object [("types", .list [
    .object [("kind", .text "class"), ("name", functionLibraryClass), ("module", .text "M"),
      ("functions", .list [.object [("name", .text "F"),
        ("flags", .list [.text "static", .text "blueprint_callable"]),
        ("params", .list [.object [("name", .text "WorldContext"), ("kind", .text "bool")]])]])],
    .object [("kind", .text "enum"), ("name", .text "E"), ("module", .text "M"),
      ("flags", .list [.text "transient_package"])],
    .object [("kind", .text "class"), ("name", .text "C"), ("module", .text "N")]])]

/-- Where the unit of the library and the extension unit of its module go. -/
abbrev libraryUnits : List Target :=
  [{ directory := "out", filename := "BlueprintFunctionLibrary.generated.cs" },
    { directory := "out", filename := "MModule.cs" }]

def librarySession : Session := fresh {} { scriptsDir := .text "out" } (.text ".cs") {}

theorem librarySession_runs : (readGraph libraryDocument).gives librarySession fun g s =>
    s.workspace.pending == [] && s.workspace.log.isNone && (start (some g)).gives s fun _ u =>
      u.exported == [0] && u.extensions.length == 1 && u.skipped.length == 1 &&
        u.fileExtension == .text ".cs" && u.outputs == libraryUnits &&
        decide (∀ id ∈ u.exported, (u.store.type id).name.Worded) &&
        decide (∀ e ∈ u.extensions, (u.store.type e.library).home.name.Worded) := by
  rw [start_eq_direct]
  decide +kernel

theorem libraryUnits_ways : ∀ x ∈ libraryUnits, ∀ y ∈ libraryUnits, ∀ loc ∈ Path.way x.directory,
    Path.location? y.path ≠ some loc ∧ Path.location? y.staged ≠ some loc := by decide +kernel

theorem start_again_of_library : ∃ g s u, readGraph libraryDocument librarySession = (.ok g, s) ∧
    s.workspace.pending = [] ∧ start (some g) s = (.ok (), u) ∧ u.Orderly ∧
      LogOff s.workspace.log u.outputs ∧ u.extensions.length = 1 ∧ u.skipped.length = 1 ∧
      ∃ v skipped w, generate (u.roots g) (g.members.map some) (u.started g) = (.ok (), v) ∧
        v.workspace.pending = [] ∧
        start (some g) u = (.ok (), { u with skipped, workspace := w }) ∧ u.skipped <:+ skipped ∧
        w.pending = [] ∧ ∀ loc, LogFile.Off u.workspace.log {loc} →
          w.tree.fileAt loc = u.workspace.tree.fileAt loc := by
  obtain ⟨g, s, hread, runs⟩ := exists_of_gives librarySession_runs
  simp only [Bool.and_eq_true, beq_iff_eq, Option.isNone_iff_eq_none] at runs
  obtain ⟨⟨pending, log⟩, runs⟩ := runs
  obtain ⟨_, u, hstart, runs⟩ := exists_of_gives runs
  simp only [Bool.and_eq_true, beq_iff_eq, decide_eq_true_eq] at runs
  obtain ⟨⟨⟨⟨⟨⟨exported, methods⟩, skipped⟩, extension⟩, outputs⟩, types⟩, modules⟩ := runs
  have orderly : u.Orderly := by
    refine ⟨?_, types, modules, ?_⟩
    · rw [extension]
      decide
    · rw [outputs]
      intro x hx y hy loc hloc
      obtain ⟨place, staged⟩ := libraryUnits_ways x hx y hy loc hloc
      exact fun here => here.elim place staged
  have off : LogOff s.workspace.log u.outputs := fun file hfile => by
    cases log.symm.trans hfile
  exact ⟨g, s, u, hread, pending, hstart, orderly, off, methods, skipped,
    start_again pending hstart orderly off⟩

end ScriptGlue.Session
