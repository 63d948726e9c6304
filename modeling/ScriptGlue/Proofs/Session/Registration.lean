import ScriptGlue.Proofs.Session.Batch
import ScriptGlue.Proofs.Session.Faults

/-! # Registration

A module that is presented joins those registered, with the directory that the packaging gives it,
unless its name is registered already. A generation presents the modules of the types it reads and
the module of the worlds, as the graph has them. Before extension methods of a type are collected the
module of the type is registered, so the saves of extension methods, who ask by name only, find
theirs. And every unit is saved in the directory of its module.
-/
namespace ScriptGlue
open ScriptGlue.Action

/-- What a module is registered as, if it has a directory. -/
def Packaging.entry? (p : Packaging) (m : NativeModule) : Option OutputModule :=
  match p.directory m with
  | .ok directory => if directory.truthy then some { name := m.name, directory } else none
  | .error _ => none

theorem Packaging.entry?_eq_some {p : Packaging} {m : NativeModule} {e : OutputModule} :
    p.entry? m = some e ↔ p.directory m = .ok e.directory ∧ e.directory.truthy ∧ e.name = m.name := by
  obtain ⟨name, directory⟩ := e
  unfold Packaging.entry?
  cases p.directory m with
  | error _ => simp
  | ok found =>
    by_cases truthy : found.truthy
    · simp only [truthy, if_true, Option.some.injEq, OutputModule.mk.injEq, Except.ok.injEq]
      constructor
      · rintro ⟨rfl, rfl⟩
        exact ⟨rfl, truthy, rfl⟩
      · rintro ⟨rfl, -, rfl⟩
        exact ⟨rfl, rfl⟩
    · simp only [truthy, Bool.false_eq_true, if_false, reduceCtorEq, false_iff, Except.ok.injEq]
      rintro ⟨rfl, holds, -⟩
      exact truthy holds

def Packaging.entryOf? (p : Packaging) (word : String) (m : NativeModule) : Option OutputModule :=
  if m.name = .text word then p.entry? m else none

namespace Registry
variable {p : Packaging} {r : Registry} {m : NativeModule} {ms : List NativeModule} {word : String}

def present (p : Packaging) (r : Registry) (m : NativeModule) : Registry :=
  if r.contains m.name then r else r ++ (p.entry? m).toList

theorem find?_text {e : OutputModule} (found : r.find? (.text word) = some e) :
    e.name = .text word :=
  (Value.alike_text_right _ _).1
    (List.find?_some (p := fun m : OutputModule => m.name.alike (.text word)) found)

theorem find?_entry {e : OutputModule} (entry : p.entry? m = some e) :
    find? [e] (.text word) = p.entryOf? word m := by
  obtain ⟨-, -, name⟩ := Packaging.entry?_eq_some.1 entry
  rw [Packaging.entryOf?, find?, List.find?_singleton, entry, name]
  by_cases same : m.name = .text word
  · simp [same]
  · simp [same, Value.alike_text_right]

theorem find?_append (r q : Registry) (name : Name) :
    find? (r ++ q) name = (r.find? name).or (q.find? name) := List.find?_append

theorem find?_present : (r.present p m).find? (.text word) =
    (r.find? (.text word)).or (p.entryOf? word m) := by
  unfold present contains
  split
  · next known =>
    by_cases same : m.name = .text word
    · rw [same] at known
      obtain ⟨e, found⟩ := Option.isSome_iff_exists.1 known
      rw [found]
      rfl
    · rw [Packaging.entryOf?, if_neg same, Option.or_none]
  · rw [find?_append]
    congr 1
    cases entry : p.entry? m with
    | none => simp [Packaging.entryOf?, entry, find?]
    | some e => exact find?_entry entry

/-- The first module presented under a text that has a directory is found from then on. -/
theorem find?_foldl_present (ms : List NativeModule) (r : Registry) :
    (ms.foldl (present p) r).find? (.text word) =
      (r.find? (.text word)).or (ms.findSome? (p.entryOf? word)) := by
  induction ms generalizing r with
  | nil => exact (Option.or_none).symm
  | cons m ms ih =>
    rw [List.foldl_cons, ih, find?_present, Option.or_assoc, List.findSome?_cons]
    cases p.entryOf? word m <;> rfl

def Indexed (r : Registry) : Prop :=
  ∀ e ∈ r, ∀ word, e.name = .text word → r.find? (.text word) = some e

theorem Indexed.present (h : r.Indexed) : (r.present p m).Indexed := by
  intro e he word named
  rw [find?_present]
  unfold Registry.present at he
  split at he
  · rw [h e he word named]
    rfl
  · next unknown =>
    obtain old | new := List.mem_append.1 he
    · rw [h e old word named]
      rfl
    · have entry := Option.mem_toList.1 new
      obtain ⟨-, -, name⟩ := Packaging.entry?_eq_some.1 entry
      rw [name] at named
      have missing : r.find? (.text word) = none := by simpa [contains, named] using unknown
      rw [missing, Packaging.entryOf?, if_pos named, entry]
      rfl

theorem indexed_foldl_present (h : r.Indexed) (ms : List NativeModule) :
    (ms.foldl (Registry.present p) r).Indexed := by
  induction ms generalizing r with
  | nil => exact h
  | cons m ms ih => exact ih h.present

/-- The namespace of a module is told by its name, whether it is registered or not. -/
theorem spaceOf_text (r : Registry) (word : String) :
    r.spaceOf (.text word) = Naming.moduleNamespace word := by
  unfold spaceOf
  split
  · next e found => rw [OutputModule.space, OutputModule.label, find?_text found, Value.plain]
  · rfl

end Registry

namespace Session
open Registry

variable {H : NativeModule → Prop} {b s t u : Session} {m : NativeModule} {known : OutputModule}

/-- To register a module is to present it; a fault leaves the session as it was. -/
theorem register_presents (key : m.name.isKey) (s : Session) :
    match register m s with
    | (.ok known, t) => t.registry = s.registry.present s.packaging m ∧
        t.registry.find? m.name = some known
    | (.error _, t) => t = s ∧ s.registry.present s.packaging m = s.registry := by
  have found {known : OutputModule} {t : Session} (h : register m s = (.ok known, t)) :
      t.registry.find? m.name = some known := register_ok h
  rw [register_apply, if_pos key] at found ⊢
  cases hfind : s.registry.find? m.name with
  | some known => exact ⟨by simp [Registry.present, Registry.contains, hfind], hfind⟩
  | none =>
    rw [hfind] at found
    unfold Registry.present Registry.contains Packaging.entry?
    cases hdirectory : s.packaging.directory m with
    | error e => simp [hfind]
    | ok directory =>
      simp only [hdirectory] at found
      by_cases truthy : directory.truthy
      · simp only [truthy, if_true, hfind] at found ⊢
        exact ⟨by simp [registering], found rfl⟩
      · simp [truthy, hfind]

theorem isKey_of_register (h : register m s = (.ok known, t)) : m.name.isKey := by
  rw [register_apply] at h
  split at h
  · assumption
  · cases h

/-- The modules registered first become the others by runs of `register`, with these modules one after
the other. The condition is on each of them and on the session in which it is handed over. -/
inductive Registers (K : Session → NativeModule → Prop) :
    List NativeModule → Registry → Registry → Prop
  | nothing (r : Registry) : Registers K [] r r
  | next {ms : List NativeModule} {r : Registry} {m : NativeModule} {known : OutputModule}
      {s t : Session} : Registers K ms r s.registry → K s m → register m s = (.ok known, t) →
      Registers K (ms ++ [m]) r t.registry

def Presents (K : Session → NativeModule → Prop) (r q : Registry) : Prop :=
  ∃ ms, Registers K ms r q

section
variable {K K' : Session → NativeModule → Prop} {p : Packaging} {ms ns : List NativeModule}
  {r q w : Registry}

namespace Registers

theorem trans (h : Registers K ms r q) (g : Registers K ns q w) : Registers K (ms ++ ns) r w := by
  induction g with
  | nothing => rwa [List.append_nil]
  | next _ hm ran ih =>
    rw [← List.append_assoc]
    exact .next (ih h) hm ran

theorem imp (h : Registers K ms r q) (weaker : ∀ s m, K s m → K' s m) : Registers K' ms r q := by
  induction h with
  | nothing => exact .nothing _
  | next _ hm ran ih => exact .next ih (weaker _ _ hm) ran

theorem all (h : Registers K ms r q) : ∀ m ∈ ms, ∃ s, K s m := by
  induction h with
  | nothing => exact fun _ hm => absurd hm List.not_mem_nil
  | next _ hm _ ih => exact List.forall_mem_append.2 ⟨ih, List.forall_mem_singleton.2 ⟨_, hm⟩⟩

theorem eq_foldl (h : Registers K ms r q) (packaged : ∀ s m, K s m → s.packaging = p) :
    q = ms.foldl (present p) r := by
  induction h with
  | nothing => rfl
  | @next ms r m known s t _ hm ran ih =>
    have presents := register_presents (isKey_of_register ran) s
    rw [ran] at presents
    rw [List.foldl_append, ← ih, ← packaged s m hm]
    exact presents.1

end Registers

namespace Presents

theorem refl (r : Registry) : Presents K r r := ⟨[], .nothing r⟩

theorem trans (h : Presents K r q) (g : Presents K q w) : Presents K r w := by
  obtain ⟨ms, h⟩ := h
  obtain ⟨ns, g⟩ := g
  exact ⟨ms ++ ns, h.trans g⟩

theorem imp (h : Presents K r q) (weaker : ∀ s m, K s m → K' s m) : Presents K' r q := by
  obtain ⟨ms, h⟩ := h
  exact ⟨ms, h.imp weaker⟩

/-- What is registered was so before, or is a module that was handed over. -/
theorem origin (h : Presents K r q) (packaged : ∀ s m, K s m → s.packaging = p) {e : OutputModule}
    (he : e ∈ q) : e ∈ r ∨ ∃ s m, K s m ∧ p.entry? m = some e := by
  obtain ⟨ms, h⟩ := h
  induction h with
  | nothing => exact .inl he
  | @next ms r m known s t _ hm ran ih =>
    have presents := register_presents (isKey_of_register ran) s
    rw [ran] at presents
    rw [presents.1, present, packaged s m hm] at he
    split at he
    · exact ih he
    · obtain old | new := List.mem_append.1 he
      · exact ih old
      · exact .inr ⟨s, m, hm, Option.mem_toList.1 new⟩

theorem joined (h : Presents K r s.registry) (hm : K s m) (key : m.name.isKey)
    (unknown : s.registry.find? m.name = none) {directory : Value}
    (found : s.packaging.directory m = .ok directory) (truthy : directory.truthy) :
    Presents K r (s.registry ++ [{ name := m.name, directory }]) := by
  obtain ⟨ms, h⟩ := h
  have ran : register m s = (.ok { name := m.name, directory },
      s.registering { name := m.name, directory }) := by
    rw [register_apply, if_pos key, unknown]
    simp only [found, truthy, if_true]
  exact ⟨ms ++ [m], .next h hm ran⟩

end Presents

end

/-- A file of a module has that name: the unit of one of its types, or of its extension methods. -/
def FileOf (s : Session) (r : Registry) (m : OutputModule) (filename : String) : Prop :=
  (∃ id, r.find? (s.store.type id).home.name = some m ∧ filename = s.unitFile id) ∨
    ∃ name, r.find? name = some m ∧ filename = m.unitName ++ s.fileExtension.plain

def Shelved (s : Session) (r : Registry) (x : Target) : Prop :=
  ∃ m, s.FileOf r m x.filename ∧ m.directory = .text x.directory

theorem FileOf.grow {r q : Registry} {filename : String} (h : s.FileOf r known filename)
    (more : r <+: q) : s.FileOf q known filename :=
  h.imp (fun ⟨id, found, named⟩ => ⟨id, find?_grows more found, named⟩)
    fun ⟨name, found, named⟩ => ⟨name, find?_grows more found, named⟩

theorem Shelved.grow {r q : Registry} {x : Target} (h : s.Shelved r x) (more : r <+: q) :
    s.Shelved q x := by
  obtain ⟨m, file, directory⟩ := h
  exact ⟨m, file.grow more, directory⟩

theorem Shelved.of_same {r : Registry} {x : Target} (h : s.Shelved r x) (store : t.store = s.store)
    (fileExtension : t.fileExtension = s.fileExtension) : t.Shelved r x := by
  unfold Shelved FileOf unitFile at *
  rwa [store, fileExtension]

def Shelves (s : Session) (r : Registry) (w v : Workspace) : Prop :=
  ∃ xs, Save.Saves xs w v ∧ ∀ x ∈ xs, s.Shelved r x.toTarget

def ShelvesUntil (s : Session) (r : Registry) (w v : Workspace) : Prop :=
  ∃ u, s.Shelves r w u ∧
    (v = u ∨ ∃ x : Save, ∃ e, s.Shelved r x.toTarget ∧ x.run u = (.error e, v))

/-- What is known of the files outlives records, registrations and saves to the directories of
modules. -/
structure Shelving (b : Session) (W V : Registry → Workspace → Prop) : Prop where
  faulted : ∀ r w, W r w → V r w
  recorded : ∀ r w e, W r w → W r (w.record e)
  grown : ∀ r m w, W r w → W (r ++ [m]) w
  saved : ∀ r (x : Save), b.Shelved r x.toTarget → Keeps (W r) (V r) x.run

theorem shelving_shelves (b : Session) : Shelving b (fun r => b.Shelves r b.workspace)
    fun r => b.ShelvesUntil r b.workspace where
  faulted r w h := ⟨w, h, .inl rfl⟩
  recorded r w e h := by
    obtain ⟨xs, saves, good⟩ := h
    exact ⟨xs, by simpa using saves.append (.quiet (.record w e)), good⟩
  grown r m w h := by
    obtain ⟨xs, saves, good⟩ := h
    exact ⟨xs, saves, fun x hx => (good x hx).grow (List.prefix_append _ _)⟩
  saved r x shelved := by
    refine ⟨fun {v w _} h ran => ?_, fun {v w e} h ran => ⟨v, h, .inr ⟨x, e, shelved, ran⟩⟩⟩
    obtain ⟨xs, saves, good⟩ := h
    exact ⟨xs ++ [x], .save saves ran (.refl w),
      List.forall_mem_append.2 ⟨good, List.forall_mem_singleton.2 shelved⟩⟩

theorem shelving_anywhere (b : Session) : Shelving b (fun _ _ => True) fun _ _ => True where
  faulted _ _ _ := trivial
  recorded _ _ _ _ := trivial
  grown _ _ _ _ := trivial
  saved _ _ _ := .of_outcome fun _ _ => trivial

def Lodged (r : Registry) (t : TypeNode) : Prop := (r.find? t.home.name).isSome

theorem Lodged.joined {r : Registry} {t : TypeNode} (h : Lodged r t) (m : OutputModule) :
    Lodged (r ++ [m]) t := isSome_find?_grows (List.prefix_append _ _) h

/-- In this session, with the types, the graph and the packaging of the other, such a module is handed
over. -/
def HandsOver (H : NativeModule → Prop) (b s : Session) (m : NativeModule) : Prop :=
  H m ∧ s.store = b.store ∧ s.graph = b.graph ∧ s.packaging = b.packaging

/-- Since that session modules for which `H` holds were presented, and that is known of the files. -/
structure Lodges (H : NativeModule → Prop) (b : Session) (W : Registry → Workspace → Prop)
    (s : Session) : Prop where
  store : s.store = b.store
  graph : s.graph = b.graph
  packaging : s.packaging = b.packaging
  fileExtension : s.fileExtension = b.fileExtension
  presents : Presents (HandsOver H b) b.registry s.registry
  methods : ∀ e ∈ s.extensions, Lodged s.registry (b.store.type e.library)
  written : W s.registry s.workspace

section
variable {W V : Registry → Workspace → Prop} (shelving : Shelving b W V)
include shelving

theorem gated_lodges : Gated (Lodges H b W) (Lodges H b V) where
  faulted _ h := { h with written := shelving.faulted _ _ h.written }
  refused _ _ h := { h with }
  accepted _ _ _ _ h := { h with }

variable (homes : ∀ id, H (b.store.type id).home)
  (declared : ∀ name m, b.findModule? name = some m → H m)
include homes declared

theorem steady_lodges : Steady H (Lodges H b W) (Lodges H b V) where
  toAsking := (gated_lodges shelving).asking
  recorded _ r h := { h with written := shelving.recorded _ _ r h.written }
  registered s m directory hm key unknown found truthy h := { h with
    presents := h.presents.joined ⟨hm, h.store, h.graph, h.packaging⟩ key unknown found truthy
    methods := fun e he => (h.methods e he).joined _
    written := shelving.grown _ _ _ h.written }
  measured ref := (gated_lodges shelving).isStructBlittable (fun _ _ h => { h with }) ref
  home s id h := by
    rw [h.store]
    exact homes id
  declared s name m h found := by
    rw [findModule?, h.graph] at found
    exact declared name m found

omit homes declared in
/-- A save to the directory of a module. What is known of the registered modules stays. -/
theorem saveUnit_lodges {P : Registry → Prop} {filename : String}
    (file : ∀ r, P r → b.FileOf r known filename) (text : String) :
    Keeps (fun s => Lodges H b W s ∧ P s.registry) (Lodges H b V)
      (saveUnit known filename text) := by
  rw [saveUnit_eq]
  split
  · next target placed =>
    obtain ⟨directory, rfl⟩ : known.directory = .text target.directory ∧
        filename = target.filename := by
      unfold target? at placed
      split at placed
      · next directory =>
        cases placed
        exact ⟨directory, rfl⟩
      · cases placed
    have saved (r : Registry) (h : P r) :=
      shelving.saved r { target with text } ⟨known, file r h, directory⟩
    constructor
    all_goals
      intro s t x hs ran
      rcases save : Save.run { target with text } s.workspace with ⟨result, w⟩
      rw [onWorkspace, within, save] at ran
      cases ran
    · exact ⟨{ hs.1 with written := (saved _ hs.2).result hs.1.written save }, hs.2⟩
    · exact { hs.1 with written := (saved _ hs.2).fault hs.1.written save }
  · exact .throw (fun s h => (gated_lodges shelving).faulted s h.1) _

theorem saveTypeUnit_lodges (id : TypeId) (code : Code) :
    Keeps (Lodges H b W) (Lodges H b V) (saveTypeUnit (b.store.type id) code) := by
  refine ((steady_lodges shelving homes declared).register (homes id)).bind_gain (P := fun m s =>
    s.registry.find? (b.store.type id).home.name = some m) (fun _ ran => register_ok ran) fun m => ?_
  refine Keeps.get_bind fun s hs => ?_
  have named : (b.store.type id).label ++ ".generated" ++ s.fileExtension.plain = b.unitFile id := by
    rw [hs.1.fileExtension, unitFile]
  exact saveUnit_lodges shelving (fun r found => .inl ⟨id, found, named⟩) code.text

theorem saveExtensions_lodges {names : List Name} {name : Name} (hname : name ∈ names) :
    Keeps (fun s => Lodges H b W s ∧ ∀ name ∈ names, (s.registry.find? name).isSome) (Lodges H b V)
      (saveExtensions name) := by
  have knowing {P : Registry → Prop} (grown : ∀ r m, P r → P (r ++ [m])) :=
    (inert_of_registry (P := fun _ => P) fun _ => grown).steady
  have steady := (steady_lodges shelving homes declared).and
    (knowing (P := fun r => ∀ name ∈ names, (r.find? name).isSome) fun _ _ all name hname =>
      isSome_find?_grows (List.prefix_append _ _) (all name hname))
  refine (steady.registerByName fun s hs => .inl (hs.2 name hname)).bind_gain
    (P := fun m s => s.registry.find? name = some m)
    (fun _ ran => register_ok (register_of_registerByName ran)) fun m => ?_
  refine Keeps.get_bind fun s hs => ?_
  refine ((steady.and (knowing (P := fun r => r.find? name = some m) fun _ _ =>
    find?_grows (List.prefix_append _ _))).extensionUnit m _).bind fun unit => ?_
  simp only [and_assoc]
  refine saveUnit_lodges shelving (P := fun r =>
    (∀ name ∈ names, (r.find? name).isSome) ∧ r.find? name = some m)
    (fun r found => .inr ⟨name, found.2, ?_⟩) unit.code.text
  rw [hs.1.1.fileExtension]

theorem saveModuleUnits_lodges : Keeps (Lodges H b W) (Lodges H b V) saveModuleUnits := by
  refine Keeps.get_bind_of (P := fun s t => ∀ name ∈ s.extendedModules,
    (t.registry.find? name).isSome) fun s hs => ⟨fun name hname => ?_, .forM fun name hname =>
      saveExtensions_lodges shelving homes declared hname⟩
  obtain ⟨e, he, rfl⟩ := List.mem_map.1 (Value.mem_of_mem_distinct hname)
  rw [hs.store]
  exact hs.methods e he

theorem sustained_lodges : Sustained H (fun id s => Lodged s.registry (b.store.type id))
    (Lodges H b W) (Lodges H b V) where
  toSteady := steady_lodges shelving homes declared
  marked _ _ h := { h with }
  passedOver _ _ h := { h with }
  typeUnit s id code h := by
    rw [h.store]
    exact saveTypeUnit_lodges shelving homes declared id code
  moduleUnits := saveModuleUnits_lodges shelving homes declared
  entered s id h t x u _ ran := by
    rw [h.store] at ran
    obtain ⟨m, v, registered, ran⟩ := bind_eq_ok.1 ran
    obtain ⟨-, rfl⟩ := pure_eq_ok.1 ran
    rw [Lodged, register_ok registered]
    rfl
  stays id := (lasting_of_registry (P := fun _ r => Lodged r (b.store.type id)) fun _ _ m h =>
    h.joined m).visitWithin
  collecting id :=
    { toSteady := (steady_lodges shelving homes declared).and
        (inert_of_registry (P := fun _ r => Lodged r (b.store.type id)) fun _ _ m h =>
          h.joined m).steady
      extended := fun s e he hs => by
        refine ⟨{ hs.1 with methods := ?_ }, hs.2⟩
        refine List.forall_mem_append.2 ⟨hs.1.methods, List.forall_mem_singleton.2 ?_⟩
        rw [he]
        exact hs.2 }

end

end Session

end ScriptGlue
