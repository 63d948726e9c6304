import ScriptGlue.Proofs.Files.Keeping
import ScriptGlue.Proofs.Session.Reachability

/-! # Files of exported types

The file of a unit is named by its type alone, and modules share their directories. So the units of
one start keep their files if exported types of the same name go to different directories; the
extension units never come in their way.
-/
namespace ScriptGlue
open ScriptGlue.Action

namespace Value

def Worded : Value → Prop
  | .text word => IsWord word
  | _ => False

instance : DecidablePred Worded
  | .text word => inferInstanceAs (Decidable (IsWord word))
  | .null | .bool _ | .int _ | .real _ | .list _ | .object _ => inferInstanceAs (Decidable False)

theorem eq_text_of_worded {v : Value} (h : v.Worded) : ∃ word, IsWord word ∧ v = .text word := by
  cases v with
  | text word => exact ⟨word, h, rfl⟩
  | _ => cases h

end Value

def TypeStore.Worded (σ : TypeStore) : Prop := ∀ id < σ.size,
  (σ.type id).name.Worded ∧ (σ.type id).home.name.Worded

instance (σ : TypeStore) : Decidable σ.Worded :=
  inferInstanceAs (Decidable (∀ id < σ.size, (σ.type id).name.Worded ∧ (σ.type id).home.name.Worded))

namespace Session

variable {C : Setting} {s t u : Session} {r : Registry} {id : TypeId} {x : Target} {word : String}

def folder? (s : Session) (r : Registry) (id : TypeId) : Option Location :=
  (s.typeTarget? r id).map fun x => Path.folder x.directory

/-- Different types among these differ in their names or in their directories. -/
def Distinguished (s : Session) (r : Registry) (ids : List TypeId) : Prop :=
  ∀ i ∈ ids, ∀ j ∈ ids, i ≠ j →
    (s.store.type i).name ≠ (s.store.type j).name ∨ s.folder? r i ≠ s.folder? r j

theorem filename_of_target? {m : OutputModule} {filename : String} (h : target? m filename = some x) :
    x.filename = filename := by
  unfold target? at h
  split at h <;> cases h
  rfl

theorem isFile_of_typeTarget? (bare : '/' ∉ s.fileExtension.plain.toList) (isWord : IsWord word)
    (named : (s.store.type id).name = .text word) (h : s.typeTarget? r id = some x) :
    x.IsFile true word s.fileExtension.plain := by
  obtain ⟨m, -, placed⟩ := Option.bind_eq_some_iff.1 h
  refine ⟨?_, isWord, bare⟩
  rw [filename_of_target? placed, unitFile, TypeNode.label, named]
  simp [unitName, Value.plain, String.append_assoc]

theorem isFile_of_moduleTarget? (bare : '/' ∉ s.fileExtension.plain.toList) (isWord : IsWord word)
    (h : s.moduleTarget? r (.text word) = some x) : x.IsFile false word s.fileExtension.plain := by
  obtain ⟨m, found, placed⟩ := Option.bind_eq_some_iff.1 h
  have alike : m.name.alike (.text word) = true :=
    List.find?_some (p := fun m : OutputModule => m.name.alike (.text word)) found
  have named := (Value.alike_text_right _ _).1 alike
  refine ⟨?_, isWord, bare⟩
  rw [filename_of_target? placed, OutputModule.unitName, OutputModule.label, named]
  simp [unitName, Value.plain, String.append_assoc]

section
variable (bare : '/' ∉ s.fileExtension.plain.toList) (worded : s.store.Worded)
include bare worded

theorem disjoint_types {i j : TypeId} (hi : i < s.store.size) (hj : j < s.store.size)
    (differ : (s.store.type i).name ≠ (s.store.type j).name ∨ s.folder? r i ≠ s.folder? r j)
    {y : Target} (hx : s.typeTarget? r i = some x) (hy : s.typeTarget? r j = some y) :
    Disjoint x.places y.places := by
  obtain ⟨v, isWord, named⟩ := Value.eq_text_of_worded (worded i hi).1
  obtain ⟨w, isWord', named'⟩ := Value.eq_text_of_worded (worded j hj).1
  refine (isFile_of_typeTarget? bare isWord named hx).disjoint
    (isFile_of_typeTarget? bare isWord' named' hy) ?_
  obtain names | folders := differ
  · exact .inr (.inl fun same => names (by rw [named, named', same]))
  · exact .inl fun same => folders (by simp only [folder?, hx, hy, Option.map_some, same])

/-- If types of one name go to different directories, all units have places of their own. -/
theorem separate_targets {ids : List TypeId} (nodup : ids.Nodup) (known : ∀ id ∈ ids, id < s.store.size)
    (distinguished : s.Distinguished r ids) {names : List Name} (different : names.Nodup)
    (words : ∀ name ∈ names, name.Worded) :
    Target.Separate (s.targets r ids names) := by
  have ofType {x : Target} (hx : x ∈ ids.filterMap (s.typeTarget? r)) :
      ∃ word, x.IsFile true word s.fileExtension.plain := by
    obtain ⟨id, hid, placed⟩ := List.mem_filterMap.1 hx
    obtain ⟨word, isWord, named⟩ := Value.eq_text_of_worded (worded id (known id hid)).1
    exact ⟨word, isFile_of_typeTarget? bare isWord named placed⟩
  have ofModule {x : Target} (hx : x ∈ names.filterMap (s.moduleTarget? r)) :
      ∃ word, x.IsFile false word s.fileExtension.plain := by
    obtain ⟨name, hname, placed⟩ := List.mem_filterMap.1 hx
    obtain ⟨word, isWord, rfl⟩ := Value.eq_text_of_worded (words name hname)
    exact ⟨word, isFile_of_moduleTarget? bare isWord placed⟩
  constructor
  · intro x hx loc located
    obtain hx | hx := List.mem_append.1 hx
    · obtain ⟨_, isFile⟩ := ofType hx
      exact isFile.own located
    · obtain ⟨_, isFile⟩ := ofModule hx
      exact isFile.own located
  · refine List.pairwise_append.2 ⟨?_, ?_, fun x hx y hy => ?_⟩
    · refine List.pairwise_filterMap.2 (nodup.imp_of_mem fun hi hj apart x hx y hy => ?_)
      exact disjoint_types bare worded (known _ hi) (known _ hj) (distinguished _ hi _ hj apart) hx hy
    · refine List.pairwise_filterMap.2 (different.imp_of_mem fun hn hm apart x hx y hy => ?_)
      obtain ⟨v, isWord, rfl⟩ := Value.eq_text_of_worded (words _ hn)
      obtain ⟨w, isWord', rfl⟩ := Value.eq_text_of_worded (words _ hm)
      exact (isFile_of_moduleTarget? bare isWord hx).disjoint
        (isFile_of_moduleTarget? bare isWord' hy) (.inr (.inl fun same => apart (by rw [same])))
    · obtain ⟨_, first⟩ := ofType hx
      obtain ⟨_, second⟩ := ofModule hy
      exact first.disjoint second (.inr (.inr (by decide)))

end

theorem Batched.keeps {requests : List Request} {finished : List TypeId}
    (h : Batched C s requests finished t u) (pending : t.workspace.pending = [])
    (separate : Target.Separate (s.targets u.registry finished u.extendedModules))
    (off : LogOff t.workspace.log (s.targets u.registry finished u.extendedModules)) :
    (∀ id ∈ finished, ∃ x, IsUnit C s u.registry id x ∧ x.Kept u.workspace) ∧
      ∀ name ∈ u.extendedModules, ∃ x, IsModuleUnit C s u.registry u.extensions name x ∧
        x.Kept u.workspace := by
  obtain ⟨units, modules, v, n, w, isUnit, isModule, saves, commit, quiet⟩ := h.output
  have targets : (units ++ modules).map Save.toTarget =
      s.targets u.registry finished u.extendedModules := by
    rw [List.map_append, map_toTarget isUnit fun _ _ h => h.target,
      map_toTarget isModule fun _ _ h => h.target]
    rfl
  rw [← targets] at separate off
  have inside : ∀ x ∈ units ++ modules,
      x.places ⊆ {loc | ∃ y ∈ (units ++ modules).map Save.toTarget, loc ∈ y.places} :=
    fun x hx loc hloc => ⟨x.toTarget, List.mem_map_of_mem hx, hloc⟩
  obtain ⟨kept, log⟩ := saves.commit_keeps pending separate inside off commit
  have alike := quiet.alike (log ▸ off)
  have kept : ∀ x ∈ units ++ modules, x.Kept u.workspace := fun x hx =>
    (kept x hx).of_files (fun _ => quiet.unmade) fun loc hloc => alike.files loc (inside x hx hloc)
  refine ⟨fun id hid => ?_, fun name hname => ?_⟩
  · obtain ⟨x, hx, unit⟩ := exists_of_forall₂ isUnit hid
    exact ⟨x, unit, kept x (List.mem_append_left _ hx)⟩
  · obtain ⟨x, hx, unit⟩ := exists_of_forall₂ isModule hname
    exact ⟨x, unit, kept x (List.mem_append_right _ hx)⟩

theorem start_batched {g : Graph} {x : Unit} (hs : Sound s) (h : start (some g) s = (.ok x, u)) :
    ∃ requests finished, Batched anyModule (s.started g) requests finished (s.started g) u :=
  ⟨_, batch_batched (knows_any _) (hs.during ⟨rfl, rfl⟩ rfl rfl rfl rfl) (fun _ _ => .inr trivial)
    (start_eq_ok h)⟩

theorem readGraph_ok {data : Value} {g : Graph} (h : readGraph data s = (.ok g, t)) :
    ∃ store, t = { s with store } := by
  obtain ⟨_, _, hget, h⟩ := bind_eq_ok.1 h
  obtain ⟨rfl, rfl⟩ := get_eq_ok.1 hget
  obtain ⟨read, _, hdocument, h⟩ := bind_eq_ok.1 h
  obtain ⟨-, rfl⟩ := ofExcept_eq_ok.1 hdocument
  obtain ⟨_, _, hstore, h⟩ := bind_eq_ok.1 h
  obtain rfl := modify_eq_ok.1 hstore
  obtain ⟨-, rfl⟩ := pure_eq_ok.1 h
  exact ⟨read.store, rfl⟩

/-- After a start that gives a result, each exported type has its unit in its own file or a record
says that its directory could not be made, if exported types of one name go to different
directories. -/
theorem start_keeps_units {policy : Policy} {packaging : Packaging} {fileExtension data : Value}
    {tree : FileTree} {g : Graph} {x : Unit} (bare : '/' ∉ fileExtension.plain.toList)
    (hread : readGraph data (fresh policy packaging fileExtension { tree }) = (.ok g, s))
    (worded : s.store.Worded) (hstart : start (some g) s = (.ok x, u))
    (distinguished : s.Distinguished u.registry u.exported) : ∀ id ∈ u.exported,
      (∃ x, IsUnit anyModule (s.started g) u.registry id x ∧ x.Kept u.workspace) ∧
      ∀ other ∈ u.exported, id ≠ other → ∀ x y, s.typeTarget? u.registry id = some x →
        s.typeTarget? u.registry other = some y → Disjoint x.places y.places := by
  have sound : Sound s := (run_read (sound_fresh _ _ _ _)
    (show (Trigger.read data).run _ = (.ok {}, s) from bind_of_ok hread _)).1
  obtain ⟨store, rfl⟩ := readGraph_ok hread
  obtain ⟨requests, finished, batched⟩ := start_batched sound hstart
  have known : ∀ id ∈ u.exported, id < store.size :=
    ((batched.walk trivial).lt_size fun _ hid => absurd hid List.not_mem_nil).2
  have same : ∀ id, id ∈ u.exported ↔ id ∈ finished := fun id =>
    (batched.marked id).trans (or_iff_right List.not_mem_nil)
  have words : ∀ name ∈ u.extensions.map fun e => (u.store.type e.library).home.name,
      name.Worded := by
    intro name hname
    obtain ⟨e, he, rfl⟩ := List.mem_map.1 hname
    rw [batched.extensions] at he
    obtain ⟨id, hid, he⟩ := List.mem_flatMap.1 ((List.mem_append.1 he).resolve_left List.not_mem_nil)
    rw [library_of_mem_methodsOf he, batched.during.rules.2]
    exact (worded id (known id ((same id).2 hid))).2
  have separate : Target.Separate (Session.targets _ u.registry finished u.extendedModules) :=
    separate_targets bare worded batched.nodup (fun id hid => known id ((same id).2 hid))
      (fun i hi j hj => distinguished i ((same i).2 hi) j ((same j).2 hj))
      (Value.nodup_distinct fun v hv => by
        obtain ⟨word, -, rfl⟩ := Value.eq_text_of_worded (words v hv)
        rfl)
      fun name hname => words name (Value.mem_of_mem_distinct hname)
  obtain ⟨units, -⟩ := batched.keeps rfl separate fun _ hfile => by cases hfile
  refine fun id hid => ⟨units id ((same id).1 hid), fun other hother apart x y hx hy => ?_⟩
  exact disjoint_types bare worded (known id hid) (known other hother)
    (distinguished id hid other hother apart) hx hy

/-- Two enums of one name, the second in a module that belongs to the project. -/
def namesakeDocument : Value :=
  .object [
    ("modules", .list [.object [("name", .text "N"), ("plugin_type", .text "project")]]),
    ("types", .list [
      .object [("kind", .text "enum"), ("name", .text "E"), ("module", .text "M")],
      .object [("kind", .text "enum"), ("name", .text "E"), ("module", .text "N")]])]

/-- The units of the project's modules go below a directory that cannot be made. -/
abbrev splittingSession : Session :=
  fresh {}
    { scriptsDir := .text "out", projectDir := .text "game", hostPluginType := .text "engine" }
    (.text ".cs") { tree := { entries := [(["game"], .file (.text ""))] } }

theorem splittingSession_runs : (readGraph namesakeDocument).gives splittingSession fun g s =>
    decide s.store.Worded && (start (some g)).gives s fun _ u => u.exported == [1, 0] &&
      s.folder? u.registry 0 != s.folder? u.registry 1 := by
  rw [start_eq_direct]
  decide +kernel

theorem start_keeps_units_of_namesakes : ∃ g s u,
    readGraph namesakeDocument splittingSession = (.ok g, s) ∧ start (some g) s = (.ok (), u) ∧
      u.exported = [1, 0] ∧ ∀ id ∈ u.exported,
        (∃ x, IsUnit anyModule (s.started g) u.registry id x ∧ x.Kept u.workspace) ∧
        ∀ other ∈ u.exported, id ≠ other → ∀ x y, s.typeTarget? u.registry id = some x →
          s.typeTarget? u.registry other = some y → Disjoint x.places y.places := by
  obtain ⟨g, s, hread, runs⟩ := exists_of_gives splittingSession_runs
  simp only [Bool.and_eq_true, decide_eq_true_eq] at runs
  obtain ⟨worded, runs⟩ := runs
  obtain ⟨_, u, hstart, runs⟩ := exists_of_gives runs
  simp only [Bool.and_eq_true, beq_iff_eq, bne_iff_ne] at runs
  obtain ⟨exported, folders⟩ := runs
  refine ⟨g, s, u, hread, hstart, exported,
    start_keeps_units (by decide) hread worded hstart fun i hi j hj differ => .inr ?_⟩
  rw [exported] at hi hj
  simp only [List.mem_cons, List.not_mem_nil, or_false] at hi hj
  obtain ⟨rfl | rfl, rfl | rfl⟩ := And.intro hi hj
  · exact absurd rfl differ
  · exact folders.symm
  · exact folders
  · exact absurd rfl differ

theorem space_of_register {m : NativeModule} {known : OutputModule}
    (h : register m t = (.ok known, u)) (named : m.name = .text word) :
    known.space = Naming.moduleNamespace word := by
  have found := register_ok h
  rw [named] at found
  have alike : known.name.alike (.text word) = true :=
    List.find?_some (p := fun m : OutputModule => m.name.alike (.text word)) found
  rw [OutputModule.space, OutputModule.label, (Value.alike_text_right _ _).1 alike]
  rfl

theorem enumUnit_ok {node : TypeNode} {entries : List Value} {underlying : Value} {unit : EnumUnit}
    (body : node.body = .enum entries underlying) (named : node.home.name = .text word)
    (h : enumUnit node t = (.ok unit, u)) : unit.space = Naming.moduleNamespace word ∧
      unit.name = scriptLabel node ∧ underlyingType underlying = .ok unit.underlying ∧
      enumValues u.policy node.name entries = .ok unit.values := by
  obtain ⟨space, v, hspace, h⟩ := bind_eq_ok.1 h
  obtain ⟨known, _, hknown, hspace⟩ := bind_eq_ok.1 hspace
  obtain ⟨rfl, rfl⟩ := pure_eq_ok.1 hspace
  rw [body] at h
  obtain ⟨_, _, hunderlying, h⟩ := bind_eq_ok.1 h
  obtain ⟨sort, rfl⟩ := ofExcept_eq_ok.1 hunderlying
  obtain ⟨_, _, hget, h⟩ := bind_eq_ok.1 h
  obtain ⟨rfl, rfl⟩ := get_eq_ok.1 hget
  obtain ⟨_, _, hvalues, h⟩ := bind_eq_ok.1 h
  obtain ⟨values, rfl⟩ := ofExcept_eq_ok.1 hvalues
  obtain ⟨rfl, rfl⟩ := pure_eq_ok.1 h
  exact ⟨space_of_register hknown named, rfl, sort, values⟩

abbrev sharingSession : Session := fresh {} { scriptsDir := .text "out" } (.text ".cs") {}

def namesakeUnit (space : String) : EnumUnit :=
  { space, name := "E", underlying := "byte", values := [] }

abbrev sharedUnit : Target := { directory := "out", filename := "E.generated.cs" }

theorem sharingSession_runs : (readGraph namesakeDocument).gives sharingSession fun g s =>
    decide s.store.Worded && s.store.size == 2 && (s.store.type 0).name == .text "E" &&
      (s.store.type 0).home.name == .text "M" && (s.store.type 1).home.name == .text "N" &&
      (match (s.store.type 0).body with
        | .enum [] underlying => underlying == .text "uint8"
        | _ => false) &&
      (start (some g)).gives s fun _ u => u.exported == [1, 0] &&
        s.typeTarget? u.registry 0 == some sharedUnit &&
        s.typeTarget? u.registry 1 == some sharedUnit &&
        u.workspace.tree.lookup ["out"] == some .directory &&
        u.workspace.tree.fileAt ["out", "E.generated.cs"] ==
          some (.text (namesakeUnit "UnrealSharp.N").code.text) := by
  rw [start_eq_direct]
  decide +kernel

theorem sharedUnit_located : Path.location? sharedUnit.path = some ["out", "E.generated.cs"] := by
  decide +kernel

theorem renders_namesake {s : Session} {g : Graph} {code : Code} {underlying : Value}
    (named : (s.store.type 0).name = .text "E") (home : (s.store.type 0).home.name = .text "M")
    (body : (s.store.type 0).body = .enum [] underlying) (uint8 : underlying = .text "uint8")
    (h : Renders anyModule (s.started g) 0 code) : code = (namesakeUnit "UnrealSharp.M").code := by
  subst uint8
  have enum : (s.store.type 0).variant = .enum := by rw [TypeNode.variant, body]
  have noClass : (s.store.type 0).isClass = false := by
    rw [TypeNode.isClass, TypeNode.classBody?, body]
    rfl
  cases h with
  | interface variant => cases noClass.symm.trans variant
  | plainClass variant => cases noClass.symm.trans variant
  | struct variant => cases enum.symm.trans variant
  | @enum _ _ unit _ _ made =>
    obtain ⟨space, name, sort, values⟩ := enumUnit_ok body home made
    obtain ⟨_, _, _, _⟩ := unit
    cases sort
    cases values
    cases space
    rw [scriptLabel, scriptName, named] at name
    cases name
    rfl

theorem namesakeUnit_differs : Text.characters? (namesakeUnit "UnrealSharp.M").code.text ≠
    some (namesakeUnit "UnrealSharp.N").code.text := by
  rw [Text.characters?_of_ascii (Code.isAscii_text (by decide +kernel))]
  decide +kernel

/-- Types of one name lose a unit if their modules share a directory, although each is the only one
of its name in its module: the file of both holds the unit of the second. -/
theorem start_loses_unit : ∃ g s u,
    readGraph namesakeDocument sharingSession = (.ok g, s) ∧ start (some g) s = (.ok (), u) ∧
      '/' ∉ s.fileExtension.plain.toList ∧ s.store.Worded ∧
      (∀ i < s.store.size, ∀ j < s.store.size, i ≠ j →
        ((s.store.type i).home.name, (s.store.type i).name) ≠
          ((s.store.type j).home.name, (s.store.type j).name)) ∧
      u.exported = [1, 0] ∧ s.typeTarget? u.registry 0 = some sharedUnit ∧
      s.typeTarget? u.registry 1 = some sharedUnit ∧
      u.workspace.tree.lookup ["out"] = some .directory ∧
      ∀ x, IsUnit anyModule (s.started g) u.registry 0 x → ¬x.AtPlace u.workspace.tree := by
  obtain ⟨g, s, hread, runs⟩ := exists_of_gives sharingSession_runs
  simp only [Bool.and_eq_true, beq_iff_eq, decide_eq_true_eq] at runs
  obtain ⟨⟨⟨⟨⟨⟨worded, size⟩, named⟩, home⟩, other⟩, body⟩, runs⟩ := runs
  split at body
  · next underlying hbody =>
    obtain ⟨_, u, hstart, runs⟩ := exists_of_gives runs
    simp only [Bool.and_eq_true, beq_iff_eq] at runs
    obtain ⟨⟨⟨⟨exported, first⟩, second⟩, directory⟩, file⟩ := runs
    refine ⟨g, s, u, hread, hstart, ?_, worded, ?_, exported, first, second, directory,
      fun x unit => ?_⟩
    · obtain ⟨_, rfl⟩ := readGraph_ok hread
      show '/' ∉ (Value.text ".cs").plain.toList
      decide
    · rw [size]
      intro i hi j hj differ same
      obtain ⟨rfl | rfl, rfl | rfl⟩ : (i = 0 ∨ i = 1) ∧ (j = 0 ∨ j = 1) := by omega
      · exact differ rfl
      · rw [home, other] at same
        exact absurd (Prod.mk.inj same).1 (by decide)
      · rw [home, other] at same
        exact absurd (Prod.mk.inj same).1 (by decide)
      · exact differ rfl
    · rintro ⟨loc, characters, located, kept, there⟩
      obtain ⟨code, renders, text⟩ := unit.text
      rw [text, renders_namesake named home hbody (beq_iff_eq.1 body) renders] at kept
      have target : some x.toTarget = some sharedUnit := unit.target.symm.trans first
      rw [Option.some_inj.1 target, sharedUnit_located] at located
      cases located
      rw [file] at there
      cases there
      exact namesakeUnit_differs kept
  · cases body

end Session

end ScriptGlue
