import ScriptGlue.Proofs.Session.NestedUnits
import ScriptGlue.Proofs.Session.Stagers

/-! # Units that balance

Whatever has happened to a session, all that it saves while it generates are texts of units. If the
names of its types and modules stay on their lines, the braces of each text balance, and each line
begins with four blanks per level, and with no more than these if no name that may stand first on a
line indents it.
-/
namespace ScriptGlue
open ScriptGlue.Action Text Code

namespace Session

variable {clean exact : Prop} {σ τ : TypeStore} {s t : Session}

/-- The text of a unit whose lines balance. No step out is taken at level zero. -/
structure BalancedSave (σ : TypeStore) (exact : Prop) (x : Save) : Prop where
  made : ∃ code, UnitCode σ code ∧ NeverClamps 0 code ∧ x.text = code.text
  balanced : Balanced exact 0 (linesOf x.text)

theorem balancedSave_of_nested {code : Code} {x : Save} (unit : UnitCode σ code)
    (nested : Nested exact code) (text : x.text = code.text) : BalancedSave σ exact x :=
  ⟨⟨code, unit, nested.neverClamps 0, text⟩, text ▸ nested.balanced⟩

/-- The files are written by saves of balanced units. -/
def Balances (σ : TypeStore) (exact : Prop) (w v : Workspace) : Prop :=
  ∃ xs, Save.Saves xs w v ∧ ∀ x ∈ xs, BalancedSave σ exact x

def BalancesUntil (σ : TypeStore) (exact : Prop) (e : Fault) (w v : Workspace) : Prop :=
  ∃ u, Balances σ exact w u ∧ (v = u ∨ ∃ x, BalancedSave σ exact x ∧ x.run u = (.error e, v))

/-- What is known of the files outlives records and saves of units. -/
structure Traces (clean exact : Prop) (σ : TypeStore) (W : Workspace → Prop)
    (B : Fault → Workspace → Prop) : Prop where
  recorded : ∀ w r, W w → W (w.record r)
  faulted : ∀ w e, W w → B e w
  saved : ∀ (x : Save) code, UnitCode σ code → (clean → Nested exact code) → x.text = code.text →
    Meets W B x.run fun _ => True

theorem traces_balances (w : Workspace) :
    Traces True exact σ (Balances σ exact w) fun e => BalancesUntil σ exact e w where
  recorded v r h := by
    obtain ⟨xs, saves, good⟩ := h
    exact ⟨xs, by simpa using saves.append (.quiet (.record v r)), good⟩
  faulted v e h := ⟨v, h, .inl rfl⟩
  saved x code unit nested text := by
    have balanced := balancedSave_of_nested unit (nested trivial) text
    refine ⟨fun {v u _} h ran => ⟨trivial, ?_⟩,
      fun {v u e} h ran => ⟨v, h, .inr ⟨x, balanced, ran⟩⟩⟩
    obtain ⟨xs, saves, good⟩ := h
    exact ⟨xs ++ [x], .save saves ran (.refl u),
      List.forall_mem_append.2 ⟨good, List.forall_mem_singleton.2 balanced⟩⟩

theorem traces_nothing : Traces False True σ (fun _ => True) fun _ _ => True where
  recorded _ _ _ := trivial
  faulted _ _ _ := trivial
  saved _ _ _ _ _ := ⟨fun _ _ => ⟨trivial, trivial⟩, fun _ _ => trivial⟩

/-- Members are vetted, and no class but that of worlds stands for a receiver. -/
structure Recalls (σ : TypeStore) (s : Session) : Prop extends Vetted σ s where
  worlds : ∀ m ∈ s.extensions, OnWorld m

/-- It remembers these, has that graph, and of its files this is known. -/
structure Writing (σ : TypeStore) (g : Option Graph) (W : Workspace → Prop) (s : Session) : Prop
    extends Recalls σ s where
  graph : s.graph = g
  written : W s.workspace

theorem Recalls.of_same (h : Recalls σ s) (store : t.store = s.store)
    (passed : t.acceptedProperties = s.acceptedProperties)
    (methods : t.extensions = s.extensions) : Recalls σ t :=
  ⟨h.toVetted.of_same store passed methods, methods ▸ h.worlds⟩

section
variable {g : Option Graph} {W : Workspace → Prop} {B : Fault → Workspace → Prop}

theorem Writing.of_same (h : Writing σ g W s) (store : t.store = s.store)
    (passed : t.acceptedProperties = s.acceptedProperties)
    (methods : t.extensions = s.extensions) (graph : t.graph = s.graph)
    (files : t.workspace = s.workspace) : Writing σ g W t :=
  ⟨h.toRecalls.of_same store passed methods, graph ▸ h.graph, files ▸ h.written⟩

theorem Writing.files {V : Workspace → Prop} (h : Writing σ g W s) {w : Workspace} (written : V w) :
    Writing σ g V { s with workspace := w } :=
  ⟨h.toRecalls.of_same rfl rfl rfl, h.graph, written⟩

variable (traces : Traces clean exact σ W B)
include traces

theorem watchful_writing : Watchful False σ (Writing σ g W) fun e => Writing σ g (B e) where
  store _ h := h.store
  faulted _ _ h _ := ⟨h.toRecalls, h.graph, traces.faulted _ _ h.written⟩
  named := False.elim
  passed _ id ps h := h.passed id ps
  refused _ _ h := h.of_same rfl rfl rfl rfl rfl
  accepted _ _ _ there h := ⟨⟨h.toVetted.accepting there, h.worlds⟩, h.graph, h.written⟩

theorem measures_writing (ref : Option TypeId) :
    Tame (Writing σ g W) (fun e => Writing σ g (B e)) (isStructBlittable ref) :=
  (watchful_writing traces).isStructBlittable (fun _ _ h => h.of_same rfl rfl rfl rfl rfl)
    False.elim

/-- Every step of a generation leaves a session of which the same is known. -/
theorem composing_writing (spelled : clean → σ.Spelled exact)
    (modules : clean → ∀ g' ∈ g, ∀ e ∈ g'.modules, Inline e.2.name.plain) :
    Composing clean exact σ (Writing σ g W) fun e => Writing σ g (B e) where
  toWatchful := watchful_writing traces
  textual := False.elim
  placed := False.elim
  declared := False.elim
  recorded _ _ h := h.files (traces.recorded _ _ h.written)
  registered _ _ _ _ h := h.of_same rfl rfl rfl rfl rfl
  measured id _ := measures_writing traces (some id)
  spelled := spelled
  world holds s m h found := by
    rw [findModule?, h.graph] at found
    obtain ⟨g', hg', found⟩ := Option.bind_eq_some_iff.1 found
    obtain ⟨e, he, rfl⟩ := Option.map_eq_some_iff.1 found
    exact modules holds g' hg' e (List.mem_of_find?_eq_some he)
  marked _ _ h := h.of_same rfl rfl rfl rfl rfl
  passedOver _ _ h := h.of_same rfl rfl rfl rfl rfl
  extended _ _ fits world h :=
    { h with
      methods := List.forall_mem_append.2 ⟨h.methods, List.forall_mem_singleton.2 fits⟩
      worlds := List.forall_mem_append.2 ⟨h.worlds, List.forall_mem_singleton.2 world⟩ }
  methods _ h m hm := ⟨h.methods m hm, h.worlds m hm⟩
  saved m filename code unit nested := by
    rw [saveUnit_eq]
    split
    · next target _ =>
      have saved := traces.saved { target with text := code.text } code unit nested rfl
      refine ⟨fun {s t x} h ran => ⟨trivial, ?_⟩, fun {s t e} h ran => ?_⟩
      all_goals
        rcases save : Save.run { target with text := code.text } s.workspace with ⟨result, w⟩
        rw [onWorkspace, within, save] at ran
        cases ran
      · exact h.files (saved.result h.written save).2
      · exact h.files (saved.fault h.written save)
    · exact .throw fun s h => ⟨h.toRecalls, h.graph, traces.faulted _ _ h.written⟩

end

section
variable (s : Session)

theorem composing_unknown : Composing False True s.store (Writing s.store s.graph fun _ => True)
    fun _ => Writing s.store s.graph fun _ => True :=
  composing_writing traces_nothing False.elim False.elim

end

theorem keeps_recalls {α : Type} {a : Generation α}
    (tame : ∀ s : Session, Tame (Writing s.store s.graph fun _ => True)
      (fun _ => Writing s.store s.graph fun _ => True) a) :
    Keeps (fun s => Recalls s.store s) (fun s => Recalls s.store s) a := by
  refine .of_outcome fun s h => ?_
  have start : Writing s.store s.graph (fun _ => True) s := ⟨h, rfl, trivial⟩
  have left : Writing s.store s.graph (fun _ => True) (a s).2 := by
    rcases run : a s with ⟨e | x, u⟩
    · exact (tame s).fault start run
    · exact ((tame s).result start run).2
  show Recalls (a s).2.store (a s).2
  rw [left.store]
  exact left.toRecalls

theorem enduring_recalls : Enduring fun s => Recalls s.store s where
  faulted _ h := h
  generate forced types := keeps_recalls fun s => (composing_unknown s).generate forced types
  visit force id := keeps_recalls fun s => (composing_unknown s).visit force id
  exportAs form id := keeps_recalls fun s => (composing_unknown s).exportAs form id
  saveModules := keeps_recalls fun s => (composing_unknown s).saveModuleUnits
  properties id := keeps_recalls fun s =>
    ((composing_unknown s).toCareful.exportedProperties False.elim).imp fun _ _ => trivial
  functions id := keeps_recalls fun s => by
    refine ((composing_unknown s).typeAt id).bind ?_
    rintro t rfl
    exact ((composing_unknown s).toCareful.exportedFunctions False.elim id).imp fun _ _ => trivial
  layout s ref _ h := (keeps_recalls fun s => measures_writing traces_nothing ref).leaves h
  files _ _ h := h.of_same rfl rfl rfl
  abandoned _ _ h := h.of_same rfl rfl rfl
  adopted _ _ _ _ h := h.of_same rfl rfl rfl
  read s known data read linked inside hread h := by
    obtain ⟨embeds, -⟩ := Graph.extend_grows linked.store inside hread
    exact ⟨h.toVetted.grow embeds, h.worlds⟩

/-- Whatever happens to a session that has made nothing yet, it remembers what it may. -/
theorem recalls_course (policy : Policy) (packaging : Packaging) (fileExtension : Value)
    (files : Workspace) (events : List Event) :
    let s : Session := { policy, packaging, fileExtension, workspace := files }
    Linked (s.course events) ∧ Recalls (s.course events).store (s.course events) :=
  enduring_recalls.course (fun _ _ h => h.of_same rfl rfl rfl)
    (linked_fresh policy packaging fileExtension files)
    ⟨vetted_fresh policy packaging fileExtension files, fun _ hm => absurd hm List.not_mem_nil⟩
    events

/-- The units of the types that a document adds to the graph, before they are committed. -/
def loadUnits (data : Value) : Generation Unit := do
  let added ← merge data
  tell .info .session ("=== Module loaded: " ++ toString added.length ++ " new types")
  generate [] (added.map some)

/-- What makes units, and saves them. -/
inductive MakesUnits : Generation Unit → Prop
  | generate (forced types : List (Option TypeId)) : MakesUnits (generate forced types)
  | visit (force : Bool) (id : TypeId) : MakesUnits (visit force id)
  | exportAs (form : ExportForm) (id : TypeId) : MakesUnits (exportAs form id)
  | saveModules : MakesUnits saveModuleUnits
  | load (data : Value) : MakesUnits (loadUnits data)

/-- The units balance that a run of the session saves, up to its fault if it has one. They are
indented by no more than their braces ask for if no name indents them. -/
def UnitsBalance (s : Session) : Except Fault Unit × Session → Prop
  | (.ok _, t) => Balances t.store t.store.FlushNames s.workspace t.workspace
  | (.error e, t) => BalancesUntil t.store t.store.FlushNames e s.workspace t.workspace

/-- The names of the types and of the modules of the graph stay on their lines. -/
structure InlineNames (s : Session) : Prop where
  types : s.store.InlineNames
  modules : ∀ g ∈ s.graph, ∀ e ∈ g.modules, Inline e.2.name.plain

instance : Decidable s.InlineNames :=
  decidable_of_iff (s.store.InlineNames ∧
      ∀ g ∈ s.graph, ∀ e ∈ g.modules, Inline e.2.name.plain)
    ⟨fun ⟨types, modules⟩ => ⟨types, modules⟩, fun h => ⟨h.types, h.modules⟩⟩

theorem Balances.refl (w : Workspace) : Balances σ exact w w :=
  ⟨[], .quiet (.refl w), fun _ hx => absurd hx List.not_mem_nil⟩

theorem Recalls.unitsBalance {a : Generation Unit} {result : Except Fault Unit}
    (h : Recalls s.store s) (tame : ∀ {clean exact : Prop} {σ : TypeStore} {I : Session → Prop}
      {J : Fault → Session → Prop}, Composing clean exact σ I J → Tame I J a)
    (ran : a s = (result, t)) (names : t.InlineNames) : UnitsBalance s (result, t) := by
  have same : t.store = s.store ∧ t.graph = s.graph := by
    have start : Writing s.store s.graph (fun _ => True) s := ⟨h, rfl, trivial⟩
    cases result with
    | error e =>
      have left := (tame (composing_unknown s)).fault start ran
      exact ⟨left.store, left.graph⟩
    | ok x =>
      have left := ((tame (composing_unknown s)).result start ran).2
      exact ⟨left.store, left.graph⟩
  obtain ⟨types, modules⟩ := names
  rw [same.1] at types
  rw [same.2] at modules
  have spelled : True → s.store.Spelled s.store.FlushNames := fun _ =>
    TypeStore.spelled_of_names types id
  have composing := composing_writing (traces_balances s.workspace) spelled fun _ => modules
  have start : Writing s.store s.graph (Balances s.store s.store.FlushNames s.workspace) s :=
    ⟨h, rfl, .refl _⟩
  cases result with
  | error e =>
    rw [UnitsBalance, same.1]
    exact ((tame composing).fault start ran).written
  | ok x =>
    rw [UnitsBalance, same.1]
    exact ((tame composing).result start ran).2.written

theorem unitsBalance_load {data : Value} {result : Except Fault Unit} (linked : Linked s)
    (h : Recalls s.store s) (ran : loadUnits data s = (result, t)) (names : t.InlineNames) :
    UnitsBalance s (result, t) := by
  rcases hread : Graph.extend s.store (s.graph.getD {}) data with e | read
  · rw [loadUnits, bind_of_error (by rw [merge_apply, hread])] at ran
    cases ran
    exact ⟨_, .refl _, .inl rfl⟩
  · rw [loadUnits, bind_of_ok (by rw [merge_apply, hread])] at ran
    have known : (s.graph.getD {}).Inside s.store := by
      cases graph : s.graph with
      | none => exact fun _ hid => absurd hid List.not_mem_nil
      | some g => exact linked.graph g graph
    have grown := enduring_recalls.read s _ data read linked known hread h
    let m : Session := { s with store := read.store, graph := some read.graph }
    have merged : Recalls m.store m := grown.of_same rfl rfl rfl
    have balanced : UnitsBalance m (result, t) := merged.unitsBalance (fun composing =>
      (composing.tell _ _ _).bind fun _ _ => composing.generate _ _) ran names
    -- Reading the document has left the files alone.
    exact balanced

/-- A load that gives a result has saved these units, and committed them. -/
theorem loadUnits_of_moduleLoaded {data : Value} {added : List TypeId}
    (h : moduleLoaded data s = (.ok added, t)) : ∃ u n w, loadUnits data s = (.ok (), u) ∧
      Workspace.commit u.workspace = (.ok n, w) ∧ Records { u with workspace := w } t := by
  obtain ⟨added, m, merged, h⟩ := bind_eq_ok.1 h
  obtain ⟨_, m', told, h⟩ := bind_eq_ok.1 h
  obtain ⟨_, v, ran, h⟩ := bind_eq_ok.1 h
  obtain ⟨rfl, rfl⟩ := pure_eq_ok.1 h
  obtain ⟨u, n, w, generated, committed, records⟩ := batch_ok ran
  refine ⟨u, n, w, ?_, committed, records⟩
  rw [loadUnits, bind_of_ok merged, bind_of_ok told, generated]

/-- Every unit balances that is saved in the course of a session. -/
theorem saved_units_balance (policy : Policy) (packaging : Packaging) (fileExtension : Value)
    (files : Workspace) (events : List Event) {a : Generation Unit} (makes : MakesUnits a)
    {result : Except Fault Unit}
    (start : s = ({ policy, packaging, fileExtension, workspace := files } : Session).course events)
    (ran : a s = (result, t)) (names : t.InlineNames) : UnitsBalance s (result, t) := by
  obtain ⟨linked, recalls⟩ := recalls_course policy packaging fileExtension files events
  subst start
  cases makes with
  | generate forced types =>
    exact recalls.unitsBalance (fun composing => composing.generate forced types) ran names
  | visit force id =>
    exact recalls.unitsBalance (fun composing => composing.visit force id) ran names
  | exportAs form id =>
    exact recalls.unitsBalance (fun composing => composing.exportAs form id) ran names
  | saveModules => exact recalls.unitsBalance (fun composing => composing.saveModuleUnits) ran names
  | load data => exact unitsBalance_load linked recalls ran names

def entriesDocument (first second : String) : Value :=
  .object [("types", .list [.object [("kind", .text "enum"), ("name", .text "E"),
    ("module", .text "M"), ("entries", .list [.text first, .text second])]])]

def entriesSession (first second : String) : Session :=
  ({ packaging := { scriptsDir := .text "out" } } : Session).course
    [.run (.adopt (entriesDocument first second))]

theorem entriesSession_saves : (generate [] [some 0]).gives (entriesSession "A" "B") fun _ t =>
    decide t.InlineNames && decide t.store.FlushNames &&
      t.workspace.pending == ["out/E.generated.cs"] := by
  rw [generate_eq_direct]
  decide +kernel

/-- So does that of an enum of which no entry begins with a blank. -/
theorem saved_units_balance_of_entries : ∃ t,
    generate [] [some 0] (entriesSession "A" "B") = (.ok (), t) ∧ t.InlineNames ∧
      t.store.FlushNames ∧ t.workspace.pending = ["out/E.generated.cs"] ∧
      Balances t.store t.store.FlushNames (entriesSession "A" "B").workspace t.workspace := by
  obtain ⟨_, t, ran, saves⟩ := exists_of_gives entriesSession_saves
  simp only [Bool.and_eq_true, decide_eq_true_eq, beq_iff_eq] at saves
  obtain ⟨⟨names, flush⟩, pending⟩ := saves
  exact ⟨t, ran, names, flush, pending, saved_units_balance {} { scriptsDir := .text "out" } _ _
    [.run (.adopt (entriesDocument "A" "B"))] (.generate _ _) rfl ran names⟩

/-- The export of an enum that is new saves the unit that is made once it is marked. -/
theorem exportEnum_of_made {id : TypeId} {unit : EnumUnit} (new : id ∉ s.exported)
    (made : enumUnit (s.store.type id) { s with exported := id :: s.exported } = (.ok unit, t)) :
    exportEnum id s = saveTypeUnit (s.store.type id) unit.code t := by
  have found : typeAt id s = (.ok (s.store.type id), s) := rfl
  rw [exportEnum, bind_of_ok found, bind_of_ok (mark_fresh _ new)]
  exact bind_of_ok made _

theorem entriesSession_indents :
    (enumUnit ((entriesSession " A" "B").store.type 0)).gives
      { entriesSession " A" "B" with exported := 0 :: (entriesSession " A" "B").exported }
      fun unit _ => decide (entriesSession " A" "B").InlineNames &&
        !(entriesSession " A" "B").exported.contains 0 && !(Code.lines 0 unit.code).isEmpty &&
        decide (¬Balanced True 0 ((Code.lines 0 unit.code).map String.toList ++ [[]])) := by
  decide +kernel

/-- The names stay on their lines, and yet a line of the unit that the export saves is indented by
more than its braces ask for. -/
theorem enum_entry_indents : (entriesSession " A" "B").InlineNames ∧ ∃ unit t,
    exportEnum 0 (entriesSession " A" "B") =
        saveTypeUnit ((entriesSession " A" "B").store.type 0) (EnumUnit.code unit) t ∧
      ¬Balanced True 0 (linesOf unit.code.text) := by
  obtain ⟨unit, t, made, indents⟩ := exists_of_gives entriesSession_indents
  simp only [Bool.and_eq_true, decide_eq_true_eq, Bool.not_eq_true', List.isEmpty_eq_false_iff,
    List.contains_eq_mem, decide_eq_false_iff_not] at indents
  obtain ⟨⟨⟨names, new⟩, some⟩, unbalanced⟩ := indents
  refine ⟨names, unit, t, exportEnum_of_made new made, ?_⟩
  let s := entriesSession " A" "B"
  have recalls : Recalls s.store s := (recalls_course {} { scriptsDir := .text "out" } _ _
    [.run (.adopt (entriesDocument " A" "B"))]).2
  have start : Writing s.store s.graph (Balances s.store False s.workspace)
      { s with exported := 0 :: s.exported } := ⟨recalls.of_same rfl rfl rfl, rfl, .refl _⟩
  have spelled : True → s.store.Spelled False := fun _ =>
    TypeStore.spelled_of_names names.types False.elim
  have composing := composing_writing (traces_balances s.workspace) spelled fun _ => names.modules
  have printed := (((composing.legible trivial).enumUnit 0).result start made).1
  rwa [printed.nested.linesOf_text some]

end Session

end ScriptGlue
