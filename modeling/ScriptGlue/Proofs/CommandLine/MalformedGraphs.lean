import ScriptGlue.Proofs.CommandLine.ExitOne
import ScriptGlue.Proofs.Graph.Demands

/-! # Malformed graphs

A graph that is refused is refused with a wording only where a check has looked at what is wrong.
Whatever the graph a document joins, it is refused as its first flaw is, and a run ends with the exit
code 1 if that has a wording and crashes if it has none.
-/
namespace ScriptGlue
open ScriptGlue.Action

/-- The fault is told as one of a graph document. -/
def Fault.isGraphError : Fault → Bool
  | .graph _ => true
  | .unreadable .graph _ _ => true
  | _ => false

namespace Graph

/-- The first thing that a document is not, though it has to be. -/
def flaw? (data : Value) : Option Demand := firstUnmet (demands data)

/-- The graph that a document in a file makes on its own. -/
def ofFile (tree : FileTree) (path : Value) (store : TypeStore) : Except Fault Extension :=
  readNamedFile tree .graph path >>= ofDocument store

theorem Demand.isGraphError_fault (d : Demand) : d.fault.isGraphError = d.isTold := by
  obtain ⟨met, cause⟩ := d
  cases cause with
  | inl fault => rfl
  | inr slip => cases slip <;> rfl

theorem Demand.fault_eq_graph (d : Demand) : (∃ g, d.fault = .graph g) ↔ d.isTold := by
  obtain ⟨met, cause⟩ := d
  cases cause with
  | inl fault => exact ⟨fun _ => rfl, fun _ => ⟨fault, rfl⟩⟩
  | inr slip =>
    constructor
    · rintro ⟨g, h⟩
      cases slip <;> cases h
    · exact fun h => by cases h

section
variable {store : TypeStore} {known : Graph} {data : Value} {ext : Extension} {e : Fault}

theorem flaw?_of_ok (h : extend store known data = .ok ext) : flaw? data = none := by
  have obeys := obeys_extend store known data
  rw [h] at obeys
  exact Option.map_eq_none_iff.1 obeys.symm

theorem flaw?_of_error (h : extend store known data = .error e) :
    ∃ d, flaw? data = some d ∧ d.fault = e := by
  have obeys := obeys_extend store known data
  rw [h] at obeys
  exact Option.map_eq_some_iff.1 obeys.symm

theorem extend_of_flaw {d : Demand} (h : flaw? data = some d) (store : TypeStore) (known : Graph) :
    extend store known data = .error d.fault := by
  cases made : extend store known data with
  | ok ext => exact absurd (h.symm.trans (flaw?_of_ok made)) (by simp)
  | error e =>
    obtain ⟨d', flaw, rfl⟩ := flaw?_of_error made
    rw [Option.some_inj.1 (h.symm.trans flaw)]

/-- A document joins a graph or is refused with a wording if and only if its first flaw, should it
have any, is one that a check looks for. -/
theorem extend_told_iff (store : TypeStore) (known : Graph) (data : Value) :
    ((∃ ext, extend store known data = .ok ext) ∨ ∃ g, extend store known data = .error (.graph g)) ↔
      ∀ d ∈ flaw? data, d.isTold := by
  cases flaw : flaw? data with
  | none =>
    refine iff_of_true (.inl ?_) (by simp)
    cases made : extend store known data with
    | ok ext => exact ⟨ext, rfl⟩
    | error e =>
      obtain ⟨d, flaw', -⟩ := flaw?_of_error made
      cases flaw.symm.trans flaw'
  | some d =>
    rw [extend_of_flaw flaw]
    simp only [reduceCtorEq, exists_false, false_or, Except.error.injEq, Option.mem_def,
      Option.some.injEq, forall_eq', d.fault_eq_graph]

end

section
variable {tree : FileTree} {store : TypeStore} {e : Fault} {path : Value}

theorem ofFile_error_iff : ofFile tree path store = .error e ↔
    readNamedFile tree .graph path = .error e ∨
      ∃ data d, readNamedFile tree .graph path = .ok data ∧ flaw? data = some d ∧ d.fault = e := by
  unfold ofFile
  cases read : readNamedFile tree .graph path with
  | error cause =>
    constructor
    · intro h
      cases h
      exact .inl rfl
    · rintro (h | ⟨_, _, h, -⟩) <;> cases h
      rfl
  | ok data =>
    constructor
    · intro h
      obtain ⟨d, flaw, same⟩ := flaw?_of_error h
      exact .inr ⟨data, d, rfl, flaw, same⟩
    · rintro (h | ⟨_, d, h, flaw, rfl⟩)
      · cases h
      · cases h
        exact extend_of_flaw flaw store {}

theorem readDocumentFile_error {path : String}
    (h : readDocumentFile tree .graph path = .error e) :
    (∃ cause, e = .unreadable .graph path cause) ∨ e = .tooDeep := by
  unfold readDocumentFile at h
  split at h
  · cases h
    exact .inl ⟨_, rfl⟩
  · split at h
    · cases h
    · cases h
      exact .inl ⟨_, rfl⟩
    · cases h
      exact .inl ⟨_, rfl⟩
    · cases h
      exact .inr rfl

/-- A fault of a document file has a wording if and only if it is told as one. -/
theorem message?_isSome_of_ofFile (h : ofFile tree path store = .error e) :
    e.message?.isSome = e.isGraphError := by
  obtain h | ⟨_, ⟨met, cause⟩, -, -, rfl⟩ := ofFile_error_iff.1 h
  · unfold readNamedFile at h
    split at h
    · obtain ⟨cause, rfl⟩ | rfl := readDocumentFile_error h <;> rfl
    · cases h
      rfl
    · cases h
      rfl
    · cases h
      rfl
  · cases cause with
    | inl fault => rfl
    | inr slip => cases slip <;> rfl

/-- The graph of a file is read or refused with a wording if and only if the file does not hold what
lies too deep in itself, nor a document whose first flaw no check looks for. -/
theorem ofFile_told_iff (tree : FileTree) (path : String) (store : TypeStore) :
    ((∃ ext, ofFile tree (.text path) store = .ok ext) ∨
        ∃ e, ofFile tree (.text path) store = .error e ∧ e.isGraphError) ↔
      readDocumentFile tree .graph path ≠ .error .tooDeep ∧
        ∀ data, readDocumentFile tree .graph path = .ok data → ∀ d ∈ flaw? data, d.isTold := by
  have named : ofFile tree (.text path) store =
      readDocumentFile tree .graph path >>= ofDocument store := rfl
  rw [named]
  cases read : readDocumentFile tree .graph path with
  | error cause =>
    have none (e : Fault) : ¬∃ ext, (Except.error e >>= ofDocument store) = .ok ext :=
      fun ⟨_, h⟩ => by cases h
    obtain ⟨why, rfl⟩ | rfl := readDocumentFile_error read
    · exact iff_of_true (.inr ⟨_, rfl, rfl⟩) ⟨by simp, by simp⟩
    · refine iff_of_false ?_ (by simp)
      rintro (made | ⟨e, h, told⟩)
      · exact none _ made
      · cases h
        cases told
  | ok data =>
    have same : (Except.ok data >>= ofDocument store) = extend store {} data := rfl
    simp only [same, ne_eq, reduceCtorEq, not_false_eq_true, true_and, Except.ok.injEq, forall_eq',
      ← extend_told_iff store {} data]
    refine or_congr_right ⟨?_, ?_⟩
    · rintro ⟨e, refused, told⟩
      obtain ⟨d, -, rfl⟩ := flaw?_of_error refused
      obtain ⟨g, graph⟩ := d.fault_eq_graph.2 (d.isGraphError_fault ▸ told)
      exact ⟨g, graph ▸ refused⟩
    · rintro ⟨g, refused⟩
      exact ⟨_, refused, rfl⟩

end

end Graph

namespace CommandLine
variable {stamp : String} {o : Options} {w w₀ : Workspace} {s t u : Session}
  {path : Value} {tree : FileTree} {store : TypeStore} {a : Generation Unit} {e : Fault}

/-- A trigger reads the document of a path from these files; a module is told of before. -/
inductive Reads (path : Value) (u : Session) : Generation Unit → FileTree → Prop
  | scan : Reads path u (scan path) u.workspace.tree
  | loadModule : Reads path u (loadModule path)
      (u.workspace.record ⟨.info, .commandLine, "  " ++ path.plain⟩).tree

theorem readGraph_of_flaw {data : Value} {d : Graph.Demand} (flaw : Graph.flaw? data = some d)
    (s : Session) : Session.readGraph data s = (.error d.fault, s) := by
  rw [Session.readGraph_apply, Graph.ofDocument, Graph.extend_of_flaw flaw]

theorem merge_of_flaw {data : Value} {d : Graph.Demand} (flaw : Graph.flaw? data = some d)
    (s : Session) : Session.merge data s =
      (.error d.fault, { s with graph := some (s.graph.getD {}) }) := by
  rw [Session.merge_apply, Graph.extend_of_flaw flaw]

theorem Reads.fails (reads : Reads path u a tree) (h : Graph.ofFile tree path store = .error e) :
    ∃ t, a u = (.error e, t) := by
  obtain refused | ⟨data, d, read, flaw, rfl⟩ := Graph.ofFile_error_iff.1 h
  · cases reads with
    | scan => exact ⟨_, bind_of_error (by rw [graphDocument_apply, refused]) _⟩
    | loadModule =>
      exact ⟨_, (bind_of_ok rfl _).trans (bind_of_error (by rw [graphDocument_apply, refused]) _)⟩
  · cases reads with
    | scan =>
      exact ⟨_, (bind_of_ok (by rw [graphDocument_apply, read]) _).trans
        (bind_of_error (readGraph_of_flaw flaw u) _)⟩
    | loadModule =>
      exact ⟨_, (bind_of_ok rfl _).trans <|
        (bind_of_ok (by rw [graphDocument_apply, read]) _).trans <|
        bind_of_error (bind_of_error (merge_of_flaw flaw _) _) _⟩

theorem conclude_error_fst (told : e.message?.isSome = e.isGraphError) (w : Workspace) :
    (conclude (.error e) w).1 = if e.isGraphError then .exited 1 else .crashed e := by
  rw [← told]
  simp only [conclude]
  cases e.message? <;> rfl

/-- A document joins a graph or is refused with a wording if and only if its first flaw is one that a
check looks for; so it is with a file, unless it holds what lies too deep in itself; and a run that
comes to a malformed document ends with the exit code 1 if the document is refused with a wording, and
otherwise crashes. -/
theorem malformed_graphs (store : TypeStore) (known : Graph) (data : Value) (tree : FileTree)
    (path stamp : String) (o : Options) (w₀ : Workspace) :
    (((∃ ext, Graph.extend store known data = .ok ext) ∨
        ∃ g, Graph.extend store known data = .error (.graph g)) ↔
          ∀ d ∈ Graph.flaw? data, d.isTold) ∧
      (((∃ ext, Graph.ofFile tree (.text path) store = .ok ext) ∨
          ∃ e, Graph.ofFile tree (.text path) store = .error e ∧ e.isGraphError) ↔
        readDocumentFile tree .graph path ≠ .error .tooDeep ∧
          ∀ data, readDocumentFile tree .graph path = .ok data →
            ∀ d ∈ Graph.flaw? data, d.isTold) ∧
      ∀ w s done a u path tree store e, opened stamp o w₀ = .ok w → sessionOf w o = .ok s →
        o.triggers.take (done.length + 1) = done ++ [a] → done.forM id s = (.ok (), u) →
        Reads path u a tree → Graph.ofFile tree path store = .error e →
          (runOptions stamp o w₀).1 = if e.isGraphError then .exited 1 else .crashed e := by
  refine ⟨Graph.extend_told_iff store known data, Graph.ofFile_told_iff tree path store, ?_⟩
  intro w s done a u path tree store e opens begun starts before reads refused
  obtain ⟨t, failed⟩ := reads.fails refused
  rw [runOptions_of_stop opens begun starts before failed]
  exact conclude_error_fst (Graph.message?_isSome_of_ofFile refused) _

def graphTree (document : String) : FileTree where
  entries := [(["g.json"], .file (.text document))]

def graphOptions : Options where
  graph := some (.text "g.json")

def unknownKindGraph : String := "\x7b\"types\": [\x7b\"kind\": \"union\"\x7d]\x7d"

theorem unknownKindGraph_refused :
    (match sessionOf { tree := graphTree unknownKindGraph } graphOptions,
        Graph.ofFile (graphTree unknownKindGraph) (.text "g.json") #[] with
    | .ok _, .error e => e == .graph (.unknownKind (.text "union") .null)
    | _, _ => false) = true := by decide +kernel

theorem malformed_graphs_of_unknownKind : ∃ w s e,
    opened "" graphOptions { tree := graphTree unknownKindGraph } = .ok w ∧
      sessionOf w graphOptions = .ok s ∧
      Graph.ofFile (graphTree unknownKindGraph) (.text "g.json") #[] = .error e ∧ e.isGraphError ∧
      (runOptions "" graphOptions { tree := graphTree unknownKindGraph }).1 = .exited 1 := by
  have refused := unknownKindGraph_refused
  have opens : opened "" graphOptions { tree := graphTree unknownKindGraph } =
      .ok { tree := graphTree unknownKindGraph } := rfl
  split at refused
  · next s e begun read =>
    obtain rfl := beq_iff_eq.1 refused
    have reads : Reads (.text "g.json") s (scan (.text "g.json")) (graphTree unknownKindGraph) := by
      have here : Reads (.text "g.json") s (scan (.text "g.json")) s.workspace.tree := .scan
      rwa [(atRest_of_sessionOf (begins_of_opened opens) begun).2] at here
    obtain ⟨-, -, runs⟩ := malformed_graphs #[] {} .null (graphTree unknownKindGraph) "g.json" ""
      graphOptions { tree := graphTree unknownKindGraph }
    exact ⟨_, s, _, opens, begun, read, rfl, runs _ s [] _ s _ _ _ _ opens begun rfl rfl reads read⟩
  · cases refused

def namelessGraph : Value :=
  .object [("types", .list [.object [("kind", .text "struct"), ("name", .text "S"),
    ("module", .text "M"), ("properties", .list [.object [("kind", .text "int32")]])]])]

def namelessDocument : String :=
  "\x7b\"types\": [\x7b\"kind\": \"struct\", \"name\": \"S\", \"module\": \"M\", " ++
    "\"properties\": [\x7b\"kind\": \"int32\"\x7d]\x7d]\x7d"

/-- A property without a name is not looked for: the graph is refused, but without a wording, and the
run crashes. -/
theorem nameless_property_crashes :
    (∀ ext, Graph.extend #[] {} namelessGraph ≠ .ok ext) ∧
      (∀ g, Graph.extend #[] {} namelessGraph ≠ .error (.graph g)) ∧
      readDocumentFile (graphTree namelessDocument) .graph "g.json" = .ok namelessGraph ∧
      (run "" ["--graph", "g.json"] { tree := graphTree namelessDocument }).1 =
        .crashed .missingKey := by
  have faults : (match Graph.extend #[] {} namelessGraph with
      | .error e => e == .missingKey
      | .ok _ => false) = true := by decide +kernel
  split at faults
  · next e refused =>
    obtain rfl := beq_iff_eq.1 faults
    rw [refused]
    exact ⟨by simp, by simp, by decide +kernel, by decide +kernel⟩
  · cases faults

end CommandLine
end ScriptGlue
