import ScriptGlue.Proofs.CommandLine.Triggers
import ScriptGlue.Proofs.Session.Stagers

/-! # The exit code 1

A run that ends with the exit code 1 has made the batches of its first triggers and nothing else:
but for the log file, the files are those that a run with these triggers alone leaves, except that
where the failing batch made drafts there is no file, and no later trigger matters.
-/
namespace ScriptGlue
open ScriptGlue.Action

namespace FileTree
variable {t u : FileTree} {loc : Location}

theorem directory_of_prefix_of_top {above : Location} (top : isTop loc) (h : above <+: loc) :
    t.lookup above = some .directory := by
  have inside : isTop above := by
    simp only [isTop, Bool.or_eq_true, decide_eq_true_eq] at top ⊢
    obtain rfl | top := top
    · obtain rfl | rfl : above = [] ∨ above = ["/"] := by
        cases above with
        | nil => exact .inl rfl
        | cons name rest =>
          obtain ⟨rfl, below⟩ := List.cons_prefix_cons.1 h
          obtain rfl := List.prefix_nil.1 below
          exact .inr rfl
      · exact .inr rfl
      · exact .inl rfl
    · exact .inr (List.all_eq_true.2 fun name hname =>
        List.all_eq_true.1 top name (h.subset hname))
  rw [lookup, if_pos inside]

def Entered (t : FileTree) (loc : Location) : Prop :=
  ∀ above, above <+: loc → t.lookup above = some .directory

theorem Entered.above (h : t.Entered loc) : t.Entered (above loc) := by
  intro up hup
  unfold FileTree.above at hup
  split at hup
  · exact h up hup
  · split at hup
    · next other top =>
      have outer : isTop (".." :: loc) := by
        simp only [isTop, Bool.or_eq_true, decide_eq_true_eq, other, false_or] at top
        simp [isTop, top]
      exact directory_of_prefix_of_top outer hup
    · exact h up (hup.trans (List.dropLast_prefix loc))

theorem Entered.enter {name : String} (h : t.Entered loc) {inner : Location}
    (entered : t.enter loc name = .ok inner) : t.Entered inner := by
  unfold FileTree.enter at entered
  split at entered
  · cases entered
    exact h
  · split at entered
    · cases entered
      exact h.above
    · split at entered
      · cases entered
      · split at entered
        · next found =>
          cases entered
          intro up hup
          obtain rfl | hup := List.prefix_concat_iff.1 hup
          · exact found
          · exact h up hup
        · cases entered
        · cases entered

theorem reached_of_walk {asDirectory asDirectory' : Bool} {names : List String} {at_ : Location}
    (h : t.Entered loc) (walked : t.walk asDirectory loc names = .ok (.entry at_ asDirectory')) :
    t.Reached at_ := by
  induction names generalizing loc with
  | nil => cases walked
  | cons name rest ih =>
    cases rest with
    | nil =>
      unfold walk at walked
      split at walked
      · cases walked
      · split at walked
        · cases walked
        · split at walked
          · cases walked
          · cases walked
            intro up hup apart
            exact h up ((List.prefix_concat_iff.1 hup).resolve_left apart)
    | cons next rest =>
      unfold walk at walked
      cases entered : t.enter loc name with
      | error fault =>
        rw [entered] at walked
        cases walked
      | ok inner =>
        rw [entered] at walked
        exact ih (h.enter entered) walked

theorem reached_of_place {path : String} {asDirectory : Bool}
    (placed : t.place path = .ok (.entry loc asDirectory)) : t.Reached loc := by
  unfold place at placed
  split at placed
  · cases placed
  · split at placed
    · cases placed
    · split at placed
      · cases placed
      · split at placed
        · cases placed
        · refine reached_of_walk (fun up hup => ?_) placed
          refine directory_of_prefix_of_top ?_ hup
          split <;> rfl

end FileTree

namespace CommandLine
open Session (Proper MakesBatch)
variable {stamp : String} {o other : Options} {w v : Workspace} {tree : FileTree} {n : Nat}

def Options.logPlace (o : Options) : Option Location :=
  match o.logFile with
  | some (.text file) => Path.location? (CommandLine.logPath file)
  | _ => none

/-- The workspace of a run with its log file open. -/
def opened (stamp : String) (o : Options) (w : Workspace) : Except Fault Workspace :=
  match o.logFile with
  | none => .ok w
  | some (.text file) =>
    match openLog w.tree (logPath file) with
    | .error fault => .error (.file fault)
    | .ok (tree, location) =>
      .ok { w with tree, log := some { location := some location, level := levelOf o, stamp } }
  | some _ => .error .wrongType

theorem runOptions_eq (stamp : String) (o : Options) (w : Workspace) :
    runOptions stamp o w = match opened stamp o w with
      | .ok v => runLogged o v
      | .error fault => (.crashed fault, w) := by
  unfold runOptions opened
  cases o.logFile with
  | none => rfl
  | some v =>
    cases v with
    | text file =>
      simp only
      rcases openLog w.tree (logPath file) with _ | ⟨_, _⟩ <;> rfl
    | _ => rfl

theorem openLog_eq_ok {path : String} {t u : FileTree} {loc : Location}
    (h : openLog t path = .ok (u, loc)) : Path.location? path = some loc ∧ u.Reached loc ∧
      ∀ other, other ≠ loc → u.fileAt other = t.fileAt other := by
  unfold openLog at h
  cases placed : t.place path with
  | error fault =>
    rw [placed] at h
    cases h
  | ok place =>
    rw [placed] at h
    cases place with
    | directory at_ => cases h
    | entry at_ asDirectory =>
      have reached := FileTree.reached_of_place placed
      have located := FileTree.location_of_place placed
      simp only [Bind.bind, Except.bind] at h
      split at h
      · cases h
        exact ⟨located, reached, fun _ _ => rfl⟩
      · cases written : t.write path (.text "") with
        | error fault =>
          rw [written] at h
          cases h
        | ok u' =>
          rw [written] at h
          cases h
          obtain ⟨loc', located', file, -, rfl⟩ := FileTree.write_of_ok written
          obtain rfl : loc' = loc := Option.some_inj.1 (located'.symm.trans located)
          exact ⟨located, fun up hup apart => FileTree.directory_put file (reached up hup apart),
            fun other apart => FileTree.fileAt_put_of_ne apart⟩

/-- Only the log file is another one when a run begins, and it lies in directories. -/
structure Begins (o : Options) (tree : FileTree) (w : Workspace) : Prop where
  pending : w.pending = []
  logPlace : w.logPlace = o.logPlace
  anchored : w.Anchored
  files : ∀ loc, o.logPlace ≠ some loc → w.tree.fileAt loc = tree.fileAt loc

theorem begins_of_opened (h : opened stamp o { tree } = .ok w) : Begins o tree w := by
  unfold opened at h
  cases hlog : o.logFile with
  | none =>
    rw [hlog] at h
    cases h
    exact ⟨rfl, by simp [Workspace.logPlace, Options.logPlace, hlog], fun _ h => (by cases h),
      fun _ _ => rfl⟩
  | some v =>
    rw [hlog] at h
    cases v with
    | text file =>
      simp only at h
      split at h
      · cases h
      · next u location made =>
        cases h
        obtain ⟨located, reached, files⟩ := openLog_eq_ok made
        have place : o.logPlace = some location := by rw [Options.logPlace, hlog]; exact located
        refine ⟨rfl, place.symm, fun loc lies => ?_, fun loc away => files loc fun same => ?_⟩
        · cases lies
          exact reached
        · exact away (same ▸ place)
    | _ => cases h

def Options.triggers (o : Options) : List (Generation Unit) :=
  o.graph.toList.map scan ++ o.moduleGraphs.map loadModule

/-- The options with the first of their graph files only. -/
def Options.first (n : Nat) (o : Options) : Options :=
  { o with
    graph := if n = 0 then none else o.graph
    moduleGraphs := o.moduleGraphs.take (n - o.graph.toList.length) }

theorem Options.triggers_first (n : Nat) (o : Options) :
    (o.first n).triggers = o.triggers.take n := by
  unfold triggers first
  cases o.graph with
  | none => simp [List.map_take]
  | some path =>
    cases n with
    | zero => simp
    | succ n => simp [List.map_take]

theorem Options.first_first (n : Nat) (o : Options) : (o.first n).first n = o.first n := by
  unfold first
  split
  · simp [List.take_take]
  · simp only [List.take_take, min_self]

theorem isTrigger_of_mem {a : Generation Unit} (h : a ∈ o.triggers) : Session.IsTrigger a := by
  obtain h | h := List.mem_append.1 h
  · obtain ⟨path, -, rfl⟩ := List.mem_map.1 h
    exact isTrigger_scan path
  · obtain ⟨path, -, rfl⟩ := List.mem_map.1 h
    exact isTrigger_loadModule path

def tellExported : Generation Unit := do
  let s ← get
  Session.tell .info .commandLine ("=== Exported " ++ toString s.exported.length ++ " types")

theorem triggers_eq (o : Options) : triggers o = o.triggers.forM id >>= fun _ => tellExported := by
  show _ = forM o.triggers id >>= _
  rw [Options.triggers, List.forM_append, List.forM_map, List.forM_map, Action.bind_assoc]
  rfl

theorem forM_of_error {done rest : List (Generation Unit)} {a : Generation Unit}
    {s t u : Session} {e : Fault} (before : done.forM id s = (.ok (), u))
    (failed : a u = (.error e, t)) : (done ++ a :: rest).forM id s = (.error e, t) := by
  show (forM (done ++ a :: rest) id : Generation Unit) s = _
  rw [List.forM_append]
  refine (bind_of_ok before _).trans ?_
  show (a :: rest).forM id u = _
  rw [Action.forM_cons]
  exact bind_of_error failed _

theorem triggers_of_error {s t : Session} {e : Fault}
    (failed : o.triggers.forM id s = (.error e, t)) : CommandLine.triggers o s = (.error e, t) := by
  rw [triggers_eq]
  exact bind_of_error failed _

def reported (s : Session) : Session := { s with
  workspace := s.workspace.record
    ⟨.info, .commandLine, "=== Exported " ++ toString s.exported.length ++ " types"⟩ }

theorem triggers_of_ok {s t : Session} (ended : o.triggers.forM id s = (.ok (), t)) :
    CommandLine.triggers o s = (.ok (), reported t) := by
  rw [triggers_eq]
  exact bind_of_ok ended _

/-- The session of a run when its triggers have ended, if it came to be. -/
def lastSession? (stamp : String) (o : Options) (w : Workspace) : Option Session := do
  let w ← (opened stamp o w).toOption
  let s ← (sessionOf w o).toOption
  return (o.triggers.forM id s).2

theorem sessionOf_of_first (same : other.first n = o.first n) (w : Workspace) :
    sessionOf w other = sessionOf w o := by
  have := congrArg (sessionOf w) same
  exact this

theorem opened_of_first (same : other.first n = o.first n) (w : Workspace) :
    opened stamp other w = opened stamp o w := by
  have logFile : other.logFile = o.logFile := (congrArg Options.logFile same :)
  have verbose : other.verbose = o.verbose := (congrArg Options.verbose same :)
  unfold opened levelOf
  rw [logFile, verbose]

theorem triggers_of_first (same : other.first n = o.first n) :
    other.triggers.take n = o.triggers.take n := by
  rw [← Options.triggers_first, ← Options.triggers_first, same]

section
variable {w₀ : Workspace} {s : Session}

theorem runOptions_of_error {e : Fault} (opens : opened stamp o w₀ = .ok w)
    (failed : sessionOf w o = .error e) : runOptions stamp o w₀ = conclude (.error e) w := by
  rw [runOptions_eq, opens]
  simp only [runLogged, generate, failed]

theorem runOptions_of_ok (opens : opened stamp o w₀ = .ok w) (begun : sessionOf w o = .ok s) :
    runOptions stamp o w₀ =
      conclude (CommandLine.triggers o s).1 (CommandLine.triggers o s).2.workspace := by
  rw [runOptions_eq, opens]
  simp only [runLogged, generate, begun]
  rfl

theorem runOptions_of_stop {done : List (Generation Unit)} {a : Generation Unit} {t u : Session}
    {e : Fault} (opens : opened stamp o w₀ = .ok w) (begun : sessionOf w o = .ok s)
    (starts : o.triggers.take (done.length + 1) = done ++ [a])
    (ok : done.forM id s = (.ok (), u)) (failed : a u = (.error e, t)) :
    runOptions stamp o w₀ = conclude (.error e) t.workspace := by
  have split : o.triggers = done ++ a :: o.triggers.drop (done.length + 1) := by
    conv_lhs => rw [← List.take_append_drop (done.length + 1) o.triggers, starts]
    simp
  rw [runOptions_of_ok opens begun, triggers_of_error (split ▸ forM_of_error ok failed)]

theorem lastSession?_of_ok (opens : opened stamp o w₀ = .ok w) (begun : sessionOf w o = .ok s) :
    lastSession? stamp o w₀ = some (o.triggers.forM id s).2 := by
  rw [lastSession?, opens]
  show (do let s ← (sessionOf w o).toOption; return (o.triggers.forM id s).2) = _
  rw [begun]
  rfl

theorem runOptions_first {u : Session} (opens : opened stamp o w₀ = .ok w)
    (begun : sessionOf w o = .ok s) (ok : (o.triggers.take n).forM id s = (.ok (), u)) :
    lastSession? stamp (o.first n) w₀ = some u ∧
      runOptions stamp (o.first n) w₀ = (.exited 0, (reported u).workspace) := by
  have opens := (opened_of_first (Options.first_first n o) w₀).trans opens
  have begun := (sessionOf_of_first (Options.first_first n o) w).trans begun
  have ended := Options.triggers_first n o ▸ ok
  refine ⟨?_, ?_⟩
  · rw [lastSession?_of_ok opens begun, ended]
  · rw [runOptions_of_ok opens begun, triggers_of_ok ended]
    rfl

end

theorem atRest_of_sessionOf {s : Session} (begins : Begins o tree w)
    (h : sessionOf w o = .ok s) : s.AtRest ∧ s.workspace = w := by
  obtain ⟨policy, packaging, fileExtension, rfl⟩ : ∃ policy packaging fileExtension,
      s = { policy, packaging, fileExtension, workspace := w } := by
    unfold sessionOf at h
    cases config : configOf w.tree o with
    | error e =>
      rw [config] at h
      cases h
    | ok c =>
      cases policy : Session.policyOf w.tree c with
      | error e =>
        simp only [config, Session.ofConfig, policy, Bind.bind, Except.bind] at h
        cases h
      | ok p =>
        simp only [config, Session.ofConfig, policy, Bind.bind, Except.bind, Pure.pure,
          Except.pure] at h
        split at h
        · cases h
          exact ⟨_, _, _, rfl⟩
        · cases h
          exact ⟨_, _, _, rfl⟩
  refine ⟨?_, rfl⟩
  exact {
    collected := ⟨Session.linked_fresh _ _ _ _, by simp, by simp, fun _ => List.nil_prefix⟩
    equipped := ⟨rfl, rfl, by simp⟩
    pending := begins.pending
    anchored := begins.anchored }

theorem conclude_exited_one {r : Except Fault Unit} (h : conclude r w = (.exited 1, v)) :
    ∃ e text, r = .error e ∧ e.message? = some text ∧
      v = w.record ⟨.error, .commandLine, text⟩ := by
  unfold conclude at h
  split at h
  · cases h
  · split at h
    · next e _ text worded =>
      cases h
      exact ⟨e, text, rfl, worded, rfl⟩
    · cases h

/-- A run came to no session: no file is another one, and no trigger matters. -/
structure NeverBegun (stamp : String) (o : Options) (tree : FileTree) (v : Workspace) : Prop where
  session : lastSession? stamp o { tree } = none
  later (other : Options) : other.first 0 = o.first 0 →
    runOptions stamp other { tree } = (.exited 1, v)
  files (loc : Location) : o.logPlace ≠ some loc → v.tree.fileAt loc = tree.fileAt loc

/-- A run with this last session was ended by its trigger of that number. No later trigger matters,
and the files are those of the run with the triggers before it, which is a success; but nothing is
where the batch of the trigger, if it came to one, had staged anything. -/
structure StoppedAt (stamp : String) (o : Options) (tree : FileTree) (v : Workspace) (n : Nat)
    (s : Session) : Prop where
  session : lastSession? stamp o { tree } = some s
  trigger : n < o.triggers.length
  later (other : Options) : other.first (n + 1) = o.first (n + 1) →
    runOptions stamp other { tree } = (.exited 1, v)
  before : ∃ left, runOptions stamp (o.first n) { tree } = (.exited 0, left) ∧
    (∀ x, s.Output x → ∀ loc, Path.location? x.path = some loc →
      v.tree.fileAt loc = left.tree.fileAt loc) ∧
    ∀ loc, o.logPlace ≠ some loc → v.tree.fileAt loc = left.tree.fileAt loc ∨
      v.tree.fileAt loc = none ∧ ∃ x, s.Output x ∧ Path.location? x.staged = some loc
  staged (u : Session) : lastSession? stamp (o.first n) { tree } = some u →
    ∀ b forced types, MakesBatch o.triggers[n] u b forced types →
      ∀ loc ∈ Workspace.draftPlaces (Session.generate forced types b).2.workspace.pending,
        v.tree.fileAt loc = none

theorem fileAt_record {loc : Location} (away : w.logPlace ≠ some loc) (r : Record) :
    (w.record r).tree.fileAt loc = w.tree.fileAt loc := by
  unfold Workspace.record
  cases log : w.log with
  | none => rfl
  | some file =>
    simp only
    unfold LogFile.write
    split
    · rfl
    · split
      · next at_ characters located _ =>
        split
        · refine FileTree.fileAt_put_of_ne fun same => away ?_
          rw [Workspace.logPlace, log, same]
          exact located
        · rfl
      · rfl

theorem neverBegun {e : Fault} (opens : opened stamp o { tree } = .ok w)
    (failed : sessionOf w o = .error e) (h : runOptions stamp o { tree } = (.exited 1, v)) :
    v.pending = [] ∧ NeverBegun stamp o tree v := by
  have begins := begins_of_opened opens
  obtain ⟨e, text, -, worded, rfl⟩ :=
    conclude_exited_one ((runOptions_of_error opens failed).symm.trans h)
  refine ⟨begins.pending, ?_, fun other same => ?_, fun loc away => ?_⟩
  · rw [lastSession?, opens]
    show (do let s ← (sessionOf w o).toOption; return (o.triggers.forM id s).2) = _
    rw [failed]
    rfl
  · rw [← h, runOptions_of_error opens failed]
    exact runOptions_of_error ((opened_of_first same _).trans opens)
      ((sessionOf_of_first same w).trans failed)
  · exact (fileAt_record (begins.logPlace ▸ away) _).trans (begins.files loc away)

theorem stoppedAt {s₀ : Session} (opens : opened stamp o { tree } = .ok w)
    (begun : sessionOf w o = .ok s₀)
    (proper : ∀ s ∈ lastSession? stamp o { tree }, s.Proper o.logPlace)
    (h : runOptions stamp o { tree } = (.exited 1, v)) :
    v.pending = [] ∧ ∃ n s, StoppedAt stamp o tree v n s := by
  have begins := begins_of_opened opens
  obtain ⟨rest, rfl⟩ := atRest_of_sessionOf begins begun
  have last := lastSession?_of_ok opens begun
  have ran := (runOptions_of_ok opens begun).symm.trans h
  rcases outcome : o.triggers.forM id s₀ with ⟨e | ⟨⟩, t⟩
  swap
  · rw [triggers_of_ok outcome] at ran
    cases ran
  rw [outcome] at last
  rw [triggers_of_error outcome] at ran
  obtain ⟨_, text, ⟨⟩, worded, rfl⟩ := conclude_exited_one ran
  have proper : Proper s₀.workspace.logPlace t := begins.logPlace ▸ proper t last
  have other : ∀ fault, e ≠ .file fault := by
    rintro fault rfl
    cases worded
  obtain ⟨done, a, more, u, split, ok, failed, place, withdrawn, cleared⟩ :=
    Session.forM_withdrawn (fun a => isTrigger_of_mem) rest outcome other proper
  have logs : u.workspace.logPlace = o.logPlace := place.trans begins.logPlace
  obtain ⟨session, left⟩ := runOptions_first (n := done.length) (u := u) opens begun
    (by rwa [split, List.take_left])
  have starts : o.triggers.take (done.length + 1) = done ++ [a] := by
    rw [split, List.take_length_add_append]
    rfl
  have files (loc : Location) (away : o.logPlace ≠ some loc) :
      (t.workspace.record ⟨.error, .commandLine, text⟩).tree.fileAt loc =
          (reported u).workspace.tree.fileAt loc ∨
        (t.workspace.record ⟨.error, .commandLine, text⟩).tree.fileAt loc = none ∧
          ∃ x, t.Output x ∧ Path.location? x.staged = some loc := by
    rw [fileAt_record (by rwa [withdrawn.logPlace, logs]), reported, fileAt_record (by rwa [logs])]
    exact withdrawn.files loc (by rwa [logs])
  refine ⟨withdrawn.pending, done.length, t, last, by simp [split], fun options same => ?_,
    ⟨_, left, fun x hx loc located => ?_, files⟩, fun v run b forced types makes loc hloc => ?_⟩
  · rw [← ran]
    exact runOptions_of_stop ((opened_of_first same _).trans opens)
      ((sessionOf_of_first same _).trans begun) ((triggers_of_first same).trans starts) ok failed
  · have away : o.logPlace ≠ some loc := begins.logPlace ▸ proper.away x hx loc (.inl located)
    refine (files loc away).resolve_right ?_
    rintro ⟨-, y, hy, drafted⟩
    exact hx.apart proper.bare proper.words hy located drafted
  · obtain rfl : u = v := Option.some_inj.1 (session.symm.trans run)
    have here : ∀ lt : done.length < o.triggers.length, o.triggers[done.length] = a := fun _ => by
      simp [split]
    obtain ⟨off, gone⟩ := cleared b forced types (here _ ▸ makes) loc hloc
    exact (fileAt_record off _).trans gone

/-- If a run ends with the exit code 1, no path waits to be moved into place, and either it came to
no session or one of its triggers ended it. -/
theorem run_exited_one {args : List String}
    (proper : ∀ s ∈ lastSession? stamp o { tree }, s.Proper o.logPlace)
    (h : run stamp args { tree } = (.exited 1, o, v)) :
    v.pending = [] ∧ (NeverBegun stamp o tree v ∨ ∃ n s, StoppedAt stamp o tree v n s) := by
  have ran : runOptions stamp o { tree } = (.exited 1, v) := by
    unfold run at h
    split at h
    · cases h
    · cases h
    · next o' _ =>
      have h : ((runOptions stamp o' { tree }).1, o', (runOptions stamp o' { tree }).2) =
        (.exited 1, o, v) := h
      simp only [Prod.mk.injEq] at h
      obtain ⟨ending, rfl, rest⟩ := h
      exact Prod.ext ending rest
  cases opens : opened stamp o { tree } with
  | error fault =>
    rw [runOptions_eq, opens] at ran
    cases ran
  | ok w =>
    cases begun : sessionOf w o with
    | error e =>
      obtain ⟨pending, never⟩ := neverBegun opens begun ran
      exact ⟨pending, .inl never⟩
    | ok s₀ =>
      obtain ⟨pending, stopped⟩ := stoppedAt opens begun proper ran
      exact ⟨pending, .inr stopped⟩

/-- The engine hosts the generator, and there is no directory for the project's own modules. -/
def roomlessConfig : String :=
  "\x7b\"project_dir\": \"\", \"host_plugin_type\": \"engine\", \"generated_user_content\": \"\", " ++
    "\"output_dir\": \"out\"\x7d"

def projectGraph : String :=
  "\x7b\"modules\": [\x7b\"name\": \"N\", \"plugin_type\": \"project\"\x7d]\x7d"

def enumGraph : String :=
  "\x7b\"types\": [\x7b\"kind\": \"enum\", \"name\": \"E\", \"module\": \"M\"\x7d, " ++
    "\x7b\"kind\": \"enum\", \"name\": \"F\", \"module\": \"N\"\x7d]\x7d"

def roomlessTree : FileTree where
  entries := [(["c.json"], .file (.text roomlessConfig)), (["p.json"], .file (.text projectGraph)),
    (["e.json"], .file (.text enumGraph))]

def roomlessArguments : List String :=
  ["--config", "c.json", "--graph", "p.json", "--module-graph", "e.json", "--module-graph", "q.json"]

def roomlessOptions : Options where
  config := some (.text "c.json")
  graph := some (.text "p.json")
  moduleGraphs := [.text "e.json", .text "q.json"]

theorem roomless_runs :
    (match sessionOf { tree := roomlessTree } roomlessOptions with
    | .ok s => (scan (.text "p.json")).gives s fun _ t => (loadModule (.text "e.json")).faults t
        fun e u => e.message?.isSome && decide u.store.Worded && u.fileExtension == .text ".cs"
    | .error _ => false) = true := by
  unfold scan loadModule
  rw [Session.start_eq_direct, Session.moduleLoaded_eq_direct]
  decide +kernel

/-- What a run leaves whose second batch has staged a unit when it comes to a module without a
directory. -/
theorem roomless : ∃ s t e text, sessionOf { tree := roomlessTree } roomlessOptions = .ok s ∧
    roomlessOptions.triggers.forM id s = (.error e, t) ∧ e.message? = some text ∧
      t.Proper none := by
  have runs := roomless_runs
  split at runs
  · next s begun =>
    obtain ⟨_, v, scanned, runs⟩ := exists_of_gives runs
    obtain ⟨e, t, failed, runs⟩ := exists_of_faults runs
    simp only [Bool.and_eq_true, decide_eq_true_eq, beq_iff_eq] at runs
    obtain ⟨⟨worded, words⟩, extension⟩ := runs
    obtain ⟨text, worded⟩ := Option.isSome_iff_exists.1 worded
    have first : [scan (.text "p.json")].forM id s = (.ok (), v) := bind_of_ok scanned _
    refine ⟨s, t, e, text, begun, forM_of_error first failed, worded, ?_, words,
      fun _ _ _ _ h => by cases h⟩
    rw [extension]
    decide
  · cases runs

theorem run_exited_one_of_roomless : ∃ v,
    run "" roomlessArguments { tree := roomlessTree } = (.exited 1, roomlessOptions, v) ∧
      v.pending = [] ∧ ∃ n s, StoppedAt "" roomlessOptions roomlessTree v n s := by
  obtain ⟨s, t, e, text, begun, failed, worded, proper⟩ := roomless
  have opens : opened "" roomlessOptions { tree := roomlessTree } = .ok { tree := roomlessTree } :=
    rfl
  obtain ⟨v, ended⟩ : ∃ v,
      runOptions "" roomlessOptions { tree := roomlessTree } = (.exited 1, v) := by
    rw [runOptions_of_ok opens begun, triggers_of_error failed]
    simp only [conclude, worded]
    exact ⟨_, rfl⟩
  have ran : run "" roomlessArguments { tree := roomlessTree } = (.exited 1, roomlessOptions, v) := by
    have reading : readCommandLine roomlessArguments = .options roomlessOptions := by decide +kernel
    rw [run, reading]
    simp only [ended]
  have last := lastSession?_of_ok opens begun
  rw [failed] at last
  obtain ⟨pending, never | stopped⟩ := run_exited_one (fun s hs => by
    obtain rfl := Option.some_inj.1 (last.symm.trans hs)
    exact proper) ran
  · cases never.session.symm.trans last
  · exact ⟨v, ran, pending, stopped⟩

end CommandLine

end ScriptGlue
