import ScriptGlue.Proofs.Session.Frames
import ScriptGlue.Proofs.Session.Moments
import ScriptGlue.Proofs.Session.Reachability

/-! # Each type once

However the types of a graph refer to each other, a session exports each at most once, over all its
triggers and whatever their outcomes, and no trigger finds a type marked that it is about to export.
The bounds on how deep a computation nests are never reached.
-/
namespace ScriptGlue.Session
open ScriptGlue.Action

variable {s t : Session}

/-- Everything noted is a save, and the types saved are marked and distinct from each other and
from those whose exports are in progress, which are marked too. -/
def Tidy (base : Session) (stack : Stack) (x : Session × List Note) : Prop :=
  SameRules base x.1 ∧ ∃ saved : List TypeId, x.2 = saved.map Note.saved ∧
    (stack.map Prod.fst ++ saved).Nodup ∧ ∀ id ∈ stack.map Prod.fst ++ saved, id ∈ x.1.exported

variable {base : Session} {stack : Stack} {x y : Session × List Note}

theorem Tidy.later (h : Tidy base stack x) (rules : SameRules x.1 y.1) (notes : y.2 = x.2)
    (exported : x.1.exported ⊆ y.1.exported) : Tidy base stack y := by
  obtain ⟨same, saved, noted, distinct, marked⟩ := h
  exact ⟨same.trans rules, saved, notes.trans noted, distinct, fun id hid => exported (marked id hid)⟩

theorem Tidy.given_up (h : Tidy base stack x) : Tidy base [] x := by
  obtain ⟨same, saved, noted, distinct, marked⟩ := h
  exact ⟨same, saved, noted, (List.nodup_append.1 distinct).2.1,
    fun id hid => marked id (List.mem_append_right _ hid)⟩

theorem Tidy.marking {id : TypeId} (h : Tidy base stack x) (fresh : id ∉ x.1.exported) (b : Bool) :
    Tidy base ((id, b) :: stack) ({ x.1 with exported := id :: x.1.exported }, x.2) := by
  obtain ⟨same, saved, noted, distinct, marked⟩ := h
  refine ⟨same, saved, noted, List.nodup_cons.2 ⟨fun hid => fresh (marked id hid), distinct⟩, ?_⟩
  rintro d (_ | ⟨_, hd⟩)
  · exact List.mem_cons_self
  · exact List.mem_cons_of_mem _ (marked d hd)

theorem Tidy.saving {id : TypeId} {b : Bool} (h : Tidy base ((id, b) :: stack) x) :
    Tidy base stack (x.1, .saved id :: x.2) := by
  obtain ⟨same, saved, noted, distinct, marked⟩ := h
  have moved : (stack.map Prod.fst ++ id :: saved).Perm (id :: (stack.map Prod.fst ++ saved)) :=
    List.perm_middle
  refine ⟨same, id :: saved, ?_, moved.nodup_iff.2 distinct, fun d hd => marked d (moved.subset hd)⟩
  simp [noted]

theorem inert_tidy (base : Session) (stack : Stack) (notes : List Note) :
    Inert (fun s => Tidy base stack (s, notes)) fun s => ∀ _ : Fault, Tidy base [] (s, notes) :=
  inert_of_marks (fun _ h _ => h.given_up) fun _ _ rules exported h =>
    h.later rules rfl (exported ▸ List.Subset.refl _)

theorem lasting_tidy (base : Session) (stack : Stack) (notes : List Note) :
    Lasting (fun s => Tidy base stack (s, notes)) fun s => Tidy base stack (s, notes) where
  toSteady := (inert_of_marks (I := fun s => Tidy base stack (s, notes)) (fun _ h => h)
    fun _ _ rules exported h => h.later rules rfl (exported ▸ List.Subset.refl _)).steady
  extended _ _ h := h.later ⟨rfl, rfl⟩ rfl (List.Subset.refl _)
  marked _ id h := h.later ⟨rfl, rfl⟩ rfl (List.subset_cons_self id _)
  passedOver _ _ h := h.later ⟨rfl, rfl⟩ rfl (List.Subset.refl _)
  saved := keeps_saveUnit (fun _ h => h) fun _ _ h => h.later ⟨rfl, rfl⟩ rfl (List.Subset.refl _)

/-- What keeps the invariant of every stack leaves it, or gives up what is in progress. -/
theorem meets_tidy {α : Type} {a : Generation α}
    (h : ∀ notes, Keeps (fun s => Tidy base stack (s, notes)) (fun s => Tidy base stack (s, notes)) a) :
    Meets (Tidy base stack) (fun _ => Tidy base []) (Noted.plain a) fun _ => True :=
  Noted.meets_plain fun notes => ⟨fun hs he => ⟨trivial, (h notes).result hs he⟩,
    fun hs he => ((h notes).fault hs he).given_up⟩

theorem nesting_tidy (base : Session) : Nesting base (Tidy base) fun _ => Tidy base [] where
  rules _ _ h := h.1
  inert := inert_tidy base
  passedOver _ _ _ _ h := h.later ⟨rfl, rfl⟩ rfl (List.Subset.refl _)
  marked _ _ _ _ _ fresh h := h.marking fresh false
  gathered stack id ps events _ _ := by
    have members := @meets_tidy base ((id, false) :: stack) _ _ fun notes =>
      ((lasting_tidy base _ notes).collecting id).classMembers (base.store.type id) ps
        (base.passedFunctions (base.store.type id)) events
    exact ⟨fun hs he => (members.result hs he).2, members.fault⟩
  saved stack id b code _ := by
    have saves := @meets_tidy base stack _ _ fun notes =>
      (lasting_tidy base _ notes).saveTypeUnit (base.store.type id) code
    exact ⟨fun {x _ _} hs he => (saves.result (s := (x.1, .saved id :: x.2)) hs.saving he).2,
      fun {x _ _} hs he => saves.fault (s := (x.1, .saved id :: x.2)) hs.saving he⟩
  extensions s notes name _ _ := by
    have kept := (lasting_tidy base [] notes).saveExtensions name
    exact ⟨fun hs he => ⟨trivial, kept.result hs he⟩, kept.fault⟩

/-- The operation exports a type in a form, whether the type is marked or not. -/
def Operation.isDirect : Operation → Bool
  | .exportAs _ _ => true
  | _ => false

def Operation.noted : Operation → Noted Unit
  | .scan data => do Noted.start (some (← Noted.plain (readGraph data)))
  | .rescan => do Noted.start (← Noted.plain get).graph
  | .load data => do let _ ← Noted.moduleLoaded data
  | .batch forced types => Noted.batch forced types
  | .visit force id => Noted.visit force id
  | operation => Noted.plain operation.run

/-- The session and its notes after some operations, those that fault included. -/
def notedAfter (x : Session × List Note) (operations : List Operation) : Session × List Note :=
  operations.foldl (fun x operation => (operation.noted x).2) x

theorem follows_noted (operation : Operation) :
    Noted.Follows False operation.noted operation.run := by
  cases operation with
  | scan data => exact (Noted.Follows.plain _).bind fun g => Noted.follows_start (some g)
  | rescan => exact (Noted.Follows.plain _).bind fun s => Noted.follows_start s.graph
  | load data => exact (Noted.follows_moduleLoaded data).bind fun _ => .pure _
  | batch forced types => exact Noted.follows_batch forced types
  | visit force id => exact Noted.follows_visit force id
  | _ => exact .plain _

theorem notedAfter_fst (s : Session) (notes : List Note) (operations : List Operation) :
    (notedAfter (s, notes) operations).1 = after s operations := by
  induction operations generalizing s notes with
  | nil => rfl
  | cons operation operations ih =>
    obtain ⟨r, t, more, run, no | same⟩ := follows_noted operation s notes
    · exact no.1.elim
    · show (notedAfter (operation.noted (s, notes)).2 operations).1 =
        after (operation.run s).2 operations
      rw [run, same]
      exact ih t _

def SavedOnce (x : Session × List Note) : Prop :=
  ∃ saved : List TypeId, x.2 = saved.map Note.saved ∧ saved.Nodup ∧ ∀ id ∈ saved, id ∈ x.1.exported

theorem Tidy.savedOnce (h : Tidy base [] x) : SavedOnce x := h.2

theorem SavedOnce.tidy (h : SavedOnce x) : Tidy x.1 [] x := ⟨.refl _, h⟩

/-- A run keeps what is known of its notes, whatever its outcome. -/
abbrev KeepsOnce {α : Type} (a : Noted α) : Prop := Meets SavedOnce (fun _ => SavedOnce) a fun _ => True

theorem keepsOnce_of_tidy {α : Type} {a : Noted α}
    (h : ∀ base, Meets (Tidy base []) (fun _ => Tidy base []) a fun _ => True) : KeepsOnce a where
  result hs he := ⟨trivial, ((h _).result hs.tidy he).2.savedOnce⟩
  fault hs he := ((h _).fault hs.tidy he).savedOnce

theorem stepwise_marks (ids : List TypeId) : Stepwise fun s => ids ⊆ s.exported where
  faulted _ h := h
  refused _ _ h := h
  accepted _ _ _ _ h := h
  registered _ _ _ _ _ h := h
  measured ref := Gated.isStructBlittable ⟨fun _ h => h, fun _ _ h => h, fun _ _ _ _ h => h⟩
    (fun _ _ h => h) ref
  marked _ id h := List.subset_cons_of_subset id h
  passedOver _ _ h := h
  extended _ _ h := h
  files _ _ h := h
  adopted _ _ _ h := h
  read _ _ _ _ _ _ _ h := h

theorem keepsOnce_plain {α : Type} {a : Generation α} (h : ∀ s, s.exported ⊆ (a s).2.exported) :
    KeepsOnce (Noted.plain a) := by
  have kept {s : Session} {notes : List Note} (hs : SavedOnce (s, notes)) : SavedOnce ((a s).2, notes) := by
    obtain ⟨saved, noted, distinct, marked⟩ := hs
    exact ⟨saved, noted, distinct, fun id hid => h s (marked id hid)⟩
  constructor
  · rintro ⟨s, notes⟩ t x hs he
    obtain ⟨-, rfl⟩ := Prod.mk.inj he
    exact ⟨trivial, kept hs⟩
  · rintro ⟨s, notes⟩ t e hs he
    obtain ⟨-, rfl⟩ := Prod.mk.inj he
    exact kept hs

theorem keepsOnce_of_keeps {α : Type} {a : Generation α}
    (h : ∀ ids : List TypeId, Keeps (fun s => ids ⊆ s.exported) (fun s => ids ⊆ s.exported) a) :
    KeepsOnce (Noted.plain a) :=
  keepsOnce_plain fun s => (h s.exported).outcome (List.Subset.refl _)

theorem keepsOnce_visit (force : Bool) (id : TypeId) : KeepsOnce (Noted.visit force id) :=
  keepsOnce_of_tidy fun base => (nesting_tidy base).visit force id

theorem keepsOnce_batch (forced types : List (Option TypeId)) :
    KeepsOnce (Noted.batch forced types) := by
  have generated : KeepsOnce (Noted.generate forced types) :=
    keepsOnce_of_tidy fun base => (nesting_tidy base).generate forced types
  have dropped (fault : Fault) : KeepsOnce (do
      Noted.plain (onWorkspace Workspace.discard)
      throw fault : Noted Unit) :=
    (keepsOnce_plain fun _ => List.Subset.refl _).bind fun _ _ => .throw fun _ h => h
  have committed : KeepsOnce (Noted.plain do
      let committed ← onWorkspace Workspace.commit
      tell .info .session ("  " ++ toString committed ++ " files updated")
      tellDiagnostics) :=
    keepsOnce_of_keeps fun ids =>
      have marks := (stepwise_marks ids).enduring
      (marks.onWorkspace _).bind fun _ => (marks.tell _ _ _).bind fun _ => marks.tellDiagnostics
  exact (generated.tryCatch (fun h he => (dropped _).result h he) fun h he =>
    (dropped _).fault h he).bind fun _ _ => committed

theorem keepsOnce_start (g : Option Graph) : KeepsOnce (Noted.start g) := by
  refine (keepsOnce_plain fun _ => List.Subset.refl _).bind fun _ _ => ?_
  refine (keepsOnce_plain fun _ => List.Subset.refl _).bind fun _ _ => ?_
  cases g with
  | none => exact .throw fun _ h => h
  | some g =>
    exact (keepsOnce_plain fun _ => List.Subset.refl _).bind fun _ _ => keepsOnce_batch _ _

theorem keepsOnce_moduleLoaded (data : Value) : KeepsOnce (Noted.moduleLoaded data) := by
  refine (keepsOnce_plain fun s => ?_).bind fun added _ => ?_
  · rw [merge_apply]
    split <;> exact List.Subset.refl _
  · exact (keepsOnce_plain fun _ => List.Subset.refl _).bind fun _ _ =>
      (keepsOnce_batch _ _).bind fun _ _ => .pure trivial

theorem keepsOnce_noted {operation : Operation} (indirect : operation.isDirect = false) :
    KeepsOnce operation.noted := by
  have reads (data : Value) (s : Session) : s.exported ⊆ (readGraph data s).2.exported := by
    rw [readGraph_apply]
    split <;> exact List.Subset.refl _
  cases operation with
  | scan data => exact (keepsOnce_plain (reads data)).bind fun g _ => keepsOnce_start _
  | rescan => exact (keepsOnce_plain fun _ => List.Subset.refl _).bind fun s _ => keepsOnce_start _
  | load data => exact (keepsOnce_moduleLoaded data).bind fun _ _ => .pure trivial
  | adopt data =>
    refine keepsOnce_plain fun s => ?_
    show s.exported ⊆ ((readGraph data >>= Session.adopt) s).2.exported
    have read := reads data s
    rcases run : readGraph data s with ⟨e | g, t⟩
    · rwa [bind_of_error run, ← show (readGraph data s).2 = t by rw [run]]
    · rwa [bind_of_ok run, ← show (readGraph data s).2 = t by rw [run]]
  | batch forced types => exact keepsOnce_batch forced types
  | visit force id => exact keepsOnce_visit force id
  | exportAs form id => cases indirect
  | saveModules => exact keepsOnce_of_keeps fun ids => (stepwise_marks ids).lasting.saveModuleUnits
  | commit => exact keepsOnce_of_keeps fun ids =>
      ((stepwise_marks ids).enduring.onWorkspace _).bind fun _ => .pure _
  | discard => exact keepsOnce_of_keeps fun ids => (stepwise_marks ids).enduring.onWorkspace _
  | properties id => exact keepsOnce_of_keeps fun ids =>
      ((stepwise_marks ids).enduring.properties id).bind fun _ => .pure _
  | functions id => exact keepsOnce_of_keeps fun ids => (Keeps.get.bind fun _ => .pure _).bind fun t =>
      ((stepwise_marks ids).lasting.exportedFunctions t).bind fun _ => .pure _
  | layout ref =>
    refine keepsOnce_of_keeps fun ids => Keeps.get.bind fun _ => ?_
    exact .ite (((stepwise_marks ids).measured ref).bind fun _ => .pure _) (.pure _)
  | outside files => exact keepsOnce_plain fun _ => List.Subset.refl _

theorem savedOnce_after {operations : List Operation}
    (indirect : ∀ operation ∈ operations, operation.isDirect = false) (hx : SavedOnce x) :
    SavedOnce (notedAfter x operations) := by
  induction operations generalizing x with
  | nil => exact hx
  | cons operation operations ih =>
    have kept := keepsOnce_noted (indirect operation List.mem_cons_self)
    refine ih (fun o ho => indirect o (List.mem_cons_of_mem _ ho)) ?_
    show SavedOnce (operation.noted x).2
    rcases run : operation.noted x with ⟨e | y, t⟩
    · exact kept.fault hx run
    · exact (kept.result hx run).2

/-- Properties are remembered of types that there are. -/
def RemembersTypes (s : Session) : Prop :=
  ∀ id ps, s.acceptedProperties.lookup id = some ps → id < s.store.size

def Spare (n : Nat) (s : Session) : Prop :=
  RemembersTypes s ∧ Fewer s.store.size (fun id => s.blittable.lookup (some id) = none) n

theorem RemembersTypes.accepting {id : TypeId} (h : RemembersTypes s)
    (there : (s.store.type id).properties?.isSome) : RemembersTypes (s.accepting id) := by
  intro d ps found
  by_cases same : d = id
  · subst same
    exact TypeStore.lt_size_of_isSome there
  · refine h d ps ?_
    simpa only [Session.accepting, List.lookup_cons, beq_eq_false_iff_ne.2 same] using found

theorem lookup_cons_none {α β : Type} [BEq α] [LawfulBEq α] {e : α × β} {es : List (α × β)} {a : α}
    (h : (e :: es).lookup a = none) : es.lookup a = none ∧ a ≠ e.1 := by
  rw [List.lookup_cons] at h
  split at h
  · cases h
  · next other => exact ⟨h, by simpa using other⟩

theorem Spare.asking {n : Nat} (h : Spare n s) (e : Option TypeId × Bool) :
    Spare n { s with blittable := e :: s.blittable } :=
  ⟨h.1, h.2.imp fun _ never => (lookup_cons_none never).1⟩

theorem gated_spare (n : Nat) : Gated (Spare n) (Spare n) where
  faulted _ h := h
  refused _ _ h := h
  accepted _ _ _ there h := ⟨h.1.accepting there, h.2⟩

theorem meets_exportedProperties (id : TypeId) :
    Meets (fun _ => True) (fun e _ => e ≠ .tooDeep) (exportedProperties id) fun _ => True := by
  have gate (owner : TypeNode) (p : Property) : Meets (fun _ => True) (fun e _ => e ≠ Fault.tooDeep)
      (canExportProperty owner p) fun _ => True := by
    have fails : Meets (fun _ => True) (fun e _ => e ≠ Fault.tooDeep)
        (throw .wrongType : Generation PUnit) fun _ => False := .throw fun _ _ => by decide
    unfold canExportProperty
    refine .ite (fun _ => fails.bind fun _ no => no.elim) fun _ => .get_bind fun s _ => ?_
    split
    · exact .pure trivial
    · exact .pure trivial
    · exact Meets.bind (.modify fun _ h => h) fun _ _ => .pure trivial
  have gates (owner : TypeNode) (ps : List Property) : Meets (fun _ => True)
      (fun e _ => e ≠ Fault.tooDeep) (gateProperties owner ps) fun _ => True := by
    induction ps with
    | nil => exact .pure trivial
    | cons p ps ih => exact (gate owner p).bind fun _ _ => ih.bind fun _ _ => .pure trivial
  refine .get_bind fun s _ => ?_
  split
  · exact .pure trivial
  · dsimp only
    split
    · exact .throw fun _ _ => by decide
    · exact (gates _ _).bind fun _ _ => Meets.bind (.modify fun _ h => h) fun _ _ => .pure trivial

theorem lt_size_of_exportedProperties {id : TypeId} {ps : List Property} (h : RemembersTypes s)
    (he : exportedProperties id s = (.ok ps, t)) : id < s.store.size := by
  cases known : s.acceptedProperties.lookup id with
  | some remembered => exact h id remembered known
  | none => exact TypeStore.lt_size_of_isSome (exportedProperties_new known he).1

theorem meets_areBlittable {n : Nat}
    (h : ∀ ref, Meets (Spare n) (fun e _ => e ≠ .tooDeep) (structBlittableWithin n ref)
      fun _ => True)
    (ps : List Property) :
    Meets (Spare n) (fun e _ => e ≠ .tooDeep)
      (ps.allM (isPropertyBlittable (structBlittableWithin n))) fun _ => True := by
  refine Meets.allM fun p _ => .ite (fun _ => ?_) fun _ => .pure trivial
  unfold isValueBlittable
  split
  · exact .pure trivial
  · exact .pure trivial
  · exact h _
  · exact .pure trivial

/-- A type counts as asked for before its properties are, so the question never nests as deep as its
bound. -/
theorem meets_structBlittableWithin (n : Nat) (ref : Option TypeId) :
    Meets (Spare n) (fun e _ => e ≠ .tooDeep) (structBlittableWithin n ref) fun _ => True := by
  have keeps := (gated_spare n).asking.structBlittableWithin (fun _ e h => h.asking e) n ref
  refine ⟨fun hs he => ⟨trivial, keeps.result hs he⟩, ?_⟩
  clear keeps
  induction n generalizing ref with
  | zero => exact fun hs => absurd hs.2 Fewer.not_zero
  | succ n ih =>
    intro s t e hs he
    cases never : s.blittable.lookup ref with
    | some known =>
      rw [structBlittableWithin_known n never] at he
      cases he
    | none =>
      cases ref with
      | none =>
        cases (structBlittableWithin_none n never).symm.trans he
        decide
      | some id =>
        rw [structBlittableWithin_new n never] at he
        obtain he | ⟨_, _, -, noted⟩ := bind_eq_error.1 he
        swap
        · cases noted
        obtain gated | ⟨ps, u, gated, asked⟩ := bind_eq_error.1 he
        · exact (meets_exportedProperties id).fault trivial gated
        have inside := lt_size_of_exportedProperties
          (s := { s with blittable := (some id, false) :: s.blittable }) hs.1 gated
        have counted : Spare n { s with blittable := (some id, false) :: s.blittable } :=
          ⟨hs.1, hs.2.without inside never fun d asked => by simpa using lookup_cons_none asked⟩
        have hu := ((gated_spare n).exportedProperties id).result counted gated
        have nested (ref : Option TypeId) : Meets (Spare n) (fun e _ => e ≠ .tooDeep)
            (structBlittableWithin n ref) fun _ => True :=
          ⟨fun hs he => ⟨trivial, ((gated_spare n).asking.structBlittableWithin
            (fun _ e h => h.asking e) n ref).result hs he⟩, ih ref⟩
        exact (meets_areBlittable nested ps).fault hu asked

/-- Asked of any session, the layout of a type is found out within the bound. -/
theorem isStructBlittable_within (h : RemembersTypes s) (ref : Option TypeId) :
    (isStructBlittable ref s).1 ≠ .error .tooDeep := by
  have bounded : isStructBlittable ref s = structBlittableWithin (s.store.size + 2) ref s :=
    bind_of_ok (get_apply s) _
  rw [bounded]
  rcases run : structBlittableWithin (s.store.size + 2) ref s with ⟨e | b, t⟩
  · rintro ⟨⟩
    exact (meets_structBlittableWithin _ ref).fault ⟨h, (Fewer.of_size _).more⟩ run rfl
  · rintro ⟨⟩

theorem stepwise_remembersTypes : Stepwise RemembersTypes where
  faulted _ h := h
  refused _ _ h := h
  accepted _ _ _ there h := h.accepting there
  registered _ _ _ _ _ h := h
  measured ref := Gated.isStructBlittable ⟨fun _ h => h, fun _ _ h => h,
    fun _ _ _ there h => h.accepting there⟩ (fun _ _ h => h) ref
  marked _ _ h := h
  passedOver _ _ h := h
  extended _ _ h := h
  files _ _ h := h
  adopted _ _ _ h := h
  read _ _ _ _ linked inside hread h id ps found :=
    Nat.lt_of_lt_of_le (h id ps found) (Graph.extend_grows linked.store inside hread).1.size_le

/-- Visits nest less deep than their bound, so any larger one gives the same outcome. -/
theorem visitWithin_of_le {fuel : Nat} (enough : t.store.size + 2 ≤ fuel) (force : Bool)
    (id : TypeId) : visitWithin fuel force id t = visit force id t := by
  obtain ⟨r, u, more, run, looser⟩ :=
    Noted.follows_visitWithin (.inr ⟨trivial, enough⟩) force id t []
  have exactly : Noted.Follows False (Noted.visitWithin (t.store.size + 2) force id)
      (Session.visitWithin (t.store.size + 2) force id) :=
    Noted.follows_visitWithin (.inl rfl) force id
  obtain ⟨r', u', more', run', no | exact'⟩ := exactly t []
  · exact no.1.elim
  have once : SavedOnce (u, more ++ []) := by
    have start : SavedOnce (t, []) := ⟨[], rfl, .nil, by simp⟩
    have visited : Noted.visit force id (t, []) = (r, (u, more ++ [])) := run
    rcases r with e | x
    · exact (keepsOnce_visit force id).fault start visited
    · exact ((keepsOnce_visit force id).result start visited).2
  obtain ⟨saved, noted, -⟩ := once
  obtain ⟨-, reached⟩ | same := looser
  · have : Note.bound ∈ saved.map Note.saved := noted ▸ List.mem_append_left _ reached
    obtain ⟨_, _, no⟩ := List.mem_map.1 this
    cases no
  · rw [same]
    show (r, u) = Session.visitWithin (t.store.size + 2) force id t
    rw [exact']
    obtain ⟨rfl, same'⟩ := Prod.mk.inj (run.symm.trans run')
    rw [(Prod.mk.inj same').1]

theorem superChain_of_le {store : TypeStore} (linked : store.Linked) (id : TypeId) {fuel : Nat}
    (enough : store.size + 1 ≤ fuel) :
    superChain store fuel [] (store.type id).super = ancestors store id := by
  have inside : ∀ d ∈ (store.type id).super, d < store.size := by
    intro d hd
    by_cases hid : id < store.size
    · exact linked.super hid hd
    · rw [TypeStore.type_of_size_le (Nat.le_of_not_lt hid)] at hd
      cases hd
  exact superChain_stable linked .nil (by simp) inside enough (Nat.lt_succ_self _)

/-- Over any session, operations that fault included, the visits save the unit of each type at most
once, of marked types only, and never come to export a type that is marked; how deep visits nest,
how deep structs lie in each other and how long the chains of supers are is never cut short by the
bounds. -/
theorem exports_once {policy : Policy} {packaging : Packaging} {fileExtension : Value}
    {files : Workspace} {operations : List Operation}
    (indirect : ∀ operation ∈ operations, operation.isDirect = false)
    (run : s = after (fresh policy packaging fileExtension files) operations) :
    (∃ saved : List TypeId,
      notedAfter (fresh policy packaging fileExtension files, []) operations =
        (s, saved.map Note.saved) ∧ saved.Nodup ∧ ∀ id ∈ saved, id ∈ s.exported) ∧
    (∀ t force id fuel, t.store.size + 2 ≤ fuel →
      visitWithin fuel force id t = visit force id t) ∧
    (RemembersTypes s ∧
      ∀ t, RemembersTypes t → ∀ ref, (isStructBlittable ref t).1 ≠ .error .tooDeep) ∧
    ∀ id fuel, s.store.size + 1 ≤ fuel →
      superChain s.store fuel [] (s.store.type id).super = ancestors s.store id := by
  subst run
  refine ⟨?_, fun t force id fuel enough => visitWithin_of_le enough force id, ⟨?_, fun t h ref =>
    isStructBlittable_within h ref⟩, fun id fuel enough => ?_⟩
  · have start : SavedOnce (fresh policy packaging fileExtension files, []) :=
      ⟨[], rfl, .nil, by simp⟩
    obtain ⟨saved, noted, distinct, marked⟩ := savedOnce_after indirect start
    rw [notedAfter_fst] at marked
    exact ⟨saved, Prod.ext (notedAfter_fst _ _ _) noted, distinct, marked⟩
  · have none : RemembersTypes (fresh policy packaging fileExtension files) :=
      fun _ _ found => by cases found
    exact ((stepwise_linked.enduring.and stepwise_remembersTypes.enduring).after
      (fun _ h => h.1) ⟨linked_fresh _ _ _ _, none⟩).2
  · exact superChain_of_le (linked_after operations (linked_fresh _ _ _ _)).store id enough

/-- A struct that holds itself is asked for three times, between visits to what it holds. -/
def ringVisits : List Operation :=
  [.adopt ringDocument, .visit true 1, .visit false 0, .visit true 1]

theorem ringVisits_notes : (notedAfter (ringSession, []) ringVisits).2 = [.saved 1, .saved 0] := by
  decide +kernel

theorem exports_once_of_ring : ∃ saved : List TypeId,
    notedAfter (ringSession, []) ringVisits = (after ringSession ringVisits, saved.map Note.saved) ∧
      saved.Nodup ∧ saved = [1, 0] := by
  have indirect : ∀ operation ∈ ringVisits, operation.isDirect = false := by decide
  obtain ⟨⟨saved, noted, distinct, -⟩, -⟩ := exports_once indirect
    (rfl : after ringSession ringVisits = after ringSession ringVisits)
  refine ⟨saved, noted, distinct, ?_⟩
  have found : saved.map Note.saved = [1, 0].map Note.saved :=
    (congrArg Prod.snd noted).symm.trans ringVisits_notes
  exact List.map_injective_iff.2 (fun _ _ same => Note.saved.inj same) found

end ScriptGlue.Session
