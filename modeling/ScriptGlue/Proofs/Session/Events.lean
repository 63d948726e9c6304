import ScriptGlue.Proofs.Session.Gate

/-! # Events of a class

A class exports its own events that pass and takes up those of its interfaces. An event of an
interface is left out if its name is taken, and a name is taken by the events that are exported: one
that the class declares and does not export leaves its name to the interface.
-/
namespace ScriptGlue.Session
open ScriptGlue.Action

variable {s u : Session} {t : TypeNode} {known known' candidates more joined joined' : List Function}
  {f : Function}

def declaredEvents (t : TypeNode) : List Function := t.functions.filter (·.has .blueprintEvent)

/-- The events of the interfaces of a class that pass, in the order of the interfaces. -/
def interfaceEvents (s : Session) (t : TypeNode) : List Function :=
  (implementedInterfaces s.store t).flatMap fun id => s.ownEvents (s.store.type id)

def Taken (known : List Function) (f : Function) : Prop := ∃ e ∈ known, e.name.same f.name

/-- Of the candidates those are taken up, in order, whose names are taken neither by an event there
is nor by one taken up before. -/
inductive TakesUp : List Function → List Function → List Function → Prop
  | nil (known : List Function) : TakesUp known [] []
  | new {known rest joined : List Function} {f : Function} (free : ¬Taken known f)
      (later : TakesUp (known ++ [f]) rest joined) : TakesUp known (f :: rest) (f :: joined)
  | shadowed {known rest joined : List Function} {f : Function} (taken : Taken known f)
      (later : TakesUp known rest joined) : TakesUp known (f :: rest) joined

theorem TakesUp.append (h : TakesUp known candidates joined)
    (g : TakesUp (known ++ joined) more joined') :
    TakesUp known (candidates ++ more) (joined ++ joined') := by
  induction h with
  | nil => simpa using g
  | new free _ ih => exact .new free (ih (by simpa using g))
  | shadowed taken _ ih => exact .shadowed taken (ih g)

theorem TakesUp.sublist (h : TakesUp known candidates joined) : joined.Sublist candidates := by
  induction h with
  | nil => exact .refl _
  | new _ _ ih => exact ih.cons_cons _
  | shadowed _ _ ih => exact ih.cons _

/-- What counts of the events there are is which candidates have their names. -/
theorem TakesUp.of_taken_iff (h : TakesUp known candidates joined)
    (same : ∀ f ∈ candidates, Taken known f ↔ Taken known' f) : TakesUp known' candidates joined := by
  have taken_append (known : List Function) (e f : Function) :
      Taken (known ++ [e]) f ↔ Taken known f ∨ e.name.same f.name := by
    simp [Taken, or_and_right, exists_or]
  induction h generalizing known' with
  | nil => exact .nil _
  | @new _ rest _ e free _ ih =>
    obtain ⟨here, others⟩ := List.forall_mem_cons.1 same
    refine .new (mt here.2 free) (ih fun f hf => ?_)
    rw [taken_append, taken_append, others f hf]
  | shadowed taken _ ih =>
    obtain ⟨here, others⟩ := List.forall_mem_cons.1 same
    exact .shadowed (here.1 taken) (ih others)

/-- The names of later events are not those of earlier ones. -/
abbrev NamesApart (events : List Function) : Prop :=
  events.Pairwise fun e f => ¬e.name.same f.name

theorem TakesUp.namesApart (h : TakesUp known candidates joined) (apart : NamesApart known) :
    NamesApart (known ++ joined) := by
  induction h with
  | nil => simpa using apart
  | @new known _ _ f free _ ih =>
    have first : NamesApart (known ++ [f]) := List.pairwise_append.2
      ⟨apart, List.pairwise_singleton .., fun e he f hf same =>
        free ⟨e, he, List.mem_singleton.1 hf ▸ same⟩⟩
    simpa using ih first
  | shadowed _ _ ih => exact ih apart

theorem joinEvent_takesUp (interface : TypeNode) (fs known : List Function) : ∃ joined,
    fs.foldl (s.joinEvent interface) known = known ++ joined ∧
      TakesUp known (fs.filter fun f => s.passesFunction interface f && f.has .blueprintEvent)
        joined := by
  induction fs generalizing known with
  | nil => exact ⟨[], by simp, .nil _⟩
  | cons f rest ih =>
    rw [List.foldl_cons, List.filter_cons]
    by_cases candidate : s.passesFunction interface f && f.has .blueprintEvent
    · obtain ⟨passes, event⟩ := Bool.and_eq_true_iff.1 candidate
      rw [if_pos candidate]
      by_cases taken : known.any fun e => e.name.same f.name
      · rw [joinEvent, if_pos (by simp [taken])]
        obtain ⟨joined, all, takes⟩ := ih known
        exact ⟨joined, all, .shadowed (by simpa [Taken] using taken) takes⟩
      · rw [joinEvent, if_neg (by simp [event, taken]), if_pos passes]
        obtain ⟨joined, all, takes⟩ := ih (known ++ [f])
        exact ⟨f :: joined, by simp [all], .new (by simpa [Taken] using taken) takes⟩
    · rw [if_neg candidate]
      have skipped : s.joinEvent interface known f = known := by
        unfold joinEvent
        split
        · rfl
        · next free =>
          simp only [Bool.or_eq_true, not_or, Bool.not_eq_true, Bool.not_eq_false'] at free
          rw [if_neg fun passes => candidate (by simp [passes, free.1])]
      rw [skipped]
      exact ih known

theorem joinEvents_takesUp (ids : List TypeId) (known : List Function) : ∃ joined,
    ids.foldl s.joinEvents known = known ++ joined ∧
      TakesUp known (ids.flatMap fun id => s.ownEvents (s.store.type id)) joined := by
  induction ids generalizing known with
  | nil => exact ⟨[], by simp, .nil _⟩
  | cons id rest ih =>
    obtain ⟨first, all, takes⟩ := joinEvent_takesUp (s := s) (s.store.type id)
      (s.store.type id).functions known
    obtain ⟨later, all', takes'⟩ := ih (known ++ first)
    refine ⟨first ++ later, ?_, ?_⟩
    · rw [List.foldl_cons, joinEvents, all, all', List.append_assoc]
    · rw [List.flatMap_cons]
      exact takes.append takes'

/-- A class exports its own events that pass, and takes up those of its interfaces whose names are
not taken. So the names are apart if those of its declared events are. A declared event that does not
pass takes no name: it makes no difference only if no event of an interface has its name. -/
theorem events_of_class {functions events : List Function}
    (h : exportedFunctions t s = (.ok (functions, events), u)) :
    functions = s.passedFunctions t ∧ ∃ joined, events = s.ownEvents t ++ joined ∧
      TakesUp (s.ownEvents t) (s.interfaceEvents t) joined ∧
      (NamesApart (declaredEvents t) → NamesApart events) ∧
      ((∀ f ∈ declaredEvents t, s.passesFunction t f ∨
          ∀ g ∈ s.interfaceEvents t, ¬f.name.same g.name) →
        TakesUp (declaredEvents t) (s.interfaceEvents t) joined) := by
  obtain ⟨split, -⟩ := exportedFunctions_ok h
  obtain ⟨rfl, rfl⟩ := Prod.mk.inj split
  obtain ⟨joined, all, takes⟩ := joinEvents_takesUp (s := s) (implementedInterfaces s.store t)
    (s.ownEvents t)
  have own : s.ownEvents t = (declaredEvents t).filter (s.passesFunction t) := by
    rw [ownEvents, declaredEvents, List.filter_filter]
  refine ⟨rfl, joined, all, takes, fun apart => ?_, fun unopposed => ?_⟩
  · rw [passedEvents, all]
    exact takes.namesApart (own ▸ apart.filter _)
  · refine takes.of_taken_iff fun g hg => ⟨?_, ?_⟩
    · rintro ⟨f, hf, same⟩
      exact ⟨f, List.mem_of_mem_filter (own ▸ hf), same⟩
    · rintro ⟨f, hf, same⟩
      obtain passes | other := unopposed f hf
      · exact ⟨f, own ▸ List.mem_filter.2 ⟨hf, passes⟩, same⟩
      · exact absurd same (other g hg)

def plainEvent (owner name : String) : Function where
  name := .text name
  flags := [.text (Flag.label .blueprintEvent)]
  owner := .text owner

def eventfulClass : TypeNode where
  name := .text "C"
  home := { name := .text "M" }
  body := .plainClass
    { functions := [plainEvent "C" "Kept", plainEvent "C" "Barred"], interfaces := [1, 2] }

def eventfulInterface (name : String) (events : List String) : TypeNode where
  name := .text name
  home := { name := .text "M" }
  body := .interface { functions := events.map (plainEvent name) }

/-- The policy bars one of the events of the class. -/
def barringSession : Session where
  policy := { blacklist := { functions := [(.text "C", .text "Barred")] } }
  packaging := { scriptsDir := .text "out" }
  store := #[eventfulClass, eventfulInterface "I" ["Kept", "Barred", "New"],
    eventfulInterface "J" ["New"]]

theorem barringSession_events : (exportedFunctions eventfulClass).gives barringSession
    fun (_, events) _ => events.map (fun f => (f.owner, f.name)) ==
      [(.text "C", .text "Kept"), (.text "I", .text "Barred"), (.text "I", .text "New")] := by
  decide +kernel

/-- An event that the class declares and the policy bars comes in from an interface. -/
theorem barred_event_taken_up : ∃ functions events u,
    exportedFunctions eventfulClass barringSession = (.ok (functions, events), u) ∧
      (declaredEvents eventfulClass).any (·.name.same (.text "Barred")) ∧
      ∃ e ∈ events, e.owner = .text "I" ∧ e.name.same (.text "Barred") := by
  obtain ⟨⟨functions, events⟩, u, run, named⟩ := exists_of_gives barringSession_events
  have names := beq_iff_eq.1 named
  refine ⟨functions, events, u, run, by decide +kernel, ?_⟩
  have barred : (Value.text "I", Value.text "Barred") ∈
      events.map fun f => (f.owner, f.name) := by simp [names]
  obtain ⟨e, he, same⟩ := List.mem_map.1 barred
  obtain ⟨owner, name⟩ := Prod.mk.inj same
  exact ⟨e, he, owner, by simp [name]⟩

theorem events_of_class_of_eventful : ∃ functions events u joined,
    exportedFunctions eventfulClass barringSession = (.ok (functions, events), u) ∧
      events = barringSession.ownEvents eventfulClass ++ joined ∧
      TakesUp (barringSession.ownEvents eventfulClass)
        (barringSession.interfaceEvents eventfulClass) joined ∧ NamesApart events := by
  obtain ⟨⟨functions, events⟩, u, run, -⟩ := exists_of_gives barringSession_events
  obtain ⟨-, joined, all, takes, apart, -⟩ := events_of_class run
  exact ⟨functions, events, u, joined, run, all, takes, apart (by decide +kernel)⟩

end ScriptGlue.Session
