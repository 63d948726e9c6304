import ScriptGlue.Proofs.Session.Faults
import ScriptGlue.Proofs.Session.Notes
import ScriptGlue.Proofs.Session.Traversal

/-! # Exports in progress

Between the mark of a type and the save of its unit other types are exported. An invariant of runs
that take notes may speak of the exports that are in progress, innermost first, and of a fault in
particular. It is enough to know what each step does to it. As a visit that goes on marks a type of
the store, the visits that follow never nest as deep as their bound.
-/
namespace ScriptGlue.Session
open ScriptGlue.Action

variable {s t u : Session}

/-- From `P` results lead to `Q`, and a fault leaves what `J` says of it. -/
structure Leads {σ α : Type} (P : σ → Prop) (a : Action σ α) (Q : σ → Prop) (J : Fault → σ → Prop) :
    Prop where
  result : ∀ {s t x}, P s → a s = (.ok x, t) → Q t
  fault : ∀ {s t e}, P s → a s = (.error e, t) → J e t

namespace Leads
variable {σ α β : Type} {P Q R : σ → Prop} {J : Fault → σ → Prop} {a : Action σ α}
  {f : α → Action σ β} {good : α → Prop}

theorem bind (h : Leads P a Q J) (g : ∀ x, Leads Q (f x) R J) : Leads P (a >>= f) R J where
  result hs he := by
    obtain ⟨x, t, hx, hy⟩ := bind_eq_ok.1 he
    exact (g x).result (h.result hs hx) hy
  fault hs he := by
    obtain hx | ⟨x, t, hx, hy⟩ := bind_eq_error.1 he
    · exact h.fault hs hx
    · exact (g x).fault (h.result hs hx) hy

theorem of_meets (h : Meets P J a good) (g : ∀ x, good x → Leads P (f x) Q J) :
    Leads P (a >>= f) Q J where
  result hs he := by
    obtain ⟨x, t, hx, hy⟩ := bind_eq_ok.1 he
    obtain ⟨hgood, ht⟩ := h.result hs hx
    exact (g x hgood).result ht hy
  fault hs he := by
    obtain hx | ⟨x, t, hx, hy⟩ := bind_eq_error.1 he
    · exact h.fault hs hx
    · obtain ⟨hgood, ht⟩ := h.result hs hx
      exact (g x hgood).fault ht hy

theorem imp (h : Leads P a Q J) (hP : ∀ s, R s → P s) {S : σ → Prop} (hQ : ∀ s, Q s → S s) :
    Leads R a S J where
  result hs he := hQ _ (h.result (hP _ hs) he)
  fault hs he := h.fault (hP _ hs) he

theorem pure (h : ∀ s, P s → Q s) (x : α) : Leads P (Pure.pure x : Action σ α) Q J where
  result hs he := (pure_eq_ok.1 he).2 ▸ h _ hs
  fault _ he := by cases he

theorem and (h : Leads P a Q J) {S : σ → Prop} (hS : ∀ s, S s → S (a s).2) :
    Leads (fun s => P s ∧ S s) a (fun s => Q s ∧ S s) J where
  result {s t x} hs he := ⟨h.result hs.1 he, by simpa [he] using hS s hs.2⟩
  fault hs he := h.fault hs.1 he

theorem meets (h : Leads P a P J) : Meets P J a fun _ => True where
  result hs he := ⟨trivial, h.result hs he⟩
  fault hs he := h.fault hs he

end Leads

def Fewer (size : Nat) (P : Nat → Prop) (n : Nat) : Prop :=
  ∀ ids : List Nat, ids.Nodup → (∀ id ∈ ids, id < size ∧ P id) → ids.length < n

namespace Fewer
variable {size n : Nat} {P Q : Nat → Prop}

theorem of_size (P : Nat → Prop) : Fewer size P (size + 1) := fun _ distinct h =>
  Nat.lt_succ_of_le (length_le_of_nodup distinct fun id hid => (h id hid).1)

theorem imp (h : Fewer size P n) (of : ∀ id, Q id → P id) : Fewer size Q n :=
  fun ids distinct hids => h ids distinct fun id hid => (hids id hid).imp_right (of id)

theorem more (h : Fewer size P n) : Fewer size P (n + 1) :=
  fun ids distinct hids => Nat.lt_succ_of_lt (h ids distinct hids)

theorem without {id : Nat} (h : Fewer size P (n + 1)) (inside : id < size) (had : P id)
    (of : ∀ d, Q d → P d ∧ d ≠ id) : Fewer size Q n := by
  intro ids distinct hids
  have fresh : id ∉ ids := fun hid => (of id (hids id hid).2).2 rfl
  have := h (id :: ids) (List.nodup_cons.2 ⟨fresh, distinct⟩) fun d hd => by
    obtain rfl | hd := List.mem_cons.1 hd
    · exact ⟨inside, had⟩
    · exact (hids d hd).imp_right fun hq => (of d hq).1
  exact Nat.lt_of_succ_lt_succ this

theorem not_zero : ¬Fewer size P 0 := fun h => Nat.not_lt_zero _ (h [] .nil (by simp))

end Fewer

def Room (n : Nat) (s : Session) : Prop := Fewer s.store.size (· ∉ s.exported) n

theorem Room.later {n : Nat} (h : Room n s) (store : t.store = s.store)
    (exported : s.exported ⊆ t.exported) : Room n t := by
  unfold Room at h ⊢
  rw [store]
  exact h.imp fun _ fresh known => fresh (exported known)

theorem Room.marking {n : Nat} {id : TypeId} (h : Room (n + 1) s) (inside : id < s.store.size)
    (fresh : id ∉ s.exported) : Room n { s with exported := id :: s.exported } :=
  h.without inside fresh fun _ hd => by simpa [and_comm] using hd

theorem Inert.and {I J R K : Session → Prop} (h : Inert I J) (g : Inert R K) :
    Inert (fun s => I s ∧ R s) J where
  faulted s hs := h.faulted s hs.1
  refused s e hs := ⟨h.refused s e hs.1, g.refused s e hs.2⟩
  accepted s id new inside hs := ⟨h.accepted s id new inside hs.1, g.accepted s id new inside hs.2⟩
  recorded s r hs := ⟨h.recorded s r hs.1, g.recorded s r hs.2⟩
  registered s m directory found truthy hs :=
    ⟨h.registered s m directory found truthy hs.1, g.registered s m directory found truthy hs.2⟩
  measured s ref b hs := ⟨h.measured s ref b hs.1, g.measured s ref b hs.2⟩

theorem inert_of_marks {I J : Session → Prop} (faulted : ∀ s, I s → J s)
    (h : ∀ s t, SameRules s t → t.exported = s.exported → I s → I t) : Inert I J where
  faulted := faulted
  refused s _ := h s _ ⟨rfl, rfl⟩ rfl
  accepted s _ _ _ := h s _ ⟨rfl, rfl⟩ rfl
  recorded s _ := h s _ ⟨rfl, rfl⟩ rfl
  registered s _ _ _ _ := h s _ ⟨rfl, rfl⟩ rfl
  measured s _ _ := h s _ ⟨rfl, rfl⟩ rfl

theorem inert_room (n : Nat) : Inert (Room n) (Room n) :=
  inert_of_marks (fun _ h => h) fun _ _ rules exported h =>
    h.later rules.2 (exported ▸ List.Subset.refl _)

def Ready (n : Nat) (id : TypeId) (s : Session) : Prop := Room (n + 1) s ∧ id ∉ s.exported

theorem inert_ready (n : Nat) (id : TypeId) : Inert (Ready n id) (Ready n id) :=
  inert_of_marks (fun _ h => h) fun _ _ rules exported ready =>
    ⟨ready.1.later rules.2 (exported ▸ List.Subset.refl _), exported ▸ ready.2⟩

theorem lasting_room (n : Nat) : Lasting (Room n) (Room n) where
  toSteady := (inert_room n).steady
  extended _ _ h := h.later rfl (List.Subset.refl _)
  marked _ id h := h.later rfl (List.subset_cons_self id _)
  passedOver _ _ h := h.later rfl (List.Subset.refl _)
  saved := keeps_saveUnit (fun _ h => h) fun _ _ h => h.later rfl (List.Subset.refl _)

namespace Noted

theorem meets_plain {α : Type} {I : Session × List Note → Prop}
    {J : Fault → Session × List Note → Prop} {a : Generation α} {good : α → Prop}
    (h : ∀ notes, Meets (fun s => I (s, notes)) (fun e s => J e (s, notes)) a good) :
    Meets I J (plain a) good where
  result := by
    rintro ⟨s, notes⟩ t x hs he
    obtain ⟨hx, rfl⟩ := Prod.mk.inj he
    exact (h notes).result hs (Prod.ext hx rfl)
  fault := by
    rintro ⟨s, notes⟩ t e hs he
    obtain ⟨hx, rfl⟩ := Prod.mk.inj he
    exact (h notes).fault hs (Prod.ext hx rfl)

section
variable {I : Session × List Note → Prop} {J : Fault → Session × List Note → Prop} {visit : Visit}
  (visits : ∀ force id, Meets I J (visit force id) fun _ => True)
include visits

theorem meets_visitSome (ref : Option TypeId) : Meets I J (visitSome visit ref) fun _ => True := by
  cases ref with
  | none => exact .pure trivial
  | some id => exact visits true id

omit visits in
mutual

theorem meets_dependencies (visits : ∀ force id, Meets I J (visit force id) fun _ => True) :
    ∀ p : Property, Meets I J (exportDependencies visit p) fun _ => True
  | ⟨_, kind, _, _, ref, inner, value, _, _, _⟩ => by
    unfold exportDependencies
    exact (meets_visitSome visits _).bind fun _ _ => (meets_elementDependencies visits inner).bind
      fun _ _ => meets_elementDependencies visits value

theorem meets_elementDependencies (visits : ∀ force id, Meets I J (visit force id) fun _ => True) :
    ∀ p : Option Property, Meets I J (exportElementDependencies visit p) fun _ => True
  | some p => meets_dependencies visits p
  | none => .pure trivial

end

end

end Noted

/-- The types whose exports are in progress, innermost first; the flag tells of those whose
extension methods are collected. -/
abbrev Stack := List (TypeId × Bool)

/-- An invariant that the steps of a generation keep while it begins and ends exports. -/
structure Nesting (base : Session) (I : Stack → Session × List Note → Prop)
    (J : Fault → Session × List Note → Prop) : Prop where
  rules : ∀ stack x, I stack x → SameRules base x.1
  inert : ∀ stack notes, Inert (fun s => I stack (s, notes)) fun s => ∀ e, J e (s, notes)
  passedOver : ∀ stack s notes v, I stack (s, notes) →
    I stack ({ s with skipped := v :: s.skipped }, notes)
  marked : ∀ stack s notes id, id < base.store.size → id ∉ s.exported → I stack (s, notes) →
    I ((id, false) :: stack) ({ s with exported := id :: s.exported }, notes)
  gathered : ∀ stack id ps events, (base.store.type id).isClass →
    isInterface base.store id = false →
    Leads (I ((id, false) :: stack))
      (Noted.plain (classMembers id (base.store.type id) ps
        (base.passedFunctions (base.store.type id)) events))
      (I ((id, true) :: stack)) J
  saved : ∀ stack id b code, (b = false → base.methodsOf id = []) →
    Leads (I ((id, b) :: stack)) (Noted.saveTypeUnit id (base.store.type id) code) (I stack) J
  extensions : ∀ s notes name, I [] (s, notes) → name ∈ s.extendedModules →
    Meets (fun s => I [] (s, notes)) (fun e s => J e (s, notes)) (saveExtensions name) fun _ => True

abbrev With (I : Session × List Note → Prop) (R : Session → Prop) (x : Session × List Note) : Prop :=
  I x ∧ R x.1

namespace Nesting
open Noted (plain)

variable {base : Session} {I : Stack → Session × List Note → Prop}
  {J : Fault → Session × List Note → Prop} (h : Nesting base I J) {stack : Stack} {n : Nat}
include h

theorem faulted {x : Session × List Note} (hx : I stack x) (e : Fault) : J e x :=
  (h.inert stack x.2).faulted x.1 hx e

theorem makes {α : Type} {R : Session → Prop} (inert : Inert R R) {a : Generation α}
    (keeps : ∀ {I J : Session → Prop}, Steady (fun _ => True) I J → Keeps I J a) :
    Meets (With (I stack) R) J (plain a) fun _ => True :=
  Noted.meets_plain fun notes =>
    have kept := keeps ((h.inert stack notes).and inert).steady
    ⟨fun hs he => ⟨trivial, kept.result hs he⟩, fun hs he => kept.fault hs he _⟩

theorem typeAt {R : Session → Prop} (id : TypeId) :
    Meets (With (I stack) R) J (plain (Session.typeAt id)) fun t => t = base.store.type id where
  result := by
    rintro ⟨s, notes⟩ t x hs he
    cases he
    exact ⟨by rw [(h.rules stack _ hs.1).2], hs⟩
  fault _ he := by cases he

theorem throws {R : Session → Prop} {α : Type} {good : α → Prop} (e : Fault) :
    Meets (With (I stack) R) J (throw e : Noted α) good :=
  .throw fun _ hs => h.faulted hs.1 e

theorem reads {R : Session → Prop} :
    Meets (With (I stack) R) J (plain get) fun s => SameRules base s where
  result := by
    rintro ⟨s, notes⟩ t x hs he
    cases he
    exact ⟨h.rules stack _ hs.1, hs⟩
  fault _ he := by cases he

/-- The functions that pass are those of the session that the generation began in. -/
theorem exportedFunctions {R : Session → Prop} (inert : Inert R R) (t : TypeNode) :
    Meets (With (I stack) R) J (plain (Session.exportedFunctions t)) fun passed =>
      passed.1 = base.passedFunctions t where
  result := by
    rintro ⟨s, notes⟩ u passed hs he
    have kept := (h.makes inert fun steady => steady.exportedFunctions t).result hs he
    obtain ⟨found, -⟩ := Prod.mk.inj he
    rw [(exportedFunctions_ok (Prod.ext found rfl)).1, (h.rules stack _ hs.1).passedFunctions]
    exact ⟨rfl, kept.2⟩
  fault hs he := (h.makes inert fun steady => steady.exportedFunctions t).fault hs he

section
variable {visit : Noted.Visit} (visits : ∀ stack force id,
  Meets (With (I stack) (Room n)) J (visit force id) fun _ => True)
include visits

theorem exportInterfaces (own : String) (imports : List String) (ids : List TypeId) :
    Meets (With (I stack) (Room n)) J (Noted.exportInterfaces visit own imports ids)
      fun _ => True := by
  induction ids generalizing imports with
  | nil => exact .pure trivial
  | cons id rest ih =>
    exact (visits stack true id).bind fun _ _ => (h.typeAt id).bind fun _ _ =>
      (h.makes (inert_room n) fun steady => steady.spaceOf trivial).bind fun _ _ => ih _

/-- A class's extension methods are collected when all it needs is exported. -/
theorem classUnit {id : TypeId} (variant : (base.store.type id).isClass)
    (isPlain : isInterface base.store id = false) :
    Leads (With (I ((id, false) :: stack)) (Room n))
      (Noted.classUnit visit id (base.store.type id)) (With (I ((id, true) :: stack)) (Room n)) J := by
  have makes {α : Type} {a : Generation α} := @makes _ _ _ h ((id, false) :: stack) α _ (inert_room n) a
  refine .of_meets (Noted.meets_visitSome (visits _) _) fun _ _ => ?_
  refine .of_meets (makes fun steady => steady.spaceOf trivial) fun _ _ => ?_
  refine .of_meets h.reads fun _ _ => ?_
  refine .of_meets (h.exportInterfaces visits _ _ _) fun _ _ => ?_
  refine .of_meets (makes fun steady => steady.superClassName _) fun _ _ => ?_
  refine .of_meets (makes fun steady => Keeps.mapM fun d _ => steady.qualifiedName d) fun _ _ => ?_
  refine .of_meets (makes fun steady => steady.exportedProperties id) fun ps _ => ?_
  refine .of_meets (h.exportedFunctions (inert_room n) _) fun passed found => ?_
  obtain ⟨functions, events⟩ := passed
  obtain rfl : functions = _ := found
  refine .of_meets (Meets.forM fun p _ => Noted.meets_dependencies (visits _) p) fun _ _ => ?_
  refine .of_meets (Meets.forM fun f _ => Meets.forM fun p _ =>
    Noted.meets_dependencies (visits _) p) fun _ _ => ?_
  refine .bind ?_ fun _ => .pure (fun _ hs => hs) _
  exact (h.gathered stack id ps events variant isPlain).and fun s hs =>
    (((lasting_room n).collecting id).classMembers _ _ _ _).outcome hs

omit visits in
theorem saveTypeUnit (id : TypeId) {b : Bool} (collected : b = false → base.methodsOf id = [])
    (code : Code) : Leads (With (I ((id, b) :: stack)) (Room n))
      (Noted.saveTypeUnit id (base.store.type id) code) (With (I stack) (Room n)) J :=
  (h.saved stack id b code collected).and fun _ hs =>
    ((lasting_room n).saveTypeUnit _ code).outcome hs

end

theorem marking {id : TypeId} (inside : id < base.store.size) {body : TypeNode → Noted Unit}
    (hbody : Leads (With (I ((id, false) :: stack)) (Room n)) (body (base.store.type id))
      (With (I stack) (Room n)) J) :
    Leads (With (I stack) (Ready n id)) (do
      let t ← plain (Session.typeAt id)
      if ← Noted.mark id t then body t) (With (I stack) (Room (n + 1))) J := by
  have begun {x : Session × List Note} (hx : With (I stack) (Ready n id) x) :
      With (I ((id, false) :: stack)) (Room n) ({ x.1 with exported := id :: x.1.exported }, x.2) :=
    ⟨h.marked stack x.1 x.2 id inside hx.2.2 hx.1,
      hx.2.1.marking ((h.rules stack x hx.1).2 ▸ inside) hx.2.2⟩
  have runs {x : Session × List Note} (hx : With (I stack) (Ready n id) x) : (do
      let t ← plain (Session.typeAt id)
      if ← Noted.mark id t then body t) x =
        body (base.store.type id) ({ x.1 with exported := id :: x.1.exported }, x.2) := by
    have node : plain (Session.typeAt id) x = (.ok (base.store.type id), x) := by
      rw [← (h.rules stack x hx.1).2]
      rfl
    have fresh : Noted.mark id (base.store.type id) x =
        (.ok true, ({ x.1 with exported := id :: x.1.exported }, x.2)) := by
      have marks : plain (Session.mark id (base.store.type id)) x =
          (.ok true, ({ x.1 with exported := id :: x.1.exported }, x.2)) := by
        unfold plain within
        rw [mark_fresh _ hx.2.2]
      exact bind_of_ok marks _
    rw [bind_of_ok node, bind_of_ok fresh]
    rfl
  refine ⟨fun {x t u} hx he => ?_, fun {x t u} hx he => ?_⟩
  · rw [runs hx] at he
    exact (hbody.result (begun hx) he).imp_right Fewer.more
  · rw [runs hx] at he
    exact hbody.fault (begun hx) he

theorem exportInterface {id : TypeId} (inside : id < base.store.size)
    (none : base.methodsOf id = []) :
    Leads (With (I stack) (Ready n id)) (Noted.exportInterface id) (With (I stack) (Room (n + 1)))
      J :=
  h.marking inside <| .of_meets (h.makes (inert_room n) fun steady => steady.interfaceUnit trivial)
    fun _ _ => h.saveTypeUnit id (fun _ => none) _

theorem exportEnum {id : TypeId} (inside : id < base.store.size) (none : base.methodsOf id = []) :
    Leads (With (I stack) (Ready n id)) (Noted.exportEnum id) (With (I stack) (Room (n + 1))) J :=
  h.marking inside <| .of_meets (h.makes (inert_room n) fun steady => steady.enumUnit trivial)
    fun _ _ => h.saveTypeUnit id (fun _ => none) _

section
variable {visit : Noted.Visit} (visits : ∀ stack force id,
  Meets (With (I stack) (Room n)) J (visit force id) fun _ => True)
include visits

theorem exportStruct {id : TypeId} (inside : id < base.store.size) (none : base.methodsOf id = []) :
    Leads (With (I stack) (Ready n id)) (Noted.exportStruct visit id)
      (With (I stack) (Room (n + 1))) J := by
  refine h.marking inside ?_
  refine .of_meets (h.makes (inert_room n) fun steady => steady.exportedProperties id) fun ps _ => ?_
  refine .of_meets (Meets.forM fun p _ => Noted.meets_dependencies (visits _) p) fun _ _ => ?_
  exact .of_meets (h.makes (inert_room n) fun steady => steady.structUnit id trivial ps)
    fun _ _ => h.saveTypeUnit id (fun _ => none) _

theorem exportClass {id : TypeId} (inside : id < base.store.size)
    (isPlain : isInterface base.store id = false) :
    Leads (With (I stack) (Ready n id)) (Noted.exportClass visit id)
      (With (I stack) (Room (n + 1))) J := by
  refine h.marking inside ?_
  cases variant : (base.store.type id).isClass with
  | true => exact (h.classUnit visits variant isPlain).bind fun _ => h.saveTypeUnit id (by simp) _
  | false => exact .of_meets (h.throws _) fun _ (no : False) => no.elim

theorem dispatch {id : TypeId} (inside : id < base.store.size) (force : Bool) :
    Leads (With (I stack) (Ready n id)) (Noted.dispatch visit force id (base.store.type id))
      (With (I stack) (Room (n + 1))) J := by
  have left : Leads (With (I stack) (Ready n id)) (Pure.pure () : Noted Unit)
      (With (I stack) (Room (n + 1))) J := .pure (fun _ hs => hs.imp_right And.left) _
  have asClass : Leads (With (I stack) (Ready n id)) (do
      let _ ← plain (register (base.store.type id).home)
      let s ← plain get
      if isInterface s.store id then Noted.exportInterface id
      else if force || s.shouldExportClass id then Noted.exportClass visit id)
      (With (I stack) (Room (n + 1))) J := by
    refine .of_meets (h.makes (inert_ready n id) fun steady => steady.register trivial) fun _ _ => ?_
    refine .of_meets h.reads fun s rules => ?_
    cases interface : isInterface base.store id with
    | true =>
      rw [if_pos (by rw [rules.2, interface])]
      refine h.exportInterface inside ?_
      unfold methodsOf
      split <;> simp [interface]
    | false =>
      rw [if_neg (by simp [rules.2, interface])]
      split
      · exact h.exportClass visits inside interface
      · exact left
  unfold Noted.dispatch
  split
  · exact asClass
  · exact asClass
  · next body =>
    refine .of_meets h.reads fun _ _ => ?_
    split
    · exact h.exportStruct visits inside (by simp [methodsOf, TypeNode.variant, body])
    · exact left
  · next body =>
    refine .of_meets h.reads fun _ _ => ?_
    split
    · exact h.exportEnum inside (by simp [methodsOf, TypeNode.variant, body])
    · exact left

end

theorem noteSkipped {R : Session → Prop} (inert : Inert R R)
    (passedOver : ∀ s v, R s → R { s with skipped := v :: s.skipped }) (t : TypeNode) :
    Meets (With (I stack) R) J (plain (Session.noteSkipped t)) fun _ => True := by
  refine Noted.meets_plain fun notes => .bind (.modify fun s hs => ?_) fun _ _ => ?_
  · exact ⟨h.passedOver stack s notes _ hs.1, passedOver s _ hs.2⟩
  · have kept := ((h.inert stack notes).and inert).steady.tell .debug .session
      ("  skipped " ++ t.label)
    exact ⟨fun hs he => ⟨trivial, kept.result hs he⟩, fun hs he => kept.fault hs he _⟩

/-- Where fewer types are not marked than visits may nest, no visit nests as deep as its bound. -/
theorem visitWithin (fuel : Nat) (stack : Stack) (force : Bool) (id : TypeId) :
    Meets (With (I stack) (Room fuel)) J (Noted.visitWithin fuel force id) fun _ => True := by
  induction fuel generalizing stack force id with
  | zero =>
    exact ⟨fun hs => absurd hs.2 Fewer.not_zero, fun hs => absurd hs.2 Fewer.not_zero⟩
  | succ fuel ih =>
    have entered : Leads (With (I stack) (Ready fuel id)) (do
        let t ← plain (Session.typeAt id)
        if ← Action.ofExcept (shouldSkip t) then plain (Session.noteSkipped t)
        else Noted.dispatch (Noted.visitWithin fuel) force id t) (With (I stack) (Room (fuel + 1)))
        J := by
      refine .of_meets (h.typeAt id) fun t node => ?_
      subst node
      refine .of_meets (Meets.ofExcept (fun _ asked => asked) fun e _ x hx => h.faulted hx.1 e)
        fun skips asked => ?_
      split
      · have noted := @noteSkipped _ _ _ h stack _ (inert_ready fuel id) (fun _ _ ready => ready)
          (base.store.type id)
        exact ⟨fun hs he => (noted.result hs he).2.imp_right And.left, noted.fault⟩
      · exact h.dispatch ih (lt_size_of_shouldSkip asked) force
    have known {x : Session × List Note} (hx : id ∈ x.1.exported) :
        Noted.visitWithin (fuel + 1) force id x = (.ok (), x) := by
      show (if x.1.exported.contains id then Pure.pure () else _ : Noted Unit) x = _
      rw [if_pos (List.contains_iff_mem.2 hx)]
      rfl
    have fresh {x : Session × List Note} (hx : id ∉ x.1.exported) :
        Noted.visitWithin (fuel + 1) force id x = (do
          let t ← plain (Session.typeAt id)
          if ← Action.ofExcept (shouldSkip t) then plain (Session.noteSkipped t)
          else Noted.dispatch (Noted.visitWithin fuel) force id t) x := by
      show (if x.1.exported.contains id then Pure.pure () else _ : Noted Unit) x = _
      rw [if_neg (mt List.contains_iff_mem.1 hx)]
    constructor
    · intro x t y hx he
      by_cases marked : id ∈ x.1.exported
      · cases (known marked).symm.trans he
        exact ⟨trivial, hx⟩
      · exact ⟨trivial, entered.result ⟨hx.1, hx.2, marked⟩ ((fresh marked).symm.trans he)⟩
    · intro x t e hx he
      by_cases marked : id ∈ x.1.exported
      · cases (known marked).symm.trans he
      · exact entered.fault ⟨hx.1, hx.2, marked⟩ ((fresh marked).symm.trans he)

theorem visit (force : Bool) (id : TypeId) :
    Meets (I stack) J (Noted.visit force id) fun _ => True := by
  have room {x : Session × List Note} (hx : I stack x) :
      With (I stack) (Room (x.1.store.size + 2)) x :=
    ⟨hx, (Fewer.of_size _).more⟩
  exact ⟨fun {x t u} hx he => ((h.visitWithin _ stack force id).result (room hx) he).imp_right And.left,
    fun {x t u} hx he => (h.visitWithin _ stack force id).fault (room hx) he⟩

theorem visitRef (force : Bool) (ref : Option TypeId) :
    Meets (I stack) J (Noted.visitRef force ref) fun _ => True := by
  cases ref with
  | none => exact .throw fun _ hx => h.faulted hx _
  | some id => exact h.visit force id

theorem generate (forced types : List (Option TypeId)) :
    Meets (I []) J (Noted.generate forced types) fun _ => True := by
  refine (Meets.forM fun ref _ => h.visitRef true ref).bind fun _ _ => ?_
  refine (Meets.forM fun ref _ => h.visitRef false ref).bind fun _ _ => ?_
  exact Noted.meets_plain fun notes => .get_bind fun s hs => .forM fun name hname =>
    h.extensions s notes name hs hname

end Nesting

end ScriptGlue.Session
