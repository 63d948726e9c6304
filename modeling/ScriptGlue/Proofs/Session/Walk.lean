import Mathlib.Data.Set.Basic
import ScriptGlue.Proofs.Session.Dependencies

/-! # Walks

The order in which requested types are exported: a type is marked, then what it needs is walked with
the request forced, then it is finished. A walk marks the least set of types that grants its
requests and is closed under what the types need, however the links loop.
-/
namespace ScriptGlue.Session

abbrev Request := Bool × TypeId

def grants (s : Session) (r : Request) : Bool := r.1 || s.admits r.2

def needs (s : Session) (id : TypeId) : List Request := (s.dependencies id).map (true, ·)

/-- A walk through requests from the marked types, newest first, to those marked after it; the last
list has the newly exported types in the order in which they are finished. -/
inductive Walk (s : Session) : List Request → List TypeId → List TypeId → List TypeId → Prop
  | nil (marked : List TypeId) : Walk s [] marked marked []
  | pass {r : Request} {rest : List Request} {marked after finished : List TypeId}
      (passed : r.2 ∈ marked ∨ Skips s r.2 ∨ Stays s r.2 ∧ s.grants r = false)
      (tail : Walk s rest marked after finished) : Walk s (r :: rest) marked after finished
  | enter {r : Request} {rest : List Request} {marked between after inner outer : List TypeId}
      (fresh : r.2 ∉ marked) (kept : Stays s r.2) (granted : s.grants r)
      (inside : Walk s (s.needs r.2) (r.2 :: marked) between inner)
      (tail : Walk s rest between after outer) :
      Walk s (r :: rest) marked after (inner ++ r.2 :: outer)

def Fulfils (s : Session) (requests : List Request) (S : Set TypeId) : Prop :=
  ∀ r ∈ requests, ¬Skips s r.2 → s.grants r → r.2 ∈ S

def ClosedAt (s : Session) (S : Set TypeId) (id : TypeId) : Prop :=
  ∀ d ∈ s.dependencies id, ¬Skips s d → d ∈ S

theorem fulfils_needs {s : Session} {id : TypeId} {S : Set TypeId} :
    Fulfils s (s.needs id) S ↔ ClosedAt s S id := by
  simp [Fulfils, ClosedAt, needs, grants]

namespace Walk
variable {s : Session} {requests more : List Request}
  {marked between after finished inner outer : List TypeId}

theorem append (first : Walk s requests marked between inner)
    (second : Walk s more between after outer) :
    Walk s (requests ++ more) marked after (inner ++ outer) := by
  induction first with
  | nil => exact second
  | pass passed _ ih => exact .pass passed (ih second)
  | enter fresh kept granted inside _ _ ih =>
    rw [List.append_assoc]
    exact .enter fresh kept granted inside (ih second)

theorem mem_after (h : Walk s requests marked after finished) {id : TypeId} :
    id ∈ after ↔ id ∈ marked ∨ id ∈ finished := by
  induction h with
  | nil => simp
  | pass _ _ ih => exact ih
  | enter _ _ _ _ _ inside tail =>
    rw [tail, inside, List.mem_cons, List.mem_append, List.mem_cons]
    grind

theorem subset (h : Walk s requests marked after finished) : marked ⊆ after :=
  fun _ hid => h.mem_after.2 (.inl hid)

theorem nodup (h : Walk s requests marked after finished) (distinct : marked.Nodup) :
    after.Nodup := by
  induction h with
  | nil => exact distinct
  | pass _ _ ih => exact ih distinct
  | enter fresh _ _ _ _ inside tail => exact tail (inside (List.nodup_cons.2 ⟨fresh, distinct⟩))

/-- No type is marked without need: each set that fulfils the requests and is closed at its new
types holds all that get marked. -/
theorem sound (h : Walk s requests marked after finished) {S : Set TypeId}
    (known : ∀ id ∈ marked, id ∈ S) (fulfils : Fulfils s requests S)
    (closed : ∀ id ∈ S, ClosedAt s S id) : ∀ id ∈ after, id ∈ S := by
  induction h with
  | nil => exact known
  | pass _ _ ih => exact ih known fun r hr => fulfils r (List.mem_cons_of_mem _ hr)
  | @enter r _ _ _ _ _ _ _ kept granted _ _ inside tail =>
    have hr : r.2 ∈ S := fulfils r List.mem_cons_self kept.not_skips granted
    have between := inside (List.forall_mem_cons.2 ⟨hr, known⟩) (fulfils_needs.2 (closed r.2 hr))
    exact tail between fun r hr => fulfils r (List.mem_cons_of_mem _ hr)

theorem fulfils (h : Walk s requests marked after finished) :
    Fulfils s requests {id | id ∈ after} := by
  induction h with
  | nil => simp [Fulfils]
  | pass passed tail ih =>
    refine List.forall_mem_cons.2 ⟨fun kept granted => ?_, ih⟩
    obtain known | skips | ⟨-, refused⟩ := passed
    · exact tail.subset known
    · exact absurd skips kept
    · exact absurd granted (Bool.eq_false_iff.1 refused)
  | enter _ _ _ inside tail _ ih =>
    exact List.forall_mem_cons.2 ⟨fun _ _ => tail.subset (inside.subset List.mem_cons_self), ih⟩

theorem closed (h : Walk s requests marked after finished) :
    ∀ id ∈ finished, ClosedAt s {id | id ∈ after} id := by
  induction h with
  | nil => simp
  | pass _ _ ih => exact ih
  | @enter r _ _ between after _ _ _ _ _ inside tail ihInside ihTail =>
    have grows {id : TypeId} (closed : ClosedAt s {d | d ∈ between} id) :
        ClosedAt s {d | d ∈ after} id :=
      fun d hd kept => tail.subset (closed d hd kept)
    simp only [List.mem_append, List.mem_cons]
    rintro id (hid | rfl | hid)
    · exact grows (ihInside id hid)
    · exact grows (fulfils_needs.1 inside.fulfils)
    · exact ihTail id hid

theorem unique {after' finished' : List TypeId} (h : Walk s requests marked after finished)
    (h' : Walk s requests marked after' finished') : after = after' ∧ finished = finished' := by
  induction h generalizing after' finished' with
  | nil =>
    cases h'
    exact ⟨rfl, rfl⟩
  | pass passed _ ih =>
    cases h' with
    | pass _ tail => exact ih tail
    | enter fresh kept granted _ _ =>
      obtain known | skips | ⟨-, refused⟩ := passed
      · exact absurd known fresh
      · exact absurd skips kept.not_skips
      · exact absurd granted (Bool.eq_false_iff.1 refused)
  | enter fresh kept granted _ _ ihInside ihTail =>
    cases h' with
    | pass passed _ =>
      obtain known | skips | ⟨-, refused⟩ := passed
      · exact absurd known fresh
      · exact absurd skips kept.not_skips
      · exact absurd granted (Bool.eq_false_iff.1 refused)
    | enter _ _ _ inside tail =>
      obtain ⟨rfl, rfl⟩ := ihInside inside
      obtain ⟨rfl, rfl⟩ := ihTail tail
      exact ⟨rfl, rfl⟩

theorem stays (h : Walk s requests marked after finished) : ∀ id ∈ finished, Stays s id := by
  induction h with
  | nil => simp
  | pass _ _ ih => exact ih
  | enter _ kept _ _ _ inside tail =>
    simp only [List.mem_append, List.mem_cons]
    rintro id (hid | rfl | hid)
    · exact inside id hid
    · exact kept
    · exact tail id hid

theorem finished_subset (h : Walk s requests marked after finished) : finished ⊆ after :=
  fun _ hid => h.mem_after.2 (.inr hid)

theorem fresh (h : Walk s requests marked after finished) : ∀ id ∈ finished, id ∉ marked := by
  induction h with
  | nil => simp
  | pass _ _ ih => exact ih
  | @enter r _ _ _ _ _ _ new _ _ inside tail ihInside ihTail =>
    simp only [List.mem_append, List.mem_cons]
    rintro id (hid | rfl | hid) known
    · exact ihInside id hid (List.mem_cons_of_mem _ known)
    · exact new known
    · exact ihTail id hid (inside.subset (List.mem_cons_of_mem _ known))

/-- A set that fulfils the requests and is closed at what it holds of unmarked types holds all that
is newly marked. -/
theorem finished_mem (h : Walk s requests marked after finished) {S : Set TypeId}
    (fulfils : Fulfils s requests S) (closed : ∀ id ∈ S, id ∉ marked → ClosedAt s S id) :
    ∀ id ∈ finished, id ∈ S := by
  induction h with
  | nil => simp
  | pass _ _ ih => exact ih (fun r hr => fulfils r (List.mem_cons_of_mem _ hr)) closed
  | @enter r _ _ _ _ _ _ new kept granted inner _ inside tail =>
    have hr : r.2 ∈ S := fulfils r List.mem_cons_self kept.not_skips granted
    simp only [List.mem_append, List.mem_cons]
    rintro id (hid | rfl | hid)
    · exact inside (fulfils_needs.2 (closed r.2 hr new))
        (fun d hd other => closed d hd fun known => other (List.mem_cons_of_mem _ known)) id hid
    · exact hr
    · exact tail (fun r hr => fulfils r (List.mem_cons_of_mem _ hr))
        (fun d hd other => closed d hd fun known =>
          other (inner.subset (List.mem_cons_of_mem _ known))) id hid

end Walk

theorem SameRules.grants {s t : Session} (h : SameRules s t) (r : Request) :
    t.grants r = s.grants r := by
  obtain ⟨hp, hs⟩ := h
  cases s; cases t; cases hp; cases hs
  rfl

theorem SameRules.needs {s t : Session} (h : SameRules s t) (id : TypeId) :
    t.needs id = s.needs id := by
  obtain ⟨hp, hs⟩ := h
  cases s; cases t; cases hp; cases hs
  rfl

theorem Walk.of_rules {s t : Session} (h : SameRules s t) {requests : List Request}
    {marked after finished : List TypeId} (walk : Walk s requests marked after finished) :
    Walk t requests marked after finished := by
  have skips : Skips t = Skips s := by
    funext id
    rw [Skips, Skips, h.2]
  have stays : Stays t = Stays s := by
    funext id
    rw [Stays, Stays, h.2]
  induction walk with
  | nil => exact .nil _
  | pass passed _ ih => exact .pass (by rwa [skips, stays, h.grants]) ih
  | enter fresh kept granted _ _ inside tail =>
    exact .enter fresh (stays ▸ kept) (h.grants _ ▸ granted) (h.needs _ ▸ inside) tail

theorem Walk.lt_size {s : Session} {requests : List Request} {marked after finished : List TypeId}
    (h : Walk s requests marked after finished) (known : ∀ id ∈ marked, id < s.store.size) :
    (∀ r ∈ requests, r.2 < s.store.size) ∧ ∀ id ∈ after, id < s.store.size := by
  induction h with
  | nil => exact ⟨by simp, known⟩
  | pass passed _ ih =>
    obtain ⟨rest, after⟩ := ih known
    refine ⟨List.forall_mem_cons.2 ⟨?_, rest⟩, after⟩
    obtain marked | skips | ⟨stays, -⟩ := passed
    · exact known _ marked
    · exact lt_size_of_shouldSkip skips
    · exact lt_size_of_shouldSkip stays
  | enter _ kept _ _ _ inside tail =>
    have hr := lt_size_of_shouldSkip kept
    obtain ⟨rest, after⟩ := tail (inside (List.forall_mem_cons.2 ⟨hr, known⟩)).2
    exact ⟨List.forall_mem_cons.2 ⟨hr, rest⟩, after⟩

theorem Walk.mirror {f : TypeId → TypeId} {s t : Session} (h : Mirrors f s t)
    {requests : List Request} {marked after finished : List TypeId}
    (walk : Walk s requests marked after finished) (known : ∀ id ∈ marked, id < s.store.size) :
    Walk t (requests.map fun r => (r.1, f r.2)) (marked.map f) (after.map f) (finished.map f) := by
  have inside := (walk.lt_size known).1
  induction walk with
  | nil => exact .nil _
  | @pass r rest _ _ _ passed tail ih =>
    obtain ⟨hr, hrest⟩ := List.forall_mem_cons.1 inside
    refine .pass ?_ (ih known hrest)
    refine passed.imp (List.mem_map_of_mem (f := f)) (Or.imp (h.skips hr).2 fun refused => ?_)
    rw [grants, h.admits hr]
    exact ⟨(h.stays hr).2 refused.1, refused.2⟩
  | @enter r rest marked _ _ _ _ fresh kept granted inner outer ihInside ihTail =>
    obtain ⟨hr, hrest⟩ := List.forall_mem_cons.1 inside
    have known' : ∀ id ∈ r.2 :: marked, id < s.store.size := List.forall_mem_cons.2 ⟨hr, known⟩
    have moved : (s.needs r.2).map (fun q => (q.1, f q.2)) = t.needs (f r.2) := by
      rw [needs, needs, h.dependencies hr, List.map_map, List.map_map]
      rfl
    have innerWalk := ihInside known' (inner.lt_size known').1
    rw [moved] at innerWalk
    rw [List.map_append]
    refine .enter ?_ ((h.stays hr).2 kept) ?_ innerWalk (ihTail (inner.lt_size known').2 hrest)
    · rw [List.mem_map]
      rintro ⟨d, hd, same⟩
      exact fresh (h.embeds.injective d (known d hd) r.2 hr same ▸ hd)
    · rw [grants, h.admits hr]
      exact granted

end ScriptGlue.Session
