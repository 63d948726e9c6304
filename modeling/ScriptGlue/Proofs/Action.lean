import Mathlib.Data.List.Forall2
import ScriptGlue.Action

/-! # Runs of actions

A run that gives a result is taken apart at its binds (`bind_eq_ok`), and so is one that faults
(`bind_eq_error`). An action keeps an invariant if every result leaves it, and `Keeps` also says
what a fault leaves: what each step keeps, the whole keeps. `Meets` says of the results, and of each
fault by itself, what they satisfy.
-/
namespace ScriptGlue.Action
variable {σ τ α β : Type}

theorem bind_eq_ok {a : Action σ α} {f : α → Action σ β} {s u : σ} {y : β} :
    (a >>= f) s = (.ok y, u) ↔ ∃ x t, a s = (.ok x, t) ∧ f x t = (.ok y, u) := by
  rw [bind_apply]
  rcases h : a s with ⟨_ | x, t⟩
  · simp
  · constructor
    · intro hf
      exact ⟨x, t, rfl, hf⟩
    · rintro ⟨x', t', hx, hf⟩
      cases hx
      exact hf

theorem bind_eq_error {a : Action σ α} {f : α → Action σ β} {s u : σ} {e : Fault} :
    (a >>= f) s = (.error e, u) ↔
      a s = (.error e, u) ∨ ∃ x t, a s = (.ok x, t) ∧ f x t = (.error e, u) := by
  rw [bind_apply]
  rcases h : a s with ⟨e' | x, t⟩
  · simp
  · constructor
    · intro hf
      exact .inr ⟨x, t, rfl, hf⟩
    · rintro (hx | ⟨x', t', hx, hf⟩)
      · cases hx
      · cases hx
        exact hf

def gives (a : Action σ α) (s : σ) (said : α → σ → Bool) : Bool :=
  match a s with
  | (.ok x, t) => said x t
  | (.error _, _) => false

def faults (a : Action σ α) (s : σ) (said : Fault → σ → Bool) : Bool :=
  match a s with
  | (.ok _, _) => false
  | (.error e, t) => said e t

theorem exists_of_gives {a : Action σ α} {s : σ} {said : α → σ → Bool} (h : a.gives s said) :
    ∃ x t, a s = (.ok x, t) ∧ said x t := by
  unfold gives at h
  split at h
  · next x t run => exact ⟨x, t, run, h⟩
  · cases h

theorem exists_of_faults {a : Action σ α} {s : σ} {said : Fault → σ → Bool} (h : a.faults s said) :
    ∃ e t, a s = (.error e, t) ∧ said e t := by
  unfold faults at h
  split at h
  · cases h
  · next e t run => exact ⟨e, t, run, h⟩

@[simp] theorem pure_eq_ok {x y : α} {s t : σ} :
    (Pure.pure x : Action σ α) s = (.ok y, t) ↔ x = y ∧ s = t := by
  simp [Prod.ext_iff]

@[simp] theorem throw_ne_ok {e : Fault} {x : α} {s t : σ} :
    (throw e : Action σ α) s = (.ok x, t) ↔ False := by
  simp

@[simp] theorem get_eq_ok {s x t : σ} : (get : Action σ σ) s = (.ok x, t) ↔ s = x ∧ s = t := by
  simp [Prod.ext_iff]

@[simp] theorem modify_eq_ok {f : σ → σ} {s t : σ} {u : PUnit} :
    (modify f : Action σ PUnit) s = (.ok u, t) ↔ f s = t := by
  simp [Prod.ext_iff]

theorem ofExcept_apply (r : Except Fault α) (s : σ) : ofExcept r s = (r, s) := rfl

theorem ofExcept_eq_ok {r : Except Fault α} {s t : σ} {x : α} :
    ofExcept r s = (.ok x, t) ↔ r = .ok x ∧ s = t := by
  simp [ofExcept, Prod.ext_iff]

theorem forM_cons (f : α → Action σ PUnit) (x : α) (xs : List α) :
    (x :: xs).forM f = f x >>= fun _ => xs.forM f := rfl

theorem forM_eq_error {f : α → Action σ PUnit} {xs : List α} {s t : σ} {e : Fault}
    (h : xs.forM f s = (.error e, t)) : ∃ done x rest u, xs = done ++ x :: rest ∧
      done.forM f s = (.ok (), u) ∧ f x u = (.error e, t) := by
  induction xs generalizing s with
  | nil => cases h
  | cons x xs ih =>
    rw [forM_cons] at h
    obtain first | ⟨_, u, first, later⟩ := bind_eq_error.1 h
    · exact ⟨[], x, xs, s, rfl, rfl, first⟩
    · obtain ⟨done, y, rest, v, rfl, ok, failed⟩ := ih later
      exact ⟨x :: done, y, rest, v, rfl, (bind_of_ok first _).trans ok, failed⟩

theorem mapM_cons_of_ok {f : α → Action σ β} {x : α} {xs : List α} {y : β} {ys : List β} {s t u : σ}
    (first : f x s = (.ok y, t)) (later : xs.mapM f t = (.ok ys, u)) :
    (x :: xs).mapM f s = (.ok (y :: ys), u) := by
  rw [List.mapM_cons, bind_of_ok first, bind_of_ok later]
  rfl

/-- Each result of actions made one after the other is that of its own action. -/
theorem mapM_eq_ok {f : α → Action σ β} {xs : List α} {ys : List β} {s t : σ}
    (h : xs.mapM f s = (.ok ys, t)) :
    List.Forall₂ (fun x y => ∃ s t, f x s = (.ok y, t)) xs ys := by
  induction xs generalizing s ys with
  | nil =>
    rw [List.mapM_nil] at h
    obtain ⟨rfl, -⟩ := pure_eq_ok.1 h
    exact .nil
  | cons x xs ih =>
    rw [List.mapM_cons] at h
    obtain ⟨y, u, first, h⟩ := bind_eq_ok.1 h
    obtain ⟨rest, _, later, h⟩ := bind_eq_ok.1 h
    obtain ⟨rfl, rfl⟩ := pure_eq_ok.1 h
    exact .cons ⟨s, u, first⟩ (ih later)

theorem allM_eq_true {f : α → Action σ Bool} {xs : List α} {s t : σ}
    (h : xs.allM f s = (.ok true, t)) : ∀ x ∈ xs, ∃ s t, f x s = (.ok true, t) := by
  induction xs generalizing s with
  | nil => simp
  | cons x xs ih =>
    obtain ⟨b, u, first, h⟩ := bind_eq_ok.1 h
    cases b with
    | false => cases (pure_eq_ok.1 h).1
    | true => exact List.forall_mem_cons.2 ⟨⟨s, u, first⟩, ih h⟩

def Leaves (I J : σ → Prop) : Except Fault α × σ → Prop
  | (.ok _, t) => I t
  | (.error _, t) => J t

theorem Leaves.and {I J K L : σ → Prop} {r : Except Fault α × σ} (h : Leaves I J r)
    (g : Leaves K L r) : Leaves (fun s => I s ∧ K s) (fun s => J s ∧ L s) r := by
  obtain ⟨_ | x, t⟩ := r <;> exact ⟨h, g⟩

theorem leaves_self {I : σ → Prop} {r : Except Fault α × σ} : Leaves I I r ↔ I r.2 := by
  obtain ⟨_ | x, t⟩ := r <;> rfl

structure Keeps (I J : σ → Prop) (a : Action σ α) : Prop where
  result : ∀ {s t x}, I s → a s = (.ok x, t) → I t
  fault : ∀ {s t e}, I s → a s = (.error e, t) → J t

namespace Keeps
variable {I J : σ → Prop}

theorem of_leaves {a : Action σ α} (h : ∀ s, I s → Leaves I J (a s)) : Keeps I J a where
  result hs he := by simpa [he, Leaves] using h _ hs
  fault hs he := by simpa [he, Leaves] using h _ hs

theorem leaves {a : Action σ α} (h : Keeps I J a) {s : σ} (hs : I s) : Leaves I J (a s) := by
  rcases he : a s with ⟨_ | x, t⟩
  · exact h.fault hs he
  · exact h.result hs he

theorem of_outcome {a : Action σ α} (h : ∀ s, I s → I (a s).2) : Keeps I I a :=
  .of_leaves fun s hs => leaves_self.2 (h s hs)

theorem outcome {a : Action σ α} (h : Keeps I I a) {s : σ} (hs : I s) : I (a s).2 :=
  leaves_self.1 (h.leaves hs)

theorem pure (x : α) : Keeps I J (Pure.pure x : Action σ α) where
  result hs he := (pure_eq_ok.1 he).2 ▸ hs
  fault _ he := by cases he

theorem get : Keeps I J (get : Action σ σ) where
  result hs he := (get_eq_ok.1 he).2 ▸ hs
  fault _ he := by cases he

theorem modify {f : σ → σ} (h : ∀ s, I s → I (f s)) :
    Keeps I J (modify f : Action σ PUnit) where
  result hs he := modify_eq_ok.1 he ▸ h _ hs
  fault _ he := by cases he

theorem set {t : σ} (h : I t) : Keeps I J (MonadStateOf.set t : Action σ PUnit) where
  result _ he := by cases he; exact h
  fault _ he := by cases he

theorem throw (hf : ∀ s, I s → J s) (e : Fault) : Keeps I J (throw e : Action σ α) where
  result _ he := by cases he
  fault hs he := by cases he; exact hf _ hs

theorem ofExcept (hf : ∀ s, I s → J s) (r : Except Fault α) : Keeps I J (ofExcept r : Action σ α) where
  result hs he := (ofExcept_eq_ok.1 he).2 ▸ hs
  fault hs he := by cases he; exact hf _ hs

theorem bind_run {a : Action σ α} {f : α → Action σ β} (ha : Keeps I J a)
    (hf : ∀ x, (∃ s t, I s ∧ a s = (.ok x, t)) → Keeps I J (f x)) : Keeps I J (a >>= f) where
  result hs he := by
    obtain ⟨x, t, hx, hy⟩ := bind_eq_ok.1 he
    exact (hf x ⟨_, t, hs, hx⟩).result (ha.result hs hx) hy
  fault hs he := by
    obtain hx | ⟨x, t, hx, hy⟩ := bind_eq_error.1 he
    · exact ha.fault hs hx
    · exact (hf x ⟨_, t, hs, hx⟩).fault (ha.result hs hx) hy

theorem bind {a : Action σ α} {f : α → Action σ β} (ha : Keeps I J a)
    (hf : ∀ x, Keeps I J (f x)) : Keeps I J (a >>= f) := ha.bind_run fun x _ => hf x

theorem get_bind {f : σ → Action σ β} (hf : ∀ s, I s → Keeps I J (f s)) :
    Keeps I J (MonadState.get >>= f) where
  result hs he := (hf _ hs).result hs he
  fault hs he := (hf _ hs).fault hs he

theorem get_bind_of {P : σ → σ → Prop} {f : σ → Action σ β}
    (hf : ∀ s, I s → P s s ∧ Keeps (fun t => I t ∧ P s t) J (f s)) :
    Keeps I J (MonadState.get >>= f) where
  result hs he := ((hf _ hs).2.result ⟨hs, (hf _ hs).1⟩ he).1
  fault hs he := (hf _ hs).2.fault ⟨hs, (hf _ hs).1⟩ he

theorem ofExcept_bind {r : Except Fault α} {f : α → Action σ β} (hr : ∀ s, I s → J s)
    (hf : ∀ x, r = .ok x → Keeps I J (f x)) : Keeps I J (Action.ofExcept r >>= f) := by
  cases r with
  | error e =>
    constructor
    · intro s t y _ he
      cases he
    · intro s t e hs he
      cases he
      exact hr s hs
  | ok x => exact ⟨fun hs he => (hf x rfl).result hs he, fun hs he => (hf x rfl).fault hs he⟩

theorem and {P Q : σ → Prop} {a : Action σ α} (ha : Keeps I J a) (hb : Keeps P Q a) :
    Keeps (fun s => I s ∧ P s) J a where
  result hs he := ⟨ha.result hs.1 he, hb.result hs.2 he⟩
  fault hs he := ha.fault hs.1 he

theorem bind_gain {P : α → σ → Prop} {a : Action σ α} {f : α → Action σ β} (ha : Keeps I J a)
    (gain : ∀ {s x t}, I s → a s = (.ok x, t) → P x t)
    (hf : ∀ x, Keeps (fun s => I s ∧ P x s) J (f x)) : Keeps I J (a >>= f) where
  result hs he := by
    obtain ⟨x, t, hx, hy⟩ := bind_eq_ok.1 he
    exact ((hf x).result ⟨ha.result hs hx, gain hs hx⟩ hy).1
  fault hs he := by
    obtain hx | ⟨x, t, hx, hy⟩ := bind_eq_error.1 he
    · exact ha.fault hs hx
    · exact (hf x).fault ⟨ha.result hs hx, gain hs hx⟩ hy

theorem tryCatch {K : σ → Prop} {a : Action σ α} {handle : Fault → Action σ α} (ha : Keeps I K a)
    (hf : ∀ e s, K s → Leaves I J (handle e s)) : Keeps I J (MonadExcept.tryCatch a handle) := by
  refine .of_leaves fun s hs => ?_
  rw [tryCatch_apply]
  rcases h : a s with ⟨e | y, u⟩
  · exact hf e u (ha.fault hs h)
  · exact ha.result hs h

theorem map {a : Action σ α} (ha : Keeps I J a) (f : α → β) : Keeps I J (f <$> a) :=
  ha.bind fun x => pure (f x)

theorem ite {c : Prop} [Decidable c] {a b : Action σ α} (ha : Keeps I J a) (hb : Keeps I J b) :
    Keeps I J (if c then a else b) := by
  split
  · exact ha
  · exact hb

theorem forM {f : α → Action σ PUnit} {xs : List α} (h : ∀ x ∈ xs, Keeps I J (f x)) :
    Keeps I J (xs.forM f) := by
  induction xs with
  | nil => exact pure _
  | cons x xs ih =>
    rw [forM_cons]
    exact (h x List.mem_cons_self).bind fun _ => ih fun y hy => h y (List.mem_cons_of_mem _ hy)

theorem mapM {f : α → Action σ β} {xs : List α} (h : ∀ x ∈ xs, Keeps I J (f x)) :
    Keeps I J (xs.mapM f) := by
  induction xs with
  | nil =>
    rw [List.mapM_nil]
    exact pure _
  | cons x xs ih =>
    rw [List.mapM_cons]
    exact (h x List.mem_cons_self).bind fun _ =>
      (ih fun y hy => h y (List.mem_cons_of_mem _ hy)).bind fun _ => pure _

theorem allM {f : α → Action σ Bool} {xs : List α} (h : ∀ x ∈ xs, Keeps I J (f x)) :
    Keeps I J (xs.allM f) := by
  induction xs with
  | nil => exact pure _
  | cons x xs ih =>
    refine (h x List.mem_cons_self).bind fun b => ?_
    cases b with
    | false => exact pure _
    | true => exact ih fun y hy => h y (List.mem_cons_of_mem _ hy)

end Keeps

/-- Results satisfy `Q` and leave the invariant `I`, a fault leaves what `J` says of it. -/
structure Meets (I : σ → Prop) (J : Fault → σ → Prop) (a : Action σ α) (Q : α → Prop) : Prop where
  result : ∀ {s t x}, I s → a s = (.ok x, t) → Q x ∧ I t
  fault : ∀ {s t e}, I s → a s = (.error e, t) → J e t

namespace Meets
variable {I : σ → Prop} {J : Fault → σ → Prop} {P Q : α → Prop} {R : β → Prop}

theorem pure {x : α} (h : Q x) : Meets I J (Pure.pure x : Action σ α) Q where
  result hs he := by
    obtain ⟨rfl, rfl⟩ := pure_eq_ok.1 he
    exact ⟨h, hs⟩
  fault _ he := by cases he

theorem get_bind {f : σ → Action σ β} (hf : ∀ s, I s → Meets I J (f s) R) :
    Meets I J (MonadState.get >>= f) R where
  result hs he := (hf _ hs).result hs he
  fault hs he := (hf _ hs).fault hs he

theorem modify {f : σ → σ} (h : ∀ s, I s → I (f s)) :
    Meets I J (modify f : Action σ PUnit) fun _ => True where
  result hs he := ⟨trivial, modify_eq_ok.1 he ▸ h _ hs⟩
  fault _ he := by cases he

theorem throw {e : Fault} (h : ∀ s, I s → J e s) : Meets I J (throw e : Action σ α) Q where
  result _ he := by cases he
  fault hs he := by cases he; exact h _ hs

/-- A result that does not depend on the state, and does not fault unless that may be. -/
theorem ofExcept {r : Except Fault α} (ok : ∀ x, r = .ok x → Q x)
    (error : ∀ e, r = .error e → ∀ s, I s → J e s) : Meets I J (ofExcept r : Action σ α) Q where
  result hs he := by
    obtain ⟨hr, rfl⟩ := ofExcept_eq_ok.1 he
    exact ⟨ok _ hr, hs⟩
  fault hs he := by
    cases he
    exact error _ rfl _ hs

theorem bind {a : Action σ α} {f : α → Action σ β} (ha : Meets I J a Q)
    (hf : ∀ x, Q x → Meets I J (f x) R) : Meets I J (a >>= f) R where
  result hs he := by
    obtain ⟨x, t, hx, hy⟩ := bind_eq_ok.1 he
    obtain ⟨good, ht⟩ := ha.result hs hx
    exact (hf x good).result ht hy
  fault hs he := by
    obtain hx | ⟨x, t, hx, hy⟩ := bind_eq_error.1 he
    · exact ha.fault hs hx
    · obtain ⟨good, ht⟩ := ha.result hs hx
      exact (hf x good).fault ht hy

theorem imp {a : Action σ α} (ha : Meets I J a P) (h : ∀ x, P x → Q x) : Meets I J a Q where
  result hs he := (ha.result hs he).imp_left (h _)
  fault hs he := ha.fault hs he

theorem ensures {a : Action σ α} (ha : Meets I J a P) (h : ∀ s x t, a s = (.ok x, t) → Q x) :
    Meets I J a Q where
  result hs he := ⟨h _ _ _ he, (ha.result hs he).2⟩
  fault hs he := ha.fault hs he

theorem map {a : Action σ α} {f : α → β} (ha : Meets I J a Q) (h : ∀ x, Q x → R (f x)) :
    Meets I J (f <$> a) R := ha.bind fun x hx => pure (h x hx)

theorem ite {c : Prop} [Decidable c] {a b : Action σ α} (ha : c → Meets I J a Q)
    (hb : ¬c → Meets I J b Q) : Meets I J (if c then a else b) Q := by
  split
  · next holds => exact ha holds
  · next fails => exact hb fails

/-- A part that is left out or made, and what goes on with it. -/
theorem optional {c : Prop} [Decidable c] {make : Action σ α} {next : Option α → Action σ β}
    (made : Meets I J make Q) (goes : ∀ x, (∀ y ∈ x, Q y) → Meets I J (next x) R) :
    Meets I J (if c then Pure.pure none >>= next else (some <$> make) >>= next) R := by
  refine ite (fun _ => ?_) fun _ => ?_
  · exact bind (Q := fun x => ∀ y ∈ x, Q y) (pure (by simp)) goes
  · exact bind (Q := fun x => ∀ y ∈ x, Q y) (made.map (by simp)) goes

theorem forM {f : α → Action σ PUnit} {xs : List α}
    (h : ∀ x ∈ xs, Meets I J (f x) fun _ => True) : Meets I J (xs.forM f) fun _ => True := by
  induction xs with
  | nil => exact pure trivial
  | cons x xs ih =>
    rw [forM_cons]
    exact (h x List.mem_cons_self).bind fun _ _ => ih fun y hy => h y (List.mem_cons_of_mem _ hy)

theorem mapM {f : α → Action σ β} {xs : List α} (h : ∀ x ∈ xs, Meets I J (f x) R) :
    Meets I J (xs.mapM f) fun ys => ∀ y ∈ ys, R y := by
  induction xs with
  | nil =>
    rw [List.mapM_nil]
    exact pure (by simp)
  | cons x xs ih =>
    rw [List.mapM_cons]
    exact (h x List.mem_cons_self).bind fun y hy =>
      (ih fun y hy => h y (List.mem_cons_of_mem _ hy)).bind fun ys hys =>
        pure (List.forall_mem_cons.2 ⟨hy, hys⟩)

theorem allM {f : α → Action σ Bool} {xs : List α}
    (h : ∀ x ∈ xs, Meets I J (f x) fun _ => True) : Meets I J (xs.allM f) fun _ => True := by
  induction xs with
  | nil => exact pure trivial
  | cons x xs ih =>
    refine (h x List.mem_cons_self).bind fun b _ => ?_
    cases b with
    | false => exact pure trivial
    | true => exact ih fun y hy => h y (List.mem_cons_of_mem _ hy)

theorem allM_iff {P : α → Prop} {f : α → Action σ Bool} {xs : List α}
    (h : ∀ x ∈ xs, Meets I J (f x) fun b => b = true ↔ P x) :
    Meets I J (xs.allM f) fun b => b = true ↔ ∀ x ∈ xs, P x := by
  induction xs with
  | nil => exact pure (by simp)
  | cons x xs ih =>
    refine (h x List.mem_cons_self).bind fun b hb => ?_
    cases b with
    | false => exact pure (by simp [← hb])
    | true =>
      exact (ih fun y hy => h y (List.mem_cons_of_mem _ hy)).imp fun c hc => by simp [hc, ← hb]

theorem tryCatch {K : Fault → σ → Prop} {a : Action σ α} {handle : Fault → Action σ α}
    (ha : Meets I K a Q)
    (ok : ∀ {e s t x}, K e s → handle e s = (.ok x, t) → Q x ∧ I t)
    (error : ∀ {e s t e'}, K e s → handle e s = (.error e', t) → J e' t) :
    Meets I J (MonadExcept.tryCatch a handle) Q where
  result := by
    intro s t x hs he
    rcases h : a s with ⟨e | y, u⟩
    · rw [tryCatch_apply, h] at he
      exact ok (ha.fault hs h) he
    · rw [tryCatch_apply, h] at he
      cases he
      exact ha.result hs h
  fault := by
    intro s t e hs he
    rcases h : a s with ⟨e' | y, u⟩
    · rw [tryCatch_apply, h] at he
      exact error (ha.fault hs h) he
    · rw [tryCatch_apply, h] at he
      cases he

end Meets

end ScriptGlue.Action
