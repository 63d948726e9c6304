import Mathlib.Data.List.Forall2
import ScriptGlue.Proofs.Action

/-! # Agreement of two actions

Two actions agree if their results are related whenever both give one, wherever they were started
among the states of two invariants. What each pair of steps agrees on, the whole pair agrees on; if
one of two actions faults there is nothing to agree on.
-/
namespace ScriptGlue.Action
variable {σ α β γ δ : Type}

/-- Started under the invariants, the actions leave them with related results if both give one. -/
structure Agree (I I' : σ → Prop) (R : α → β → Prop) (a : Action σ α) (b : Action σ β) : Prop where
  results : ∀ {s s' x y t t'}, I s → I' s' → a s = (.ok x, t) → b s' = (.ok y, t') →
    I t ∧ I' t' ∧ R x y

namespace Agree
variable {I I' : σ → Prop} {R : α → β → Prop} {S : γ → δ → Prop}

theorem pure {x : α} {y : β} (h : R x y) :
    Agree I I' R (Pure.pure x : Action σ α) (Pure.pure y) := by
  constructor
  intro s s' x y t t' hs hs' hx hy
  obtain ⟨rfl, rfl⟩ := pure_eq_ok.1 hx
  obtain ⟨rfl, rfl⟩ := pure_eq_ok.1 hy
  exact ⟨hs, hs', h⟩

theorem throw_left (e : Fault) (b : Action σ β) : Agree I I' R (throw e) b := by
  constructor
  intro s s' x y t t' _ _ hx
  cases hx

theorem bind {a : Action σ α} {b : Action σ β} {f : α → Action σ γ} {g : β → Action σ δ}
    (h : Agree I I' R a b) (hfg : ∀ x y, R x y → Agree I I' S (f x) (g y)) :
    Agree I I' S (a >>= f) (b >>= g) := by
  constructor
  intro s s' z w u u' hs hs' hz hw
  obtain ⟨x, t, hx, hz⟩ := bind_eq_ok.1 hz
  obtain ⟨y, t', hy, hw⟩ := bind_eq_ok.1 hw
  obtain ⟨ht, ht', related⟩ := h.results hs hs' hx hy
  exact (hfg x y related).results ht ht' hz hw

theorem andThen {a b : Action σ α} {f : α → Action σ γ} {g : α → Action σ δ}
    (h : Agree I I' Eq a b) (hfg : ∀ x, Agree I I' S (f x) (g x)) :
    Agree I I' S (a >>= f) (b >>= g) :=
  h.bind fun x _ same => same ▸ hfg x

theorem get_bind {f : σ → Action σ γ} {g : σ → Action σ δ}
    (h : ∀ s s', I s → I' s' → Agree I I' S (f s) (g s')) :
    Agree I I' S (MonadState.get >>= f) (MonadState.get >>= g) := by
  constructor
  intro s s' z w u u' hs hs' hz hw
  exact (h s s' hs hs').results hs hs' hz hw

theorem ofExcept {r : Except Fault α} {q : Except Fault β}
    (h : ∀ x y, r = .ok x → q = .ok y → R x y) :
    Agree I I' R (Action.ofExcept r : Action σ α) (Action.ofExcept q) := by
  constructor
  intro s s' x y t t' hs hs' hx hy
  obtain ⟨left, rfl⟩ := ofExcept_eq_ok.1 hx
  obtain ⟨right, rfl⟩ := ofExcept_eq_ok.1 hy
  exact ⟨hs, hs', h x y left right⟩

theorem same_ofExcept (r : Except Fault α) :
    Agree I I' Eq (Action.ofExcept r : Action σ α) (Action.ofExcept r) :=
  .ofExcept fun _ _ hx hy => Except.ok.inj (hx.symm.trans hy)

/-- Actions that keep the invariants agree on whatever holds of all results. -/
theorem of_keeps {J J' : σ → Prop} {a : Action σ α} {b : Action σ β} (ha : Keeps I J a)
    (hb : Keeps I' J' b) (h : ∀ x y, R x y) : Agree I I' R a b := by
  constructor
  intro s s' x y t t' hs hs' hx hy
  exact ⟨ha.result hs hx, hb.result hs' hy, h x y⟩

theorem ite {c : Prop} [Decidable c] {a a' : Action σ α} {b b' : Action σ β}
    (h : c → Agree I I' R a b) (h' : ¬c → Agree I I' R a' b') :
    Agree I I' R (if c then a else a') (if c then b else b') := by
  split
  · next hc => exact h hc
  · next hc => exact h' hc

theorem map {a b : Action σ α} (h : Agree I I' Eq a b) (f : α → γ) :
    Agree I I' Eq (f <$> a) (f <$> b) :=
  h.andThen fun _ => pure rfl

theorem mapM {f : α → Action σ γ} {g : β → Action σ γ} {xs : List α} {r : α → β}
    (h : ∀ x ∈ xs, Agree I I' Eq (f x) (g (r x))) :
    Agree I I' Eq (xs.mapM f) ((xs.map r).mapM g) := by
  induction xs with
  | nil =>
    rw [List.map_nil, List.mapM_nil, List.mapM_nil]
    exact pure rfl
  | cons x xs ih =>
    rw [List.map_cons, List.mapM_cons, List.mapM_cons]
    exact (h x List.mem_cons_self).andThen fun _ =>
      (ih fun y hy => h y (List.mem_cons_of_mem _ hy)).andThen fun _ => pure rfl

end Agree

end ScriptGlue.Action
