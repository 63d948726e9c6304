import ScriptGlue.Fault

/-! # Actions

A computation over a state that may fault. A fault keeps the state reached, so an operation that
fails half-way shows what it already changed.
-/

namespace ScriptGlue

def Action (σ α : Type) : Type := σ → Except Fault α × σ

namespace Action

variable {σ τ α β : Type}

def run (a : Action σ α) (s : σ) : Except Fault α × σ := a s

def pure (x : α) : Action σ α := fun s => (.ok x, s)

def bind (a : Action σ α) (f : α → Action σ β) : Action σ β := fun s =>
  match a s with
  | (.ok x, t) => f x t
  | (.error e, t) => (.error e, t)

instance : Monad (Action σ) where
  pure := Action.pure
  bind := Action.bind

instance : MonadStateOf σ (Action σ) where
  get := fun s => (.ok s, s)
  set t := fun _ => (.ok (), t)
  modifyGet f := fun s => let (x, t) := f s; (.ok x, t)

instance : MonadExceptOf Fault (Action σ) where
  throw e := fun s => (.error e, s)
  tryCatch a handle := fun s =>
    match a s with
    | (.ok x, t) => (.ok x, t)
    | (.error e, t) => handle e t

def within (part : σ → τ) (put : τ → σ → σ) (a : Action τ α) : Action σ α := fun s =>
  let (r, t) := a (part s)
  (r, put t s)

def ofExcept (r : Except Fault α) : Action σ α := fun s => (r, s)

instance : MonadLift (Except Fault) (Action σ) where
  monadLift := ofExcept

@[simp] theorem pure_apply (x : α) (s : σ) : (Pure.pure x : Action σ α) s = (.ok x, s) := rfl

theorem bind_apply (a : Action σ α) (f : α → Action σ β) (s : σ) :
    (a >>= f) s = match a s with
      | (.ok x, t) => f x t
      | (.error e, t) => (.error e, t) := rfl

theorem bind_of_ok {a : Action σ α} {s t : σ} {x : α} (h : a s = (.ok x, t))
    (f : α → Action σ β) : (a >>= f) s = f x t := by simp [bind_apply, h]

theorem bind_of_error {a : Action σ α} {s t : σ} {e : Fault} (h : a s = (.error e, t))
    (f : α → Action σ β) : (a >>= f) s = (.error e, t) := by simp [bind_apply, h]

@[simp] theorem get_apply (s : σ) : (get : Action σ σ) s = (.ok s, s) := rfl

@[simp] theorem set_apply (s t : σ) : (set t : Action σ PUnit) s = (.ok (), t) := rfl

@[simp] theorem modify_apply (f : σ → σ) (s : σ) :
    (modify f : Action σ PUnit) s = (.ok (), f s) := rfl

@[simp] theorem throw_apply (e : Fault) (s : σ) :
    (throw e : Action σ α) s = (.error e, s) := rfl

theorem tryCatch_apply (a : Action σ α) (handle : Fault → Action σ α) (s : σ) :
    (tryCatch a handle) s = match a s with
      | (.ok x, t) => (.ok x, t)
      | (.error e, t) => handle e t := rfl

theorem id_map (a : Action σ α) : id <$> a = a := by
  funext s
  show (match a s with | (.ok x, t) => _ | (.error e, t) => _) = a s
  rcases a s with ⟨_ | _, _⟩ <;> rfl

theorem bind_assoc {γ : Type} (a : Action σ α) (f : α → Action σ β) (g : β → Action σ γ) :
    a >>= f >>= g = a >>= fun x => f x >>= g := by
  funext s
  simp only [bind_apply]
  rcases a s with ⟨_ | _, _⟩ <;> rfl

instance : LawfulMonad (Action σ) :=
  LawfulMonad.mk' (Action σ) id_map (fun _ _ => rfl) bind_assoc

end Action

end ScriptGlue
