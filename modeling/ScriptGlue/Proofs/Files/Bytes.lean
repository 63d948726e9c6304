import Mathlib.Data.List.Basic
import ScriptGlue.Files.Path

/-! # Bytes of paths

The bytes of a path are those of its parts one after the other, unless the cut is between a mark and
what it marks. The name that a directory lists for a name has the same bytes.
-/
namespace ScriptGlue

namespace Text

def Free (c : Char) : Prop := ¬(isStandIn c.toNat ∨ c = mark)

theorem codePoints_append {a b : List Char}
    (h : a.getLast? = some mark → ∀ d ∈ b.head?, Free d) :
    codePoints (a ++ b) = codePoints a ++ codePoints b := by
  fun_induction codePoints a with
  | case1 => rfl
  | case2 c =>
    cases b with
    | nil => rfl
    | cons d rest =>
      rw [List.singleton_append, codePoints, if_neg]
      · rfl
      · rintro ⟨rfl, marked⟩
        exact h rfl d rfl marked
  | case3 c d rest marked ih =>
    rw [List.cons_append, List.cons_append, codePoints, if_pos marked, ih, List.cons_append]
    intro last
    refine h ?_
    cases rest with
    | nil => cases last
    | cons e rest => simpa using last
  | case4 c d rest plain ih =>
    rw [List.cons_append, List.cons_append, codePoints, if_neg plain, ← List.cons_append, ih,
      List.cons_append]
    intro last
    exact h (by simpa using last)

theorem free_slash : Free '/' := by
  unfold Free
  decide

theorem codePoints_of_free {a : List Char} (h : ∀ c ∈ a, Free c) :
    codePoints a = a.map Char.toNat := by
  induction a with
  | nil => rfl
  | cons c a ih =>
    have free := h c List.mem_cons_self
    rw [codePoints_cons fun marked => free (.inr marked), ih fun d hd =>
      h d (List.mem_cons_of_mem _ hd), pointOf, if_neg fun standIn => free (.inl standIn)]
    rfl

end Text

namespace Path
open Text

/-- Bytes of the code points of some characters, if they have some. -/
def bytesOf (a : List Char) : Option (List UInt8) :=
  ((codePoints a).mapM pointBytes?).map List.flatten

theorem bytesOf_append {a b : List Char} (h : a.getLast? = some mark → ∀ d ∈ b.head?, Free d) :
    bytesOf (a ++ b) = (bytesOf a).bind fun x => (bytesOf b).map fun y => x ++ y := by
  unfold bytesOf
  rw [codePoints_append h, List.mapM_append]
  cases (codePoints a).mapM pointBytes? with
  | none => rfl
  | some x =>
    cases hb : (codePoints b).mapM pointBytes? with
    | none => rfl
    | some y => simp

theorem bytesOf_append_eq_some {a b : List Char} {z : List UInt8}
    (h : a.getLast? = some mark → ∀ d ∈ b.head?, Free d) :
    bytesOf (a ++ b) = some z ↔ ∃ x y, bytesOf a = some x ∧ bytesOf b = some y ∧ z = x ++ y := by
  rw [bytesOf_append h]
  cases bytesOf a <;> cases bytesOf b <;> simp [eq_comm]

end Path

end ScriptGlue
