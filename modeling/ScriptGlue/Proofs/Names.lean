import Mathlib.Data.List.Nodup
import ScriptGlue.Value.Basic

/-! # Names

A name that is a text is alike to itself only. The distinct names of a list are names of the list,
without repetition, and each text of the list is among them.
-/
namespace ScriptGlue.Value

theorem eq_text_of_isText {v : Value} (h : v.isText) : ∃ word, v = .text word := by
  cases v with
  | text word => exact ⟨word, rfl⟩
  | _ => cases h

theorem isKey_of_isText {v : Value} (h : v.isText) : v.isKey := by
  obtain ⟨word, rfl⟩ := eq_text_of_isText h
  rfl

theorem alike_self {v : Value} (h : v.isKey) : v.alike v := by
  cases v with
  | list => cases h
  | object => cases h
  | real x => cases nan : x.isNaN <;> simp [alike, Binary64.same, nan]
  | _ => simp [alike, amount?]

theorem alike_text_right (v : Value) (b : String) : alike v (.text b) = true ↔ v = .text b := by
  cases v <;> simp [alike, amount?]

theorem same_text_right (v : Value) (b : String) : same v (.text b) = alike v (.text b) := by
  cases v <;> rfl

theorem mem_of_mem_foldl_addName {v : Value} {known names : List Value}
    (h : v ∈ names.foldl addName known) : v ∈ known ∨ v ∈ names := by
  induction names generalizing known with
  | nil => exact .inl h
  | cons name rest ih =>
    obtain h | h := ih h
    · unfold addName at h
      split at h
      · exact .inl h
      · exact (List.mem_append.1 h).imp_right fun h => by simp [List.mem_singleton.1 h]
    · exact .inr (List.mem_cons_of_mem _ h)

theorem mem_of_mem_distinct {v : Value} {names : List Value} (h : v ∈ distinct names) :
    v ∈ names := (mem_of_mem_foldl_addName h).resolve_left List.not_mem_nil

theorem nodup_addName {names : List Value} {v : Value} (key : v.isKey) (h : names.Nodup) :
    (addName names v).Nodup := by
  unfold addName
  split
  · exact h
  · next new =>
    refine List.nodup_append.2 ⟨h, List.nodup_singleton v, fun n hn other hother same => new ?_⟩
    obtain rfl := List.mem_singleton.1 hother
    subst same
    exact List.any_eq_true.2 ⟨n, hn, alike_self key⟩

theorem nodup_distinct {names : List Value} (keys : ∀ v ∈ names, v.isKey) :
    (distinct names).Nodup :=
  List.foldlRecOn (motive := List.Nodup) _ _ List.nodup_nil fun _ h v hv => nodup_addName (keys v hv) h

theorem addName_grows (names : List Value) (v : Value) : names <+: addName names v := by
  unfold addName
  split
  · exact List.prefix_rfl
  · exact List.prefix_append _ _

theorem text_mem_addName (names : List Value) (b : String) : .text b ∈ addName names (.text b) := by
  unfold addName
  split
  · next known =>
    obtain ⟨name, hname, same⟩ := List.any_eq_true.1 known
    rwa [(alike_text_right _ _).1 same] at hname
  · exact List.mem_append_right _ (List.mem_singleton_self _)

theorem foldl_addName_grows (known names : List Value) : known <+: names.foldl addName known := by
  induction names generalizing known with
  | nil => exact List.prefix_rfl
  | cons name rest ih => exact (addName_grows known name).trans (ih _)

theorem distinct_grows (names more : List Value) : distinct names <+: distinct (names ++ more) := by
  rw [distinct, distinct, List.foldl_append]
  exact foldl_addName_grows _ _

theorem text_mem_distinct {b : String} {names : List Value} (h : .text b ∈ names) :
    .text b ∈ distinct names := by
  obtain ⟨before, rest, rfl⟩ := List.append_of_mem h
  rw [distinct, List.foldl_append, List.foldl_cons]
  exact (foldl_addName_grows _ _).subset (text_mem_addName _ b)

theorem mem_distinct_or_alike {v : Value} {names : List Value} (h : v ∈ names) :
    v ∈ distinct names ∨ ∃ w ∈ distinct names, w.alike v := by
  obtain ⟨before, rest, rfl⟩ := List.append_of_mem h
  rw [distinct, List.foldl_append, List.foldl_cons]
  have kept := (foldl_addName_grows (addName (before.foldl addName []) v) rest).subset
  unfold addName at kept ⊢
  split at kept
  · next known =>
    obtain ⟨w, hw, same⟩ := List.any_eq_true.1 known
    rw [if_pos known]
    exact .inr ⟨w, kept hw, same⟩
  · next new =>
    rw [if_neg new]
    exact .inl (kept (List.mem_append_right _ (List.mem_singleton_self v)))

end ScriptGlue.Value
