import Mathlib.Data.List.TakeWhile
import ScriptGlue.Unit.Basic

/-! # Handles among the identifiers of a line

The identifiers of a text are its longest runs of letters, digits and underscores. One of them that
is the name of a handle stands in one of the pieces that the text is put together from, if each
piece begins or ends where no identifier goes on. The words of the generator hold no such name, so
what a line says of handles it has from the handles and from the names that it is printed with.
-/
namespace ScriptGlue

namespace Text

/-- Letters, digits and underscores; what is no ASCII counts as a letter. -/
def isWordChar (c : Char) : Bool :=
  decide (97 ≤ c.toNat ∧ c.toNat ≤ 122 ∨ 65 ≤ c.toNat ∧ c.toNat ≤ 90 ∨
    48 ≤ c.toNat ∧ c.toNat ≤ 57 ∨ c.toNat = 95 ∨ 128 ≤ c.toNat)

def wordsOf (chars : List Char) : List (List Char) := chars.splitOnP fun c => !isWordChar c

def identifiers (text : String) : List (List Char) := wordsOf text.toList

def Stops (chars : List Char) : Prop := ∀ c ∈ chars.getLast?, isWordChar c = false

def Starts (chars : List Char) : Prop := ∀ c ∈ chars.head?, isWordChar c = false

-- named, as the instance that is found first may go through all characters
instance (chars : List Char) : Decidable (Stops chars) := Option.decidableForallMem _

instance (chars : List Char) : Decidable (Starts chars) := Option.decidableForallMem _

variable {a b word : List Char}

theorem wordsOf_append_cons {c : Char} (other : isWordChar c = false) (a b : List Char) :
    wordsOf (a ++ c :: b) = wordsOf a ++ wordsOf b :=
  List.splitOnP_append_cons a b (by simp [other])

theorem wordsOf_run (run : ∀ c ∈ a, isWordChar c) : wordsOf a = [a] :=
  List.splitOnP_eq_singleton fun c hc => by simp [run c hc]

theorem mem_wordsOf_append (some : word ≠ []) (apart : Stops a ∨ Starts b) :
    word ∈ wordsOf (a ++ b) ↔ word ∈ wordsOf a ∨ word ∈ wordsOf b := by
  have none : wordsOf [] = [[]] := wordsOf_run (by simp)
  obtain stops | starts := apart
  · obtain rfl | ⟨init, c, rfl⟩ := a.eq_nil_or_concat
    · simp [none, some]
    · have other : isWordChar c = false := stops c (by simp)
      rw [List.concat_eq_append, List.append_assoc, List.singleton_append,
        wordsOf_append_cons other, wordsOf_append_cons other, none]
      simp [some]
  · cases b with
    | nil => simp [none, some]
    | cons c rest =>
      have other : isWordChar c = false := starts c rfl
      have first := wordsOf_append_cons other [] rest
      rw [List.nil_append, none] at first
      rw [wordsOf_append_cons other, first]
      simp [some]

/-- An ending that an identifier goes on with makes it longer, and touches no other. -/
theorem mem_wordsOf_append_run (run : ∀ c ∈ b, isWordChar c) (some : word ≠ [])
    (h : word ∈ wordsOf (a ++ b)) : word ∈ wordsOf a ∨ b <:+ word := by
  -- what precedes the last identifier, and that identifier
  let last := (a.reverse.takeWhile isWordChar).reverse
  let init := (a.reverse.dropWhile isWordChar).reverse
  have parts : a = init ++ last := by
    rw [← List.reverse_append, List.takeWhile_append_dropWhile, List.reverse_reverse]
  have stops : Stops init := by
    intro c hc
    have first := List.head?_dropWhile_not isWordChar a.reverse
    rw [List.getLast?_reverse, Option.mem_def] at hc
    rwa [hc] at first
  have long : ∀ c ∈ last ++ b, isWordChar c := by
    intro c hc
    obtain hc | hc := List.mem_append.1 hc
    · exact List.mem_takeWhile_imp (List.mem_reverse.1 hc)
    · exact run c hc
  rw [parts, List.append_assoc, mem_wordsOf_append some (.inl stops), wordsOf_run long] at h
  obtain h | h := h
  · rw [parts, mem_wordsOf_append some (.inl stops)]
    exact .inl (.inl h)
  · rw [List.mem_singleton.1 h]
    exact .inr (List.suffix_append _ _)

end Text

open Text

/-- The handles that a text speaks of have their names from texts with the property. -/
def Handle.NamedIn (N : String → Prop) (text : String) : Prop :=
  ∀ h : Handle, h.text.toList ∈ identifiers text → ∃ name, N name ∧ h.text.toList ∈ identifiers name

/-- What is no name of a handle: one has an underscore, or is one of two. -/
def Text.isPlain (word : List Char) : Bool :=
  !word.contains '_' && word != "NativeClassPtr".toList && word != "NativeDataSize".toList

/-- Characters of the generator that name no handle. -/
def Text.Plain (chars : List Char) : Prop := ∀ word ∈ wordsOf chars, isPlain word

instance (chars : List Char) : Decidable (Plain chars) := List.decidableBAll _ _

/-- What may stand between two texts without making an identifier of both. -/
structure Text.Separates (chars : List Char) : Prop where
  nonempty : chars ≠ []
  plain : Plain chars
  starts : Starts chars
  stops : Stops chars

instance (chars : List Char) : Decidable (Separates chars) :=
  decidable_of_iff (chars ≠ [] ∧ Plain chars ∧ Starts chars ∧ Stops chars)
    ⟨fun ⟨nonempty, plain, starts, stops⟩ => ⟨nonempty, plain, starts, stops⟩,
      fun h => ⟨h.nonempty, h.plain, h.starts, h.stops⟩⟩

theorem Handle.text_not_plain (h : Handle) : isPlain h.text.toList = false := by
  cases h with
  | nativeType => decide +kernel
  | dataSize => decide +kernel
  | _ => simp [Handle.text, isPlain]

theorem Handle.text_ne_nil (h : Handle) : h.text.toList ≠ [] := by
  cases h <;> simp [Handle.text]

def Handle.endings : List (List Char) :=
  ["ssPtr", "aSize", "ffset", "perty", "ength", "ction", "sSize"].map fun word => word.toList.reverse

theorem Handle.ending_mem (h : Handle) : h.text.toList.reverse.take 5 ∈ endings := by
  cases h with
  | nativeType | dataSize => decide
  | _ => simp [Handle.text, endings]

namespace Handle.NamedIn
variable {N M : String → Prop} {a b : String}

theorem of_mem (h : N a) : NamedIn N a := fun _ hk => ⟨a, h, hk⟩

theorem trans (h : NamedIn N a) (more : ∀ name, N name → NamedIn M name) : NamedIn M a := by
  intro k hk
  obtain ⟨name, hname, hk⟩ := h k hk
  exact more name hname k hk

theorem append (apart : Stops a.toList ∨ Starts b.toList) (ha : NamedIn N a) (hb : NamedIn N b) :
    NamedIn N (a ++ b) := by
  intro k hk
  rw [identifiers, String.toList_append, mem_wordsOf_append k.text_ne_nil apart] at hk
  exact hk.elim (ha k) (hb k)

theorem plain {chars : List Char} (h : Plain chars) : NamedIn N (String.ofList chars) := by
  intro k hk
  rw [identifiers, String.toList_ofList] at hk
  exact absurd (h _ hk) (by simp [k.text_not_plain])

theorem opened {chars : List Char} (h : Plain chars ∧ Stops chars) (ha : NamedIn N a) :
    NamedIn N (String.ofList chars ++ a) :=
  append (.inl (by rw [String.toList_ofList]; exact h.2)) (plain h.1) ha

theorem closed {chars : List Char} (ha : NamedIn N a) (h : Plain chars ∧ Starts chars) :
    NamedIn N (a ++ String.ofList chars) :=
  append (.inr (by rw [String.toList_ofList]; exact h.2)) ha (plain h.1)

theorem joined {chars : List Char} (ha : NamedIn N a) (h : Separates chars) (hb : NamedIn N b) :
    NamedIn N (a ++ String.ofList chars ++ b) := by
  refine append (.inl fun c hc => h.stops c ?_) (ha.closed ⟨h.plain, h.starts⟩) hb
  obtain rfl | ⟨init, d, rfl⟩ := chars.eq_nil_or_concat
  · exact absurd rfl h.nonempty
  · simpa using hc

theorem intercalate {chars : List Char} {texts : List String} (h : Separates chars)
    (all : ∀ text ∈ texts, NamedIn N text) :
    NamedIn N (String.intercalate (String.ofList chars) texts) := by
  induction texts with
  | nil => exact plain (by decide : Plain [])
  | cons text rest ih =>
    obtain ⟨first, others⟩ := List.forall_mem_cons.1 all
    cases rest with
    | nil => rwa [String.intercalate_singleton]
    | cons next rest =>
      rw [String.intercalate_cons_cons]
      exact first.joined h (ih others)

/-- A word that only makes the last identifier longer, and no handle of it. -/
theorem extended {chars : List Char} (ha : NamedIn N a) (run : chars.all isWordChar)
    (other : 5 ≤ chars.length ∧ chars.reverse.take 5 ∉ endings) :
    NamedIn N (a ++ String.ofList chars) := by
  intro k hk
  rw [identifiers, String.toList_append, String.toList_ofList] at hk
  refine (mem_wordsOf_append_run (List.all_eq_true.1 run) k.text_ne_nil hk).elim (ha k) fun ends => ?_
  obtain ⟨before, whole⟩ := ends
  have ending := k.ending_mem
  rw [← whole, List.reverse_append, List.take_append_of_le_length (by simpa using other.1)] at ending
  exact absurd ending other.2

end Handle.NamedIn

end ScriptGlue
