import ScriptGlue.Proofs.Code.Nesting
import ScriptGlue.Proofs.Session.MemberNames

/-! # Names in generated text

Names go into generated text as they are spelled. Naming adds no brace, no line break and no blank
at the beginning, so what is not in a native name is not in the script name. A name that is no text
is spelled with digits and letters.
-/
namespace ScriptGlue

namespace Text

/-- Begins with no blank, and holds more than blanks and equality signs. -/
structure Firm (text : String) : Prop where
  flush : Flush text
  more : ∃ c ∈ text.toList, c ≠ ' ' ∧ c ≠ '='

instance (text : String) : Decidable (Firm text) :=
  have := List.decidableBEx (fun c => c ≠ ' ' ∧ c ≠ '=') text.toList
  decidable_of_iff (Flush text ∧ ∃ c ∈ text.toList, c ≠ ' ' ∧ c ≠ '=')
    ⟨fun h => ⟨h.1, h.2⟩, fun h => ⟨h.flush, h.more⟩⟩

theorem Firm.led {text : String} (h : Firm text) : Led text where
  flush := h.flush
  nonempty := by
    rintro rfl
    obtain ⟨c, hc, -⟩ := h.more
    simp at hc

theorem inline_of_subset {a b : String} (h : Inline a) (sub : ∀ c ∈ b.toList, c ∈ a.toList) :
    Inline b := fun c hc => h c (sub c hc)

theorem inline_nat (n : Nat) : Inline (toString n) := by
  intro c hc
  rw [Nat.toString_eq_ofList_toDigits, String.toList_ofList] at hc
  have digit := Nat.isDigit_of_mem_toDigits (by decide) (by decide) hc
  refine ⟨?_, ?_, ?_⟩ <;> (rintro rfl; revert digit; decide)

theorem inline_int (n : Int) : Inline (toString n) := by
  cases n with
  | ofNat n => exact inline_nat n
  | negSucc n => exact inline_append.2 ⟨by decide, inline_nat _⟩

@[simp] theorem inline_nat_repr (n : Nat) : Inline n.repr := inline_nat n

@[simp] theorem inline_int_repr (n : Int) : Inline n.repr := inline_int n

theorem inline_pushn (n : Nat) : Inline ("".pushn '0' n) := by
  unfold String.pushn
  induction n with
  | zero => exact inline_empty
  | succ n ih =>
    rw [Nat.repeat]
    intro c hc
    rw [String.toList_push, List.mem_append] at hc
    obtain hc | hc := hc
    · exact ih c hc
    · rw [List.mem_singleton.1 hc]
      decide

theorem inline_take {text : String} (h : Inline text) (n : Nat) :
    Inline (text.take n).toString :=
  inline_of_subset h fun _ hc => List.mem_of_mem_take (String.toList_copy_take ▸ hc)

theorem inline_drop {text : String} (h : Inline text) (n : Nat) :
    Inline (text.drop n).toString :=
  inline_of_subset h fun _ hc => List.mem_of_mem_drop (String.toList_copy_drop ▸ hc)

theorem inline_ite {c : Prop} [Decidable c] {a b : String} (ha : Inline a) (hb : Inline b) :
    Inline (if c then a else b) := by
  split
  · exact ha
  · exact hb

theorem inline_real (x : Binary64) : Inline x.toText := by
  have sign : Inline (if x.negative then "-" else "") := inline_ite (by decide) inline_empty
  unfold Binary64.toText
  cases x.shortest? with
  | none => exact inline_ite (by decide) (inline_append.2 ⟨sign, by decide⟩)
  | some shortest =>
    have digits := inline_nat (Binary64.stripZeros 20 shortest.1 shortest.2).1
    have padded (n : Nat) : Inline ("0" ++ toString n) := inline_append.2 ⟨by decide, inline_nat n⟩
    refine inline_append.2 ⟨sign, inline_ite (inline_ite ?_ (inline_ite ?_ ?_)) ?_⟩
    · exact inline_append.2 ⟨inline_append.2 ⟨by decide, inline_pushn _⟩, digits⟩
    · exact inline_append.2 ⟨inline_append.2 ⟨digits, inline_pushn _⟩, by decide⟩
    · exact inline_append.2
        ⟨inline_append.2 ⟨inline_take digits _, by decide⟩, inline_drop digits _⟩
    · have fraction := inline_append.2 ⟨(by decide : Inline "."), inline_drop digits 1⟩
      refine inline_append.2
        ⟨inline_append.2 ⟨inline_append.2 ⟨inline_append.2 ⟨?_, ?_⟩, ?_⟩, ?_⟩, ?_⟩
      · exact inline_take digits 1
      · exact inline_ite inline_empty fraction
      · decide
      · exact inline_ite (by decide) (by decide)
      · exact inline_ite (padded _) (inline_nat _)

end Text
open Text

namespace Value

/-- What can be looked up by and is no text is spelled with digits and letters. -/
theorem inline_of_isKey {v : Value} (key : v.isKey) (other : v.isText = false) :
    Inline v.plain := by
  cases v with
  | null => decide
  | bool b => cases b <;> decide
  | int n => exact inline_int n
  | real x => exact inline_real x
  | text => cases other
  | list => cases key
  | object => cases key

/-- Names that are alike as keys are spelled alike, unless they are no texts. -/
theorem inline_of_alike {v w : Value} (key : w.isKey) (same : v.alike w) (h : Inline w.plain) :
    Inline v.plain := by
  cases text : v.isText with
  | true =>
    obtain ⟨word, rfl⟩ := eq_text_of_isText text
    rwa [(alike_text_left word w).1 same] at h
  | false =>
    refine inline_of_isKey ?_ text
    cases v with
    | list =>
      cases w with
      | list => cases key
      | _ => simp [alike] at same
    | object =>
      cases w with
      | object => cases key
      | _ => simp [alike] at same
    | _ => rfl

end Value

namespace Text

def marks : List Char := [' ', '=', '\n', '\x7b', '\x7d']

theorem not_mem_marks_of_isUppercase {c : Char} (h : isUppercase c) : c ∉ marks := by
  have none : marks.all (fun m => !isUppercase m) = true := by decide
  intro hc
  have lower := List.all_eq_true.1 none c hc
  simp [h] at lower

/-- The lower-case form of a character has no mark that the character is not. -/
theorem mem_lowercase {c d : Char} (hd : d ∈ (lowercase c).toList) : d = c ∨ d ∉ marks := by
  have runs : ∀ run ∈ lowercaseFormRuns,
      97 ≤ run.1 + run.2.2.2 ∧ run.2.1 + run.2.2.2 ≤ 122 ∨ 126 ≤ run.1 + run.2.2.2 := by
    decide +kernel
  have beyond {n : Nat} (h : 97 ≤ n ∧ n ≤ 122 ∨ 126 ≤ n) : Char.ofNat n ∉ marks := by
    have codes : marks.all (fun c =>
      decide (c.toNat < 97 ∨ 122 < c.toNat ∧ c.toNat < 126)) = true := by decide
    intro marked
    have code := of_decide_eq_true (List.all_eq_true.1 codes _ marked)
    have zero : ('\x00' : Char) ∉ marks := by decide
    by_cases valid : n.isValidChar
    · rw [Char.ofNat, dif_pos valid] at code
      change n < 97 ∨ 122 < n ∧ n < 126 at code
      omega
    · rw [Char.ofNat, dif_neg valid] at marked
      exact zero marked
  unfold lowercase at hd
  split at hd
  · obtain rfl | rfl : d = 'i' ∨ d = '\u0307' := by simpa using hd
    · exact .inr (by decide)
    · exact .inr (by decide)
  · split at hd
    · next first last stride offset found =>
      have within := List.find?_some found
      simp only [Bool.and_eq_true, decide_eq_true_eq] at within
      have run := runs _ (List.mem_of_find?_eq_some found)
      dsimp only at run
      rw [Char.toString_eq_singleton, String.toList_singleton, List.mem_singleton] at hd
      subst hd
      exact .inr (beyond (by omega))
    · rw [Char.toString_eq_singleton, String.toList_singleton, List.mem_singleton] at hd
      exact .inl hd

theorem lowercase_ne_empty (c : Char) : (lowercase c).toList ≠ [] := by
  unfold lowercase
  split
  · decide
  · split <;> simp

end Text

namespace Naming

/-- What naming keeps of a word: keywords are marked, names like the owner's are ended by an
underscore, a mark of a truth value goes, and a first letter becomes a small one. -/
structure Stable (P : String → Prop) : Prop where
  marked : ∀ {word}, P word → P ("@" ++ word)
  ended : ∀ {word}, P word → P (word ++ "_")
  unmarked : ∀ {c rest}, Text.isUppercase c → P (String.ofList ('b' :: c :: rest)) →
    P (String.ofList (c :: rest))
  lowered : ∀ {c rest}, P (String.ofList (c :: rest)) → P (Text.lowercase c ++ String.ofList rest)

theorem stable_inline : Stable Inline where
  marked h := inline_append.2 ⟨by decide, h⟩
  ended h := inline_append.2 ⟨h, by decide⟩
  unmarked _ h := inline_of_subset h fun c hc => by
    rw [String.toList_ofList] at hc ⊢
    exact List.mem_cons_of_mem _ hc
  lowered {c rest} h := by
    refine inline_append.2 ⟨fun d hd => ?_, inline_of_subset h fun d hd => ?_⟩
    · obtain rfl | unmarked := mem_lowercase hd
      · exact h d (by simp)
      · refine ⟨?_, ?_, ?_⟩ <;> (rintro rfl; exact unmarked (by decide))
    · rw [String.toList_ofList] at hd ⊢
      exact List.mem_cons_of_mem _ hd

theorem flush_cons {c : Char} {rest : List Char} : Flush (String.ofList (c :: rest)) ↔ c ≠ ' ' := by
  simp [Flush]

theorem stable_flush : Stable Flush where
  marked h := Flush.append (by decide) h
  ended h := h.append (by decide)
  unmarked uppercase _ := flush_cons.2 fun blank =>
    not_mem_marks_of_isUppercase uppercase (blank ▸ by decide)
  lowered {c rest} h := by
    obtain ⟨d, more, chars⟩ := List.exists_cons_of_ne_nil (lowercase_ne_empty c)
    have head : d = c ∨ d ∉ marks := mem_lowercase (chars ▸ List.mem_cons_self)
    have blank : d ≠ ' ' := by
      rintro rfl
      exact head.elim (fun same => flush_cons.1 h same.symm) fun unmarked => unmarked (by decide)
    simpa [Flush, String.toList_append, chars] using blank

theorem stable_firm : Stable Firm where
  marked h := ⟨stable_flush.marked h.flush, '@', by simp, by decide⟩
  ended h := ⟨stable_flush.ended h.flush, '_', by simp, by decide⟩
  unmarked {c rest} uppercase h := by
    refine ⟨stable_flush.unmarked uppercase h.flush, c, by simp, ?_, ?_⟩ <;>
      (rintro rfl; exact not_mem_marks_of_isUppercase uppercase (by decide))
  lowered {c rest} h := by
    refine ⟨stable_flush.lowered h.flush, ?_⟩
    obtain ⟨d, hd, blank, sign⟩ := h.more
    rw [String.toList_ofList] at hd
    obtain rfl | hd := List.mem_cons.1 hd
    · obtain ⟨d', more, chars⟩ := List.exists_cons_of_ne_nil (lowercase_ne_empty d)
      refine ⟨d', by simp [String.toList_append, chars], ?_⟩
      obtain rfl | unmarked :=
        mem_lowercase (chars ▸ List.mem_cons_self : d' ∈ (lowercase d).toList)
      · exact ⟨blank, sign⟩
      · exact ⟨fun is => unmarked (is ▸ by decide), fun is => unmarked (is ▸ by decide)⟩
    · exact ⟨d, by simp [String.toList_append, hd], blank, sign⟩

/-- Taking the mark off leaves a list or an object one, and any other name but a text as it is. -/
theorem unmarked_other {kind : PropertyKind} {v name : Name} (other : v.isText = false)
    (h : unmarked kind v = .ok name) : name = v ∨ name.isKey = false := by
  unfold unmarked at h
  split at h
  · unfold stripBoolMark at h
    split at h
    · cases other
    · split at h
      · split at h
        · cases h
          exact .inr rfl
        · cases h
      · cases h
        exact .inr rfl
    · cases h
      exact .inr rfl
    · split at h
      · cases h
        exact .inr rfl
      · cases h
    · cases h
  · cases h
    exact .inl rfl

theorem isKey_of_inside {owner name shown : Name} (h : inside owner name = .ok shown) :
    name.isKey := by
  cases key : name.isKey with
  | true => rfl
  | false =>
    have away : awayFrom owner name =
        if owner.truthy && name.same owner then .error .wrongType else .ok name := by
      cases name <;> first | cases key; done | (cases owner <;> rfl)
    have unknown : escapeKeyword name = .error .wrongType := by
      rw [escapeKeyword, Value.keyed, if_neg (by simp [key])]
      rfl
    rw [inside, away] at h
    split at h
    · cases h
    · exact absurd (unknown.symm.trans h) (by simp)

theorem suffix_of_afterScope? {cs rest : List Char} (h : afterScope? cs = some rest) :
    rest <:+ cs := by
  fun_induction afterScope? cs with
  | case1 more =>
    cases h
    exact (List.suffix_cons _ _).trans (List.suffix_cons _ _)
  | case2 c more _ ih => exact (ih h).trans (List.suffix_cons _ _)
  | case3 => cases h

theorem inline_withoutScope {word : String} (h : Inline word) : Inline (withoutScope word) := by
  unfold withoutScope
  split
  · next rest found =>
    refine inline_of_subset h fun c hc => (suffix_of_afterScope? found).subset ?_
    rwa [String.toList_ofList] at hc
  · exact h

namespace Stable
variable {P : String → Prop} (h : Stable P)
include h

theorem escapeWord {word : String} (good : P word) : P (escapeWord word) := by
  unfold Naming.escapeWord
  split
  · exact h.marked good
  · exact good

theorem apart (owner : String) {word : String} (good : P word) : P (apart owner word) := by
  unfold Naming.apart
  split
  · exact h.ended good
  · exact good

theorem withoutBoolMark {word : String} (good : P word) : P (withoutBoolMark word) := by
  unfold Naming.withoutBoolMark
  split
  · next c rest chars =>
    split
    · next uppercase =>
      rw [← String.ofList_toList (s := word), chars] at good
      exact h.unmarked uppercase good
    · exact good
  · exact good

theorem lowerFirst {word : String} (good : P word) : P (lowerFirst word) := by
  unfold Naming.lowerFirst
  split
  · next c rest chars =>
    rw [← String.ofList_toList (s := word), chars] at good
    exact h.lowered good
  · exact good

theorem escaped {name : Name} (good : P name.plain) : P (escaped name).plain := by
  cases name with
  | text word => exact h.escapeWord good
  | _ => exact good

theorem inside {owner name shown : Name} (good : P name.plain)
    (ok : inside owner name = .ok shown) : P shown.plain := by
  obtain ⟨type, word, rfl, rfl⟩ | other := texts_or_other owner name
  · rw [inside_text] at ok
    cases ok
    exact h.escapeWord (h.apart type good)
  · rw [(inside_other other ok).1]
    exact h.escaped good

theorem property {p : Property} {owner shown : Name} (good : P p.label)
    (ok : Session.propertyName p owner = .ok shown) : P shown.plain := by
  rw [Session.propertyName_eq] at ok
  cases rest : Naming.unmarked p.kind p.name with
  | error => rw [rest] at ok; cases ok
  | ok name =>
    rw [rest] at ok
    suffices good : P name.plain from h.inside good ok
    cases text : p.name.isText with
    | true =>
      obtain ⟨word, native⟩ := Value.eq_text_of_isText text
      rw [native, unmarked_text] at rest
      rw [Property.label, native] at good
      cases rest
      show P (if p.kind = .bool then Naming.withoutBoolMark word else word)
      split
      · exact h.withoutBoolMark good
      · exact good
    | false =>
      obtain rfl | unkeyed := unmarked_other text rest
      · exact good
      · exact absurd (isKey_of_inside ok) (by simp [unkeyed])

theorem function {f : Function} {owner shown : Name} (good : P f.label)
    (ok : Session.functionName f owner = .ok shown) : P shown.plain :=
  h.inside good (Session.functionName_eq f owner ▸ ok)

theorem parameter {p : Property} {shown : Name} (good : P p.label)
    (ok : Session.parameterName p = .ok shown) : P shown.plain := by
  rw [Session.parameterName_plain ok]
  refine h.escapeWord (h.lowerFirst ?_)
  split
  · exact h.withoutBoolMark good
  · exact good

end Stable

end Naming

end ScriptGlue
