import ScriptGlue.Code.Layout
import ScriptGlue.Text.CodePoint

/-! # Code of ASCII

A text of ASCII holds neither a half nor a mark, so it is its own characters
(`characters?_of_ascii`). Whether a text is ASCII is seen from its bytes, without decoding it, and
for laid-out code from the bytes of its lines (`Code.isAscii_text`).
-/

namespace ScriptGlue

namespace Text

variable {s a b : String}

/-- What holds of the empty text and of two texts put together holds of joined texts. -/
theorem intercalate_induction {P : String → Prop} (empty : P "")
    (append : ∀ {a b}, P a → P b → P (a ++ b)) {separator : String} {texts : List String}
    (hs : P separator) (h : ∀ text ∈ texts, P text) : P (String.intercalate separator texts) := by
  induction texts with
  | nil => exact empty
  | cons text rest ih =>
    obtain ⟨first, others⟩ := List.forall_mem_cons.1 h
    cases rest with
    | nil => rwa [String.intercalate_singleton]
    | cons next rest =>
      rw [String.intercalate_cons_cons]
      exact append (append first hs) (ih others)

def isAscii (s : String) : Bool := s.toByteArray.data.toList.all (· < 128)

theorem isAscii_append (ha : isAscii a) (hb : isAscii b) : isAscii (a ++ b) := by
  simpa [isAscii] using And.intro ha hb

theorem toNat_lt_of_utf8EncodeChar {c : Char} (h : ∀ b ∈ String.utf8EncodeChar c, b < 128) :
    c.toNat < 128 := by
  have bound : UInt8.toNat 128 = 128 := rfl
  simp only [UInt8.lt_iff_toNat_lt, String.utf8EncodeChar, bound] at h
  unfold Char.toNat
  split at h
  · omega
  · split at h
    · simp only [List.forall_mem_cons, UInt8.toNat_ofNat'] at h
      omega
    · split at h
      all_goals
        simp only [List.forall_mem_cons, UInt8.toNat_ofNat'] at h
        omega

theorem toNat_lt_of_isAscii (h : isAscii s) : ∀ c ∈ s.toList, c.toNat < 128 := by
  intro c hc
  refine toNat_lt_of_utf8EncodeChar fun b hb => ?_
  rw [isAscii, ← String.utf8Encode_toList, List.all_eq_true] at h
  refine of_decide_eq_true (h b ?_)
  simpa [List.utf8Encode] using ⟨c, hc, hb⟩

theorem codePoints_of_ascii {cs : List Char} (h : ∀ c ∈ cs, c.toNat < 128) :
    codePoints cs = cs.map Char.toNat := by
  induction cs with
  | nil => rfl
  | cons c cs ih =>
    obtain ⟨low, rest⟩ := List.forall_mem_cons.1 h
    have unmarked : c ≠ mark := by
      rintro rfl
      exact absurd low (by decide)
    have point : pointOf c = c.toNat := by
      refine if_neg ?_
      simp only [isStandIn, Bool.and_eq_true, decide_eq_true_eq]
      omega
    rw [codePoints_cons unmarked, point, ih rest, List.map_cons]

theorem characters?_of_ascii (h : isAscii s) : characters? s = some s := by
  have low := toNat_lt_of_isAscii h
  have whole : (s.toList.map Char.toNat).any isHalf = false := by
    simp only [List.any_eq_false, List.forall_mem_map, isHalf, Bool.and_eq_true, decide_eq_true_eq]
    intro c hc
    have := low c hc
    omega
  have back : Char.ofNat ∘ Char.toNat = id := funext Char.ofNat_toNat
  simp only [characters?, codePoints_of_ascii low, whole, List.map_map, back, List.map_id,
    String.ofList_toList]
  rfl

end Text

namespace Code

def isAscii (code : Code) : Bool := (code.lines 0).all Text.isAscii

theorem isAscii_text {code : Code} (h : code.isAscii) : Text.isAscii code.text := by
  have lineBreak : Text.isAscii "\n" := rfl
  have lines : Text.isAscii (String.intercalate "\n" (code.lines 0)) :=
    Text.intercalate_induction (P := fun line => Text.isAscii line) rfl Text.isAscii_append lineBreak
      (List.all_eq_true.1 h)
  exact Text.isAscii_append lines lineBreak

end Code

end ScriptGlue
