import ScriptGlue.Proofs.Session.Fits
import ScriptGlue.Proofs.Session.ParameterNames

/-! # Names of members and of their types

No member is called by a bare keyword. A member named like its type gets a trailing underscore, but
its name is compared before it is escaped, and with the name of the type as it stands in the script.
So a type that is named by a keyword and a member named by the same keyword end with one name.
-/
namespace ScriptGlue

namespace Naming

theorem marked_not_mem (word : String) : "@" ++ word ∉ keywords := by
  have plain : ∀ keyword ∈ keywords, keyword.toList.head? ≠ some '@' := by decide
  exact fun known => plain _ known (by rw [String.toList_append]; rfl)

theorem underscored_not_mem (word : String) : word ++ "_" ∉ keywords := by
  have plain : ∀ keyword ∈ keywords, keyword.toList.getLast? ≠ some '_' := by decide
  exact fun known => plain _ known (by
    rw [String.toList_append]
    exact List.getLast?_concat)

theorem escapeWord_not_mem (word : String) : escapeWord word ∉ keywords := by
  by_cases keyword : word ∈ keywords
  · rw [escapeWord_of_mem keyword]
    exact marked_not_mem word
  · rwa [escapeWord_of_not_mem keyword]

theorem append_ne_self {word more : String} (some : more ≠ "") : word ++ more ≠ word := by
  intro same
  have lengths := congrArg String.length same
  rw [String.length_append] at lengths
  exact some (String.length_eq_zero_iff.1 (by omega))

/-- A member ends with the name of its type only if its name is a keyword and the type's is that
keyword as it is escaped. -/
theorem escapeWord_apart_eq_iff {owner : String} (named : owner ≠ "") (word : String) :
    escapeWord (apart owner word) = owner ↔ word ∈ keywords ∧ owner = "@" ++ word := by
  unfold apart
  by_cases same : word = owner
  · subst same
    rw [if_pos ⟨named, rfl⟩, escapeWord_of_not_mem (underscored_not_mem word)]
    constructor
    · exact fun longer => absurd longer (append_ne_self (by decide))
    · rintro ⟨keyword, longer⟩
      rw [longer] at keyword
      exact absurd keyword (marked_not_mem word)
  · rw [if_neg fun both => same both.2]
    by_cases keyword : word ∈ keywords
    · rw [escapeWord_of_mem keyword]
      exact ⟨fun marked => ⟨keyword, marked.symm⟩, fun both => both.2.symm⟩
    · rw [escapeWord_of_not_mem keyword]
      exact ⟨fun known => absurd known same, fun both => absurd both.1 keyword⟩

/-- The type stands under the member's name, a keyword, as it is escaped; or neither is named. -/
def Unparted (owner name : Name) : Prop :=
  (∃ word ∈ keywords, name = .text word ∧ owner = .text ("@" ++ word)) ∨
    owner.truthy = false ∧ name.same owner

def inside (owner name : Name) : Except Fault Name := do escapeKeyword (← awayFrom owner name)

theorem inside_text (owner word : String) :
    inside (.text owner) (.text word) = .ok (.text (escapeWord (apart owner word))) := rfl

theorem escaped_of_not_text {name : Name} (other : name.isText = false) : escaped name = name := by
  cases name <;> first | rfl | cases other

/-- Unless both are texts the names are left as they are, and are not one that says something. -/
theorem inside_other {owner name shown : Name} (other : owner.isText = false ∨ name.isText = false)
    (h : inside owner name = .ok shown) :
    shown = escaped name ∧ ¬(owner.truthy ∧ name.same owner) := by
  have away : awayFrom owner name =
      if owner.truthy && name.same owner then .error .wrongType else .ok name := by
    cases owner <;> cases name <;> first | rfl | simp [Value.isText] at other
  rw [inside, away] at h
  by_cases one : (owner.truthy && name.same owner) = true
  · rw [if_pos one] at h
    cases h
  · rw [if_neg one] at h
    refine ⟨?_, fun both => one (Bool.and_eq_true_iff.2 both)⟩
    have escaping : escapeKeyword name = .ok shown := h
    unfold escapeKeyword Value.keyed at escaping
    split at escaping <;> cases escaping
    rfl

theorem texts_or_other (owner name : Name) :
    (∃ type word, owner = .text type ∧ name = .text word) ∨
      (owner.isText = false ∨ name.isText = false) := by
  cases owner with
  | text type =>
    cases name with
    | text word => exact .inl ⟨type, word, rfl, rfl⟩
    | _ => exact .inr (.inr rfl)
  | _ => exact .inr (.inl rfl)

theorem not_keyword_of_inside {owner name shown : Name} (h : inside owner name = .ok shown) :
    ∀ word ∈ keywords, shown ≠ .text word := by
  rintro word keyword rfl
  obtain ⟨type, native, rfl, rfl⟩ | other := texts_or_other owner name
  · rw [inside_text] at h
    cases h
    exact escapeWord_not_mem _ keyword
  · obtain ⟨same, -⟩ := inside_other other h
    cases name with
    | text native =>
      cases same
      exact escapeWord_not_mem _ keyword
    | _ => cases same

theorem same_text_of_not_text {v : Value} (other : v.isText = false) (word : String) :
    v.same (.text word) = false ∧ Value.same (.text word) v = false := by
  constructor
  · cases v <;> first | rfl | cases other
  · cases v <;> first | rfl | cases other

/-- A member ends with the name of its type just if the names are not parted. -/
theorem same_of_inside_iff {owner name shown : Name} (h : inside owner name = .ok shown) :
    shown.same owner ↔ Unparted owner name := by
  unfold Unparted
  obtain ⟨type, native, rfl, rfl⟩ | other := texts_or_other owner name
  · rw [inside_text] at h
    cases h
    rw [Value.same_text, beq_iff_eq]
    by_cases named : type = ""
    · subst named
      have empty : escapeWord native = "" ↔ native = "" := by
        by_cases keyword : native ∈ keywords
        · rw [escapeWord_of_mem keyword]
          constructor
          · exact fun none => absurd none (by simp)
          · rintro rfl
            exact absurd keyword (by decide)
        · rw [escapeWord_of_not_mem keyword]
      simp [apart, Value.truthy, empty]
    · rw [escapeWord_apart_eq_iff named]
      simp [Value.truthy, named]
  · obtain ⟨rfl, notSame⟩ := inside_other other h
    have keywordless : ¬∃ word ∈ keywords, name = .text word ∧ owner = .text ("@" ++ word) := by
      rintro ⟨word, -, rfl, rfl⟩
      simp [Value.isText] at other
    simp only [keywordless, false_or]
    cases text : name.isText with
    | true =>
      obtain ⟨native, rfl⟩ := Value.eq_text_of_isText text
      have away := same_text_of_not_text (other.resolve_right (by simp [text]))
      simp [escaped, (away _).2]
    | false =>
      rw [escaped_of_not_text text]
      cases truthy : owner.truthy <;> simp_all

end Naming

namespace Session

theorem propertyName_eq (p : Property) (owner : Name) :
    propertyName p owner = Naming.unmarked p.kind p.name >>= Naming.inside owner := rfl

theorem functionName_eq (f : Function) (owner : Name) :
    functionName f owner = Naming.inside owner f.name := rfl

/-- What the members of a type are called is no bare keyword. It is what the type is called in the
script just if the type and the member, the mark of a truth value off, are named by one keyword, or
the type by what that keyword is escaped to, or both have no name at all. Texts always make a
name. -/
theorem member_name_same_type_iff (t : TypeNode) :
    (∀ p shown, propertyName p (scriptName t) = .ok shown →
        (∀ word ∈ Naming.keywords, shown ≠ .text word) ∧ ∃ name,
          Naming.unmarked p.kind p.name = .ok name ∧
            (shown.same (scriptName t) ↔ Naming.Unparted (scriptName t) name)) ∧
      (∀ f shown, functionName f (scriptName t) = .ok shown →
        (∀ word ∈ Naming.keywords, shown ≠ .text word) ∧
          (shown.same (scriptName t) ↔ Naming.Unparted (scriptName t) f.name)) ∧
      (t.name.isText → (∀ p, p.name.isText → ∃ shown, propertyName p (scriptName t) = .ok shown) ∧
        ∀ f, f.name.isText → ∃ shown, functionName f (scriptName t) = .ok shown) := by
  refine ⟨fun p shown h => ?_, fun f shown h => ?_, fun text => ⟨fun p hp => ?_, fun f hf => ?_⟩⟩
  · rw [propertyName_eq] at h
    cases stripped : Naming.unmarked p.kind p.name with
    | error e =>
      rw [stripped] at h
      cases h
    | ok name =>
      rw [stripped] at h
      exact ⟨Naming.not_keyword_of_inside h, name, rfl, Naming.same_of_inside_iff h⟩
  · rw [functionName_eq] at h
    exact ⟨Naming.not_keyword_of_inside h, Naming.same_of_inside_iff h⟩
  · exact Naming.property_ok hp p.kind (isText_scriptName text)
  · exact Naming.function_ok hf (isText_scriptName text)

def typeCalled (name : String) : TypeNode where
  name := .text name
  home := { name := .text "M" }
  body := .struct []

def flagCalled (name : String) : Property := { name := .text name, kind := .bool, owner := .null }

def functionCalled (name : String) : Function := { name := .text name, owner := .null }

/-- A member named like its type is told from it. -/
theorem member_name_same_type_iff_of_light :
    propertyName (flagCalled "bLight") (scriptName (typeCalled "Light")) = .ok (.text "Light_") ∧
      functionName (functionCalled "Light") (scriptName (typeCalled "Light")) =
        .ok (.text "Light_") ∧
      ¬(Value.text "Light_").same (scriptName (typeCalled "Light")) := by
  have parted : ¬Naming.Unparted (scriptName (typeCalled "Light")) (.text "Light") := by
    rintro (⟨word, keyword, same, -⟩ | ⟨unnamed, -⟩)
    · rw [← Value.text.inj same] at keyword
      exact absurd keyword (by decide)
    · cases unnamed
  obtain ⟨properties, functions, -⟩ := member_name_same_type_iff (typeCalled "Light")
  obtain ⟨-, name, unmarked, ofProperty⟩ := properties (flagCalled "bLight") (.text "Light_") rfl
  obtain ⟨-, ofFunction⟩ := functions (functionCalled "Light") (.text "Light_") rfl
  cases unmarked
  exact ⟨rfl, rfl, fun same => parted (ofProperty.1 same)⟩

/-- The members of a type that is named by a keyword, if they are named by it too, are called what
the type is called. -/
theorem member_named_like_type :
    propertyName (flagCalled "object") (scriptName (typeCalled "object")) =
        .ok (scriptName (typeCalled "object")) ∧
      functionName (functionCalled "object") (scriptName (typeCalled "object")) =
        .ok (scriptName (typeCalled "object")) :=
  ⟨rfl, rfl⟩

end Session
end ScriptGlue
