import ScriptGlue.Proofs.Code.PrintedLines
import ScriptGlue.Proofs.Code.PrintedNames
import ScriptGlue.Proofs.Session.MemberNames
import ScriptGlue.Proofs.Session.Repetition

/-! # Enumerators

The unit of an enum declares a value for each entry that the policy allows, but for a sentinel at
the end. Each has the position of its entry among all entries, so the values increase. Its name is
what follows the first scope of the entry, as it stands: other scopes stay in it, keywords are not
escaped, entries that differ in the scope alone have one name, and the type that is to hold the
values is not asked how many there are.
-/
namespace ScriptGlue
open ScriptGlue.Action

namespace Naming

/-- An entry with the scopes that qualify it, the outermost first. -/
structure ScopedWord where
  scopes : List String
  word : String
  plain : ∀ part ∈ scopes ++ [word], ':' ∉ part.toList
  deriving DecidableEq

def scopeMark : List Char := [':', ':']

/-- The scopes and the word, as native code joins them. -/
def joined (scopes : List String) (word : String) : String :=
  String.intercalate "::" (scopes ++ [word])

def ScopedWord.text (e : ScopedWord) : String := joined e.scopes e.word

def ScopedWord.shown (e : ScopedWord) : String := joined e.scopes.tail e.word

theorem afterScope?_of_plain {cs : List Char} (plain : ':' ∉ cs) : afterScope? cs = none := by
  fun_induction afterScope? cs with
  | case1 => exact absurd List.mem_cons_self plain
  | case2 _ _ _ ih => exact ih fun among => plain (List.mem_cons_of_mem _ among)
  | case3 => rfl

theorem afterScope?_append {cs : List Char} (plain : ':' ∉ cs) (rest : List Char) :
    afterScope? (cs ++ scopeMark ++ rest) = some rest := by
  induction cs with
  | nil => rfl
  | cons c more ih =>
    obtain ⟨first, others⟩ := not_or.1 (List.mem_cons.not.1 plain)
    rw [List.cons_append, List.cons_append, afterScope?.eq_2 _ _ fun _ same _ => first same.symm]
    exact ih others

theorem not_scopeMark_infix_of_plain {cs : List Char} (plain : ':' ∉ cs) : ¬scopeMark <:+: cs :=
  fun within => plain (within.subset List.mem_cons_self)

theorem joined_cons (scope : String) (scopes : List String) (word : String) :
    joined (scope :: scopes) word = scope ++ "::" ++ joined scopes word :=
  String.intercalate_cons_of_ne_nil (by simp)

theorem toList_joined_cons (scope : String) (scopes : List String) (word : String) :
    (joined (scope :: scopes) word).toList =
      scope.toList ++ scopeMark ++ (joined scopes word).toList := by
  rw [joined_cons, String.toList_append, String.toList_append]
  rfl

theorem joined_nil (word : String) : joined [] word = word := String.intercalate_singleton

namespace ScopedWord

theorem plain_word (e : ScopedWord) : ':' ∉ e.word.toList := e.plain _ (by simp)

theorem withoutScope_text (e : ScopedWord) : withoutScope e.text = e.shown := by
  unfold withoutScope text shown
  cases scopes : e.scopes with
  | nil => rw [List.tail_nil, joined_nil, afterScope?_of_plain e.plain_word]
  | cons scope more =>
    have plain : ':' ∉ scope.toList := e.plain _ (by simp [scopes])
    rw [toList_joined_cons, afterScope?_append plain]
    exact String.ofList_toList

theorem shown_of_oneScope {e : ScopedWord} (one : e.scopes.length ≤ 1) : e.shown = e.word := by
  have none : e.scopes.tail = [] := List.length_eq_zero_iff.1 (by rw [List.length_tail]; omega)
  rw [shown, none, joined_nil]

theorem scoped_shown_iff (e : ScopedWord) :
    scopeMark <:+: e.shown.toList ↔ 1 < e.scopes.length := by
  constructor
  · intro among
    by_contra one
    rw [shown_of_oneScope (by omega)] at among
    exact not_scopeMark_infix_of_plain e.plain_word among
  · intro many
    rw [shown]
    cases left : e.scopes.tail with
    | nil =>
      have none := congrArg List.length left
      rw [List.length_tail, List.length_nil] at none
      omega
    | cons scope more =>
      rw [toList_joined_cons]
      exact ⟨_, _, rfl⟩

end ScopedWord

end Naming

/-- Greatest value of the types that may hold an enum's values. -/
def greatestValue : String → Nat
  | "sbyte" => 127
  | "byte" => 255
  | "short" => 32767
  | "ushort" => 65535
  | "int" => 2147483647
  | "uint" => 4294967295
  | "long" => 9223372036854775807
  | "ulong" => 18446744073709551615
  | _ => 0

/-- An enum whose values have each a name of its own, which is a plain word, and fit the type that
holds them. -/
structure EnumUnit.Usable (u : EnumUnit) : Prop where
  distinct : (u.values.map Prod.fst).Nodup
  keywordless : ∀ value ∈ u.values, value.1 ∉ Naming.keywords
  unscoped : ∀ value ∈ u.values, ¬Naming.scopeMark <:+: value.1.toList
  fitting : ∀ value ∈ u.values, value.2 ≤ greatestValue u.underlying

namespace Session
open Naming

/-- An entry at a position is declared if the policy allows it, but for a sentinel at the end. -/
def isKept (policy : Policy) (enum : Name) (count : Nat) (entry : ScopedWord × Nat) : Bool :=
  policy.allowsEnumEntry enum (.text entry.1.text) &&
    !decide (entry.2 + 1 = count ∧ entry.1.shown.endsWith sentinelMark)

/-- The entries that an enum's unit declares, with their positions among all. -/
def keptEntries (policy : Policy) (enum : Name) (entries : List ScopedWord) :
    List (ScopedWord × Nat) :=
  entries.zipIdx.filter (isKept policy enum entries.length)

def enumValue (entry : ScopedWord × Nat) : String × Nat := (entry.1.shown, entry.2)

theorem enumValuesFrom_text (policy : Policy) (enum : Name) (count i : Nat) (e : ScopedWord)
    (rest : List Value) :
    enumValuesFrom policy enum count i (.text e.text :: rest) = (do
      let others ← enumValuesFrom policy enum count (i + 1) rest
      return if isKept policy enum count (e, i) then (e.shown, i) :: others else others) := by
  have step : enumValuesFrom policy enum count i (.text e.text :: rest) =
      if !policy.allowsEnumEntry enum (.text e.text) then
        enumValuesFrom policy enum count (i + 1) rest
      else do
        let others ← enumValuesFrom policy enum count (i + 1) rest
        return if i + 1 = count ∧ (withoutScope e.text).endsWith sentinelMark then others
          else (withoutScope e.text, i) :: others := rfl
  rw [step, e.withoutScope_text]
  unfold isKept
  cases policy.allowsEnumEntry enum (.text e.text) with
  | false =>
    cases enumValuesFrom policy enum count (i + 1) rest with
    | error _ => rfl
    | ok others => rfl
  | true =>
    by_cases last : i + 1 = count ∧ e.shown.endsWith sentinelMark
    · simp only [last, and_self, decide_true, Bool.not_true, Bool.and_false, Bool.false_eq_true,
        if_false, if_true]
    · simp only [last, decide_false, Bool.not_true, Bool.not_false, Bool.and_self,
        Bool.false_eq_true, if_false, if_true]

theorem enumValuesFrom_texts (policy : Policy) (enum : Name) (count i : Nat)
    (entries : List ScopedWord) :
    enumValuesFrom policy enum count i (entries.map fun e => .text e.text) =
      .ok (((entries.zipIdx i).filter (isKept policy enum count)).map enumValue) := by
  induction entries generalizing i with
  | nil => rfl
  | cons e rest ih =>
    rw [List.map_cons, enumValuesFrom_text, ih (i + 1), List.zipIdx_cons, List.filter_cons]
    cases isKept policy enum count (e, i) <;> rfl

theorem enumValues_texts (policy : Policy) (enum : Name) (entries : List ScopedWord) :
    enumValues policy enum (entries.map fun e => .text e.text) =
      .ok ((keptEntries policy enum entries).map enumValue) := by
  rw [enumValues, List.length_map]
  exact enumValuesFrom_texts policy enum entries.length 0 entries

theorem getElem?_of_mem_keptEntries {policy : Policy} {enum : Name} {entries : List ScopedWord}
    {entry : ScopedWord × Nat} (kept : entry ∈ keptEntries policy enum entries) :
    entries[entry.2]? = some entry.1 :=
  List.mem_zipIdx_iff_getElem?.1 (List.mem_of_mem_filter kept)

theorem pairwise_keptEntries (policy : Policy) (enum : Name) (entries : List ScopedWord) :
    (keptEntries policy enum entries).Pairwise fun a b => a.2 < b.2 := by
  have positions : entries.zipIdx.Pairwise fun a b => a.2 < b.2 := by
    rw [← List.pairwise_map (f := Prod.snd) (R := (· < ·)), List.zipIdx_map_snd]
    exact List.pairwise_lt_range'
  exact positions.filter _

/-- Declared entries with one scope at most, distinct words that are no keywords, and positions up
to a number. -/
structure Enumerable (kept : List (ScopedWord × Nat)) (greatest : Nat) : Prop where
  oneScope : ∀ entry ∈ kept, entry.1.scopes.length ≤ 1
  distinct : (kept.map fun entry => entry.1.word).Nodup
  keywordless : ∀ entry ∈ kept, entry.1.word ∉ keywords
  room : ∀ entry ∈ kept, entry.2 ≤ greatest

theorem usable_iff {u : EnumUnit} {kept : List (ScopedWord × Nat)}
    (values : u.values = kept.map enumValue) :
    u.Usable ↔ Enumerable kept (greatestValue u.underlying) := by
  have among {P : String × Nat → Prop} :
      (∀ value ∈ u.values, P value) ↔ ∀ entry ∈ kept, P (entry.1.shown, entry.2) := by
    rw [values, List.forall_mem_map]
    rfl
  have oneScope_iff : (∀ value ∈ u.values, ¬scopeMark <:+: value.1.toList) ↔
      ∀ entry ∈ kept, entry.1.scopes.length ≤ 1 := by
    rw [among]
    exact forall₂_congr fun entry _ => by rw [entry.1.scoped_shown_iff, not_lt]
  -- With one scope at most each name is the word itself.
  have names (one : ∀ entry ∈ kept, entry.1.scopes.length ≤ 1) :
      u.values.map Prod.fst = kept.map fun entry => entry.1.word := by
    rw [values, List.map_map]
    exact List.map_congr_left fun entry mem => ScopedWord.shown_of_oneScope (one entry mem)
  have words (one : ∀ entry ∈ kept, entry.1.scopes.length ≤ 1) :
      (∀ value ∈ u.values, value.1 ∉ keywords) ↔ ∀ entry ∈ kept, entry.1.word ∉ keywords := by
    rw [among]
    exact forall₂_congr fun entry mem => by rw [ScopedWord.shown_of_oneScope (one entry mem)]
  constructor
  · intro usable
    have one := oneScope_iff.1 usable.unscoped
    exact ⟨one, names one ▸ usable.distinct, (words one).1 usable.keywordless,
      among.1 usable.fitting⟩
  · intro enumerable
    have one := enumerable.oneScope
    exact ⟨(names one).symm ▸ enumerable.distinct, (words one).2 enumerable.keywordless,
      oneScope_iff.2 one, among.2 enumerable.room⟩

theorem spaceOf_policy {t : TypeNode} {s u : Session} {space : String}
    (h : spaceOf t s = (.ok space, u)) : u.policy = s.policy := by
  obtain ⟨m, u', registered, h⟩ := bind_eq_ok.1 h
  obtain ⟨-, rfl⟩ := pure_eq_ok.1 h
  rw [register_apply] at registered
  split at registered
  · split at registered
    · cases registered
      rfl
    · split at registered
      · cases registered
      · split at registered <;> cases registered
        rfl
  · cases registered

theorem underlyingType_ne_empty {native : Value} {underlying : String}
    (known : underlyingType native = .ok underlying) : underlying ≠ "" := by
  unfold underlyingType at known
  split at known
  case h_9 =>
    split at known <;> cases known
    decide
  all_goals
    cases known
    decide

/-- The unit of an enum is made whenever its module has a place and its numbers have a type. -/
theorem enumUnit_of_spaceOf {t : TypeNode} {entries : List ScopedWord} {native : Value}
    {s u : Session} {space underlying : String}
    (enum : t.body = .enum (entries.map fun e => .text e.text) native)
    (found : spaceOf t s = (.ok space, u)) (known : underlyingType native = .ok underlying) :
    enumUnit t s = (.ok {
      space, underlying
      name := scriptLabel t
      values := (keptEntries s.policy t.name entries).map enumValue }, u) := by
  unfold enumUnit
  rw [bind_of_ok found, enum]
  simp only [known, bind_of_ok (ofExcept_apply _ _), bind_of_ok (get_apply _),
    spaceOf_policy found, enumValues_texts]
  rfl

/-- An enum's unit declares the entries that are kept, under the names that their first scopes leave
and in increasing order, each with its position among all entries; it is made whenever its module
has a place and its numbers have a type. The values are usable just if no kept entry has two scopes,
their words are distinct and no keywords, and no position is too great for the type that holds the
values. Each value is a line between the braces of the declaration. -/
theorem enum_unit_usable_iff {t : TypeNode} {entries : List ScopedWord} {native : Value}
    {s : Session} (enum : t.body = .enum (entries.map fun e => .text e.text) native) :
    (∀ unit u, enumUnit t s = (.ok unit, u) →
      unit.values = (keptEntries s.policy t.name entries).map enumValue ∧
      (unit.values.map Prod.snd).Pairwise (· < ·) ∧
      (∀ entry ∈ keptEntries s.policy t.name entries, entries[entry.2]? = some entry.1) ∧
      (unit.Usable ↔ Enumerable (keptEntries s.policy t.name entries)
        (greatestValue unit.underlying)) ∧
      unit.code = Code.opening unit.space ++ [Layout.line "[UEnum]"] ++
        Code.braced ("public enum " ++ unit.name ++ " : " ++ unit.underlying)
          ((keptEntries s.policy t.name entries).map fun entry =>
            .line (entry.1.shown ++ "=" ++ toString entry.2 ++ ","))) ∧
    ∀ space u underlying, spaceOf t s = (.ok space, u) →
      underlyingType native = .ok underlying →
        ∃ unit, enumUnit t s = (.ok unit, u) ∧ unit.underlying = underlying := by
  refine ⟨fun unit u made => ?_, fun space u underlying found known =>
    ⟨_, enumUnit_of_spaceOf enum found known, rfl⟩⟩
  obtain ⟨space, v, found, rest⟩ := bind_eq_ok.1 made
  rw [enum] at rest
  obtain ⟨underlying, w, hunderlying, -⟩ := bind_eq_ok.1 rest
  obtain ⟨known, -⟩ := ofExcept_eq_ok.1 hunderlying
  rw [enumUnit_of_spaceOf enum found known] at made
  cases made
  refine ⟨rfl, ?_, fun entry => getElem?_of_mem_keptEntries, usable_iff rfl, ?_⟩
  · rw [List.map_map, List.pairwise_map]
    exact pairwise_keptEntries s.policy t.name entries
  · rw [EnumUnit.code_printed (underlyingType_ne_empty known), List.map_map]
    rfl

/-- An enum of some entries, whose values are bytes. -/
def enumOf (entries : List ScopedWord) : TypeNode where
  name := .text "E"
  home := { name := .text "M" }
  body := .enum (entries.map fun e => .text e.text) (.text "uint8")

/-- Two entries of the enum itself and the sentinel. -/
def plainEntries : List ScopedWord :=
  [⟨["E"], "A", by decide⟩, ⟨["E"], "B", by decide⟩, ⟨["E"], "E_MAX", by decide⟩]

/-- Distinct entries: a keyword, and one word in two other enums. -/
def clashingEntries : List ScopedWord :=
  [⟨["E"], "class", by decide⟩, ⟨["F"], "A", by decide⟩, ⟨["E", "F"], "A", by decide⟩,
    ⟨["G"], "A", by decide⟩]

def typelessSession : Session := fresh {} { scriptsDir := .text "out" } (.text ".cs") {}

/-- The values of plain entries are usable. -/
theorem enum_unit_usable_iff_of_plain :
    (enumOf plainEntries).body = .enum (plainEntries.map fun e => .text e.text) (.text "uint8") ∧
      ∃ unit u, enumUnit (enumOf plainEntries) typelessSession = (.ok unit, u) ∧
        unit.values = [("A", 0), ("B", 1)] ∧ unit.Usable := by
  refine ⟨rfl, ?_⟩
  obtain ⟨facts, made⟩ :=
    @enum_unit_usable_iff (enumOf plainEntries) plainEntries (.text "uint8") typelessSession rfl
  obtain ⟨unit, made, bytes⟩ := made "UnrealSharp.M" _ "byte" rfl rfl
  have kept : keptEntries typelessSession.policy (enumOf plainEntries).name plainEntries =
      [(⟨["E"], "A", by decide⟩, 0), (⟨["E"], "B", by decide⟩, 1)] := by
    decide +kernel
  obtain ⟨values, -, -, usable, -⟩ := facts unit _ made
  rw [kept] at values usable
  refine ⟨unit, _, made, values.trans (by decide), usable.2 ?_⟩
  rw [bytes]
  exact ⟨by decide, by decide, by decide, by decide⟩

/-- The entries of an enum differ, and yet its values have a keyword for a name, a name in a scope,
and one name twice. -/
theorem enum_values_clash :
    (clashingEntries.map ScopedWord.text).Nodup ∧
      ∃ unit u, enumUnit (enumOf clashingEntries) typelessSession = (.ok unit, u) ∧
        unit.values = [("class", 0), ("A", 1), ("F::A", 2), ("A", 3)] ∧ ¬unit.Usable := by
  refine ⟨by decide, _, _, rfl, by decide +kernel, fun usable => ?_⟩
  have distinct := usable.distinct
  exact absurd distinct (by decide +kernel)

end Session
end ScriptGlue
