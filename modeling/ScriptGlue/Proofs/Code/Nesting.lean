import Mathlib.Data.List.Basic
import ScriptGlue.Proofs.Code.Ascii

/-! # Nested code

Code nests if each brace it opens is closed, with the steps in and out beside the braces. Its text
is read line by line: the braces balance, each line begins with four blanks per level, and no step
out is taken at level zero. A line is indented further than that only if its own text begins with a
blank.
-/
namespace ScriptGlue

namespace Text

def InlineChars (chars : List Char) : Prop := ∀ c ∈ chars, c ≠ '\n' ∧ c ≠ '\x7b' ∧ c ≠ '\x7d'

-- Only the characters of the list are looked at, not all that there are.
instance (chars : List Char) : Decidable (InlineChars chars) := List.decidableBAll _ chars

def Inline (text : String) : Prop := InlineChars text.toList

instance (text : String) : Decidable (Inline text) :=
  inferInstanceAs (Decidable (InlineChars text.toList))

def Flush (text : String) : Prop := text.toList.head? ≠ some ' '

instance (text : String) : Decidable (Flush text) :=
  inferInstanceAs (Decidable (text.toList.head? ≠ some ' '))

structure Led (text : String) : Prop where
  flush : Flush text
  nonempty : text ≠ ""

variable {a b : String}

@[simp] theorem inline_append : Inline (a ++ b) ↔ Inline a ∧ Inline b := by
  unfold Inline InlineChars
  rw [String.toList_append, List.forall_mem_append]

theorem inline_empty : Inline "" := by decide

theorem inline_literal {chars : List Char} (h : InlineChars chars) :
    Inline (String.ofList chars) := by
  rwa [Inline, String.toList_ofList]

theorem inline_intercalate {separator : String} {texts : List String} (hs : Inline separator)
    (h : ∀ text ∈ texts, Inline text) : Inline (String.intercalate separator texts) :=
  intercalate_induction inline_empty (fun ha hb => inline_append.2 ⟨ha, hb⟩) hs h

theorem Flush.append (ha : Flush a) (hb : Flush b) : Flush (a ++ b) := by
  unfold Flush at *
  cases chars : a.toList with
  | nil => simpa [String.toList_append, chars] using hb
  | cons c rest => simpa [String.toList_append, chars] using ha

theorem Led.append (ha : Led a) (b : String) : Led (a ++ b) where
  flush := by
    obtain ⟨flush, nonempty⟩ := ha
    unfold Flush at *
    cases chars : a.toList with
    | nil => exact absurd (String.toList_eq_nil_iff.1 chars) nonempty
    | cons c rest => simpa [String.toList_append, chars] using flush
  nonempty none := ha.nonempty (String.append_eq_empty_iff.1 none).1

theorem led_literal {c : Char} {chars : List Char} (h : c ≠ ' ') :
    Led (String.ofList (c :: chars)) where
  flush := by simpa [Flush] using h
  nonempty := by simp [← String.toList_inj]

theorem led_begun {c : Char} {chars : List Char} (h : c ≠ ' ') (rest : String) :
    Led (String.ofList (c :: chars) ++ rest) := (led_literal h).append rest

end Text

namespace Code
open Text

/-- Stays on its line, and begins with no blank if `exact`. -/
structure LineText (exact : Prop) (text : String) : Prop where
  inline : Inline text
  flush : exact → Flush text

theorem lineText_of_led {exact : Prop} {text : String} (inline : Inline text) (led : Led text) :
    LineText exact text := ⟨inline, fun _ => led.flush⟩

theorem lineText_literal {exact : Prop} {c : Char} {chars : List Char} (head : c ≠ ' ')
    (h : InlineChars (c :: chars)) : LineText exact (String.ofList (c :: chars)) :=
  lineText_of_led (inline_literal h) (led_literal head)

theorem lineText_between {exact : Prop} {c : Char} {before after : List Char} {text : String}
    (head : c ≠ ' ') (hb : InlineChars (c :: before)) (inline : Inline text)
    (ha : InlineChars after) :
    LineText exact (String.ofList (c :: before) ++ text ++ String.ofList after) :=
  lineText_of_led (inline_append.2 ⟨inline_append.2 ⟨inline_literal hb, inline⟩, inline_literal ha⟩)
    ((led_begun head text).append _)

/-- Lines, and bodies in braces one level further in. -/
inductive Nested (exact : Prop) : Code → Prop
  | nil : Nested exact []
  | line {text : String} {rest : Code} (good : LineText exact text) (others : Nested exact rest) :
      Nested exact (.line text :: rest)
  | braces {body rest : Code} (inner : Nested exact body) (others : Nested exact rest) :
      Nested exact (openBrace ++ body ++ closeBrace "" ++ rest)

namespace Nested
variable {exact : Prop} {a b : Code}

theorem append (ha : Nested exact a) (hb : Nested exact b) : Nested exact (a ++ b) := by
  induction ha with
  | nil => exact hb
  | line good _ ih => exact .line good ih
  | braces inner _ _ ih => simpa using Nested.braces inner ih

theorem single {text : String} (good : LineText exact text) : Nested exact [.line text] :=
  .line good .nil

theorem blank : Nested exact Code.blank := .single ⟨inline_empty, fun _ => by decide⟩

theorem lines {α : Type} {f : α → String} {xs : List α} (good : ∀ x ∈ xs, LineText exact (f x)) :
    Nested exact (xs.map fun x => .line (f x)) := by
  induction xs with
  | nil => exact .nil
  | cons x xs ih =>
    obtain ⟨first, others⟩ := List.forall_mem_cons.1 good
    exact .line first (ih others)

theorem flatMap {α : Type} {f : α → Code} {xs : List α} (nested : ∀ x ∈ xs, Nested exact (f x)) :
    Nested exact (xs.flatMap f) := by
  induction xs with
  | nil => exact .nil
  | cons x xs ih =>
    obtain ⟨first, others⟩ := List.forall_mem_cons.1 nested
    exact first.append (ih others)

theorem block {header : String} (good : LineText exact header) (body : Nested exact b) :
    Nested exact (Code.block header b) := by
  simpa [Code.block, blockWith, closeBrace] using Nested.line good (.braces body .nil)

theorem rawMemory (body : Nested exact b) : Nested exact (Code.rawMemory b) :=
  .block (lineText_literal (by decide) (by decide)) body

end Nested

def NeverClamps : Nat → Code → Prop
  | _, [] => True
  | level, .line _ :: rest => NeverClamps level rest
  | level, .indent :: rest => NeverClamps (level + 1) rest
  | level, .dedent :: rest => 0 < level ∧ NeverClamps (level - 1) rest

section
variable {exact : Prop} {code : Code} (nested : Nested exact code) (level : Nat)
include nested

theorem Nested.levelAfter : levelAfter level code = level := by
  induction nested generalizing level with
  | nil => rfl
  | line _ _ ih => exact ih level
  | braces _ _ inner others =>
    simp only [levelAfter_append, openBrace, closeBrace, Code.levelAfter, inner, others,
      Nat.add_sub_cancel]

theorem Nested.neverClamps_append {rest : Code} (later : NeverClamps level rest) :
    NeverClamps level (code ++ rest) := by
  induction nested generalizing level rest with
  | nil => exact later
  | line _ _ ih => exact ih level later
  | braces _ _ inner others =>
    simp only [openBrace, closeBrace, List.append_assoc, List.cons_append, List.nil_append]
    exact inner (level + 1) ⟨Nat.succ_pos level, others level later⟩

theorem Nested.neverClamps : NeverClamps level code := by
  have ended : NeverClamps level ([] : Code) := trivial
  simpa using nested.neverClamps_append level ended

end

def word (line : List Char) : List Char := line.dropWhile (· == ' ')

/-- Depth of a line: a closing brace stands outside the body it ends. -/
def depthAt (depth : Nat) (line : List Char) : Nat :=
  if word line = ['\x7d'] then depth - 1 else depth

/-- Depth after a line: an opening brace counts for the lines that follow. -/
def depthAfter (depth : Nat) (line : List Char) : Nat :=
  if word line = ['\x7b'] then depthAt depth line + 1 else depthAt depth line

/-- Closes only what is open, and begins with four blanks for each depth, unless it is empty. If
`exact`, it begins with no more than these. -/
structure Placed (exact : Prop) (depth : Nat) (line : List Char) : Prop where
  closes : word line = ['\x7d'] → 0 < depth
  indented : line ≠ [] → List.replicate (4 * depthAt depth line) ' ' <+: line
  no_more : exact → line ≠ [] → line = List.replicate (4 * depthAt depth line) ' ' ++ word line

/-- Each line is where its depth puts it, and the depth ends at zero. -/
def Balanced (exact : Prop) : Nat → List (List Char) → Prop
  | depth, [] => depth = 0
  | depth, line :: rest => Placed exact depth line ∧ Balanced exact (depthAfter depth line) rest

section
variable {exact : Prop} [Decidable exact]

instance (depth : Nat) (line : List Char) : Decidable (Placed exact depth line) :=
  decidable_of_iff ((word line = ['\x7d'] → 0 < depth) ∧
      (line ≠ [] → List.replicate (4 * depthAt depth line) ' ' <+: line) ∧
      (exact → line ≠ [] → line = List.replicate (4 * depthAt depth line) ' ' ++ word line))
    ⟨fun ⟨closes, indented, no_more⟩ => ⟨closes, indented, no_more⟩,
      fun h => ⟨h.closes, h.indented, h.no_more⟩⟩

instance decidableBalanced : (depth : Nat) → (lines : List (List Char)) →
    Decidable (Balanced exact depth lines)
  | depth, [] => inferInstanceAs (Decidable (depth = 0))
  | depth, line :: rest =>
    have := decidableBalanced (depthAfter depth line) rest
    inferInstanceAs (Decidable (Placed exact depth line ∧ _))

end

def linesOf (text : String) : List (List Char) := text.toList.splitOn '\n'

theorem toList_indentation (level : Nat) :
    (indentation level).toList = List.replicate (4 * level) ' ' := by
  have pushes (n : Nat) : ("".pushn ' ' n).toList = List.replicate n ' ' := by
    unfold String.pushn
    induction n with
    | zero => rfl
    | succ n ih => rw [Nat.repeat, String.toList_push, ih, List.replicate_succ']
  exact pushes _

theorem toList_lineAt (level : Nat) {text : String} (some : text ≠ "") :
    (lineAt level text).toList = List.replicate (4 * level) ' ' ++ text.toList := by
  rw [lineAt, if_neg some, String.toList_append, toList_indentation]

theorem word_replicate_append (n : Nat) (line : List Char) :
    word (List.replicate n ' ' ++ line) = word line :=
  List.dropWhile_append_of_pos fun c hc => by simp [List.eq_of_mem_replicate hc]

theorem word_sublist (line : List Char) : (word line).Sublist line :=
  List.dropWhile_sublist _

section
variable {exact : Prop} {text : String} (level : Nat)

theorem word_lineAt : word (lineAt level text).toList = word text.toList := by
  by_cases none : text = ""
  · simp [lineAt, none]
  · rw [toList_lineAt level none, word_replicate_append]

theorem word_of_flush (flush : Flush text) : word text.toList = text.toList := by
  unfold Flush at flush
  unfold word
  cases chars : text.toList with
  | nil => rfl
  | cons c rest =>
    rw [chars] at flush
    refine List.dropWhile_cons_of_neg ?_
    simpa using flush

theorem LineText.ne_brace (good : LineText exact text) :
    word text.toList ≠ ['\x7b'] ∧ word text.toList ≠ ['\x7d'] := by
  have none {c : Char} (is : word text.toList = [c]) : c ∈ text.toList :=
    (word_sublist _).subset (by simp [is])
  exact ⟨fun is => (good.inline _ (none is)).2.1 rfl, fun is => (good.inline _ (none is)).2.2 rfl⟩

theorem LineText.balanced (good : LineText exact text) {rest : List (List Char)}
    (later : Balanced exact level rest) :
    Balanced exact level ((lineAt level text).toList :: rest) := by
  obtain ⟨opens, closes⟩ := good.ne_brace
  rw [← word_lineAt level] at opens closes
  have stays : depthAt level (lineAt level text).toList = level := if_neg closes
  refine ⟨⟨fun is => absurd is closes, fun some => ?_, fun exactly some => ?_⟩, ?_⟩
  · rw [stays]
    by_cases none : text = ""
    · simp [lineAt, none] at some
    · exact toList_lineAt level none ▸ List.prefix_append _ _
  · rw [stays, word_lineAt, word_of_flush (good.flush exactly)]
    by_cases none : text = ""
    · simp [lineAt, none] at some
    · exact toList_lineAt level none
  · rwa [depthAfter, if_neg opens, stays]

theorem balanced_openBrace {rest : List (List Char)} (later : Balanced exact (level + 1) rest) :
    Balanced exact level ((lineAt level "\x7b").toList :: rest) := by
  have opens : word (lineAt level "\x7b").toList = ['\x7b'] := word_lineAt level
  have stays : depthAt level (lineAt level "\x7b").toList = level := by simp [depthAt, opens]
  have chars : (lineAt level "\x7b").toList = List.replicate (4 * level) ' ' ++ ['\x7b'] :=
    toList_lineAt level (by decide)
  refine ⟨⟨by simp [opens], fun _ => ?_, fun _ _ => ?_⟩, ?_⟩
  · rw [stays, chars]
    exact List.prefix_append _ _
  · rw [stays, opens, chars]
  · rwa [depthAfter, if_pos opens, stays]

theorem balanced_closeBrace {rest : List (List Char)} (later : Balanced exact level rest) :
    Balanced exact (level + 1) ((lineAt level "\x7d").toList :: rest) := by
  have closes : word (lineAt level "\x7d").toList = ['\x7d'] := word_lineAt level
  have leaves : depthAt (level + 1) (lineAt level "\x7d").toList = level := by
    simp [depthAt, closes]
  have chars : (lineAt level "\x7d").toList = List.replicate (4 * level) ' ' ++ ['\x7d'] :=
    toList_lineAt level (by decide)
  refine ⟨⟨fun _ => Nat.succ_pos level, fun _ => ?_, fun _ _ => ?_⟩, ?_⟩
  · rw [leaves, chars]
    exact List.prefix_append _ _
  · rw [leaves, closes, chars]
  · rwa [depthAfter, if_neg (by simp [closes]), leaves]

end

section
variable {exact : Prop} {code : Code} (nested : Nested exact code)
include nested

theorem Nested.balanced_append (level : Nat) {rest : List (List Char)}
    (later : Balanced exact level rest) :
    Balanced exact level ((Code.lines level code).map String.toList ++ rest) := by
  induction nested generalizing level rest with
  | nil => exact later
  | line good _ ih => exact good.balanced level (ih level later)
  | @braces body _ inside _ inner others =>
    have closed := balanced_closeBrace level (others level later)
    have bodied := balanced_openBrace level (inner (level + 1) closed)
    simpa [lines_append, openBrace, closeBrace, Code.lines, levelAfter_append, Code.levelAfter,
      inside.levelAfter] using bodied

theorem Nested.unbroken (level : Nat) : ∀ line ∈ Code.lines level code, '\n' ∉ line.toList := by
  have braced (level : Nat) {text : String} (none : '\n' ∉ text.toList) :
      '\n' ∉ (lineAt level text).toList := by
    by_cases empty : text = ""
    · simp [lineAt, empty]
    · rw [toList_lineAt level empty, List.mem_append]
      exact fun h => h.elim (fun h => by simpa using List.eq_of_mem_replicate h) none
  induction nested generalizing level with
  | nil => exact fun _ h => absurd h List.not_mem_nil
  | line good _ ih =>
    exact List.forall_mem_cons.2 ⟨braced level fun h => (good.inline _ h).1 rfl, ih level⟩
  | @braces body _ inside _ inner others =>
    simp only [lines_append, openBrace, closeBrace, Code.lines, levelAfter_append, Code.levelAfter,
      inside.levelAfter, List.forall_mem_append, List.forall_mem_singleton, Nat.add_sub_cancel]
    exact ⟨⟨⟨braced level (by decide), inner _⟩, braced level (by decide)⟩, others _⟩

/-- What is read back from the text of code are its lines, and an empty one after the last. -/
theorem Nested.linesOf_text (some : Code.lines 0 code ≠ []) :
    linesOf code.text = (Code.lines 0 code).map String.toList ++ [[]] := by
  have ended : code.text = String.intercalate "\n" (Code.lines 0 code ++ [""]) := by
    rw [String.intercalate_append_of_ne_nil some (by simp), String.intercalate_singleton,
      String.append_empty, Code.text]
  rw [linesOf, ended, String.toList_intercalate, List.map_append]
  refine List.splitOn_intercalate '\n' (fun line hline => ?_) (by simp)
  obtain hline | hline := List.mem_append.1 hline
  · obtain ⟨text, htext, rfl⟩ := List.mem_map.1 hline
    exact nested.unbroken 0 text htext
  · simp [List.mem_singleton.1 hline]

theorem Nested.balanced : Balanced exact 0 (linesOf code.text) := by
  have blanks {depth : Nat} {rest : List (List Char)} (later : Balanced exact depth rest) :
      Balanced exact depth ([] :: rest) :=
    ⟨⟨by simp [word], fun h => absurd rfl h, fun _ h => absurd rfl h⟩,
      by simpa [depthAfter, depthAt, word] using later⟩
  by_cases none : Code.lines 0 code = []
  · have newline : linesOf code.text = [[], []] := by
      rw [linesOf, Code.text, none]
      decide
    exact newline ▸ blanks (blanks rfl)
  · exact nested.linesOf_text none ▸ nested.balanced_append 0 (blanks rfl)

end

end Code

end ScriptGlue
