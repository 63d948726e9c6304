import Mathlib.Data.List.TakeWhile
import ScriptGlue.Proofs.Files.Bytes

/-! # Splitting paths

A path is cut at its last slash into what is above it and a name. Its components are those of what
is above it, and the name.
-/
namespace ScriptGlue.Path

def pieces (a : List Char) : List (List Char) := (splitSlashes a).filter fun p => !p.isEmpty

theorem parts_eq (path : String) : parts path = (pieces path.toList).map String.ofList := rfl

theorem splitSlashes_cons (c : Char) (a : List Char) :
    splitSlashes (c :: a) = if c = '/' then [] :: splitSlashes a
      else match splitSlashes a with
        | [] => [[c]]
        | part :: parts => (c :: part) :: parts := rfl

theorem splitSlashes_ne_nil (a : List Char) : splitSlashes a ≠ [] := by
  induction a with
  | nil => simp [splitSlashes]
  | cons c a ih =>
    unfold splitSlashes
    split
    · simp
    · split <;> simp

theorem splitSlashes_append (a b : List Char) :
    splitSlashes (a ++ '/' :: b) = splitSlashes a ++ splitSlashes b := by
  induction a with
  | nil => simp [splitSlashes]
  | cons c a ih =>
    rw [List.cons_append, splitSlashes_cons, splitSlashes_cons]
    by_cases slash : c = '/'
    · rw [if_pos slash, if_pos slash, ih]
      rfl
    · rw [if_neg slash, if_neg slash, ih]
      cases split : splitSlashes a with
      | nil => exact absurd split (splitSlashes_ne_nil a)
      | cons part parts => rfl

theorem pieces_append (a b : List Char) : pieces (a ++ '/' :: b) = pieces a ++ pieces b := by
  rw [pieces, splitSlashes_append, List.filter_append]
  rfl

theorem splitSlashes_of_no_slash {a : List Char} (h : '/' ∉ a) : splitSlashes a = [a] := by
  induction a with
  | nil => rfl
  | cons c a ih =>
    rw [List.mem_cons, not_or] at h
    unfold splitSlashes
    rw [if_neg (Ne.symm h.1), ih h.2]

theorem pieces_of_no_slash {a : List Char} (h : '/' ∉ a) :
    pieces a = if a.isEmpty then [] else [a] := by
  rw [pieces, splitSlashes_of_no_slash h]
  cases a <;> rfl

theorem pieces_of_slashes {a : List Char} (h : ∀ c ∈ a, c = '/') : pieces a = [] := by
  induction a with
  | nil => rfl
  | cons c a ih =>
    rw [h c List.mem_cons_self]
    exact (pieces_append [] a).trans (ih fun d hd => h d (List.mem_cons_of_mem _ hd))

/-- What a path is split into at its last slash. -/
inductive Cut : List Char → List Char → List Char → Prop
  | name {n : List Char} (bare : '/' ∉ n) : Cut n [] n
  | top {h n : List Char} (slashes : ∀ c ∈ h, c = '/') (some : h ≠ []) (bare : '/' ∉ n) :
      Cut (h ++ n) h n
  | below {h slashes n : List Char} (ends : ∃ a c, h = a ++ [c] ∧ c ≠ '/')
      (slash : ∀ c ∈ slashes, c = '/') (bare : '/' ∉ n) : Cut (h ++ '/' :: slashes ++ n) h n

theorem cut_splitLast (path : List Char) : Cut path (splitLast path).1 (splitLast path).2 := by
  have parts := List.takeWhile_append_dropWhile (p := (· ≠ '/')) (l := path.reverse)
  have whole : path = (path.reverse.dropWhile (· ≠ '/')).reverse ++
      (path.reverse.takeWhile (· ≠ '/')).reverse := by
    rw [← List.reverse_append, parts, List.reverse_reverse]
  have bare : '/' ∉ (path.reverse.takeWhile (· ≠ '/')).reverse := by
    intro h
    have := List.mem_takeWhile_imp (List.mem_reverse.1 h)
    simp at this
  generalize hn : (path.reverse.takeWhile (· ≠ '/')).reverse = n at whole bare
  generalize hhead : path.reverse.dropWhile (· ≠ '/') = head at whole
  have inner := List.takeWhile_append_dropWhile (p := (· = '/')) (l := head)
  have split : splitLast path =
      ((if (head.dropWhile (· = '/')).isEmpty then head else head.dropWhile (· = '/')).reverse, n) := by
    rw [← hn, ← hhead]
    rfl
  have slashes : ∀ c ∈ head.takeWhile (· = '/'), c = '/' := fun c hc => by
    simpa using List.mem_takeWhile_imp hc
  rw [split, whole]
  cases rest : head.dropWhile (· = '/') with
  | nil =>
    rw [rest, List.append_nil] at inner
    rw [inner] at slashes
    cases head with
    | nil => exact .name bare
    | cons c head =>
      exact .top (fun d hd => slashes d (List.mem_reverse.1 hd)) (by simp) bare
  | cons c rest' =>
    have ends : c ≠ '/' := by
      have := List.head_dropWhile_not (p := (· = '/')) (l := head) (by simp [rest])
      simpa [rest] using this
    cases first : head.takeWhile (· = '/') with
    | nil =>
      rw [first, rest, List.nil_append] at inner
      have starts : ∀ d ∈ head.head?, d = '/' := by
        intro d hd
        rw [← hhead] at hd
        have := List.head?_dropWhile_not (p := (· ≠ '/')) (l := path.reverse)
        rw [Option.mem_def] at hd
        rw [hd] at this
        simpa using this
      rw [← inner] at starts
      exact absurd (starts c rfl) ends
    | cons d more =>
      rw [first, rest] at inner
      rw [first] at slashes
      have : head.reverse = (c :: rest').reverse ++ '/' :: more.reverse := by
        rw [← inner]
        have all : ∀ c ∈ more, c = '/' := fun e he => slashes e (List.mem_cons_of_mem _ he)
        rw [slashes d List.mem_cons_self]
        have : more = List.replicate more.length '/' := List.eq_replicate_iff.2 ⟨rfl, all⟩
        rw [this]
        simp [List.replicate_succ', ← List.replicate_succ]
      rw [this]
      refine .below ⟨rest'.reverse, c, by simp, ends⟩ (fun e he => ?_) bare
      exact slashes e (List.mem_cons_of_mem _ (List.mem_reverse.1 he))

theorem pieces_slashes_append {slashes : List Char} (h : ∀ c ∈ slashes, c = '/') (a : List Char) :
    pieces (slashes ++ a) = pieces a := by
  induction slashes with
  | nil => rfl
  | cons c slashes ih =>
    rw [h c List.mem_cons_self, ← ih fun d hd => h d (List.mem_cons_of_mem _ hd)]
    exact pieces_append [] (slashes ++ a)

/-- A path that goes on after another one, where no mark stands before what it marks. -/
def GoesOn (a path : List Char) : Prop :=
  ∃ rest, path = a ++ rest ∧ (a.getLast? = some Text.mark → ∀ d ∈ rest.head?, Text.Free d)

namespace Cut
variable {path h n : List Char}

theorem pieces_eq (cut : Cut path h n) : pieces path = pieces h ++ pieces n := by
  cases cut with
  | name bare => rfl
  | top slashes some bare =>
    rw [pieces_slashes_append slashes, pieces_of_slashes slashes, List.nil_append]
  | below ends slash bare =>
    rw [List.append_assoc, List.cons_append, pieces_append, pieces_slashes_append slash]

theorem goesOn (cut : Cut path h n) : GoesOn h path := by
  cases cut with
  | name bare => exact ⟨path, rfl, fun last => by cases last⟩
  | top slashes some bare =>
    refine ⟨n, rfl, fun last => ?_⟩
    have : Text.mark = '/' := slashes _ (List.mem_of_getLast? last)
    exact absurd this (by decide)
  | below ends slash bare =>
    refine ⟨_, List.append_assoc .., fun _ d hd => ?_⟩
    cases hd
    exact Text.free_slash

theorem bare (cut : Cut path h n) : '/' ∉ n := by cases cut <;> assumption

theorem of_nil (cut : Cut path [] n) : path = n := by
  generalize hnil : ([] : List Char) = h at cut
  cases cut with
  | name bare => rfl
  | top slashes some bare => exact absurd hnil.symm some
  | below ends slash bare =>
    obtain ⟨a, c, rfl, -⟩ := ends
    simp at hnil

/-- What stands before the last slash ends in no slash unless it is slashes only. -/
theorem ends (cut : Cut path h n) : (∀ c ∈ h, c = '/') ∨ ∃ a c, h = a ++ [c] ∧ c ≠ '/' := by
  cases cut with
  | name bare => exact .inl fun c hc => absurd hc List.not_mem_nil
  | top slashes some bare => exact .inl slashes
  | below ends slash bare => exact .inr ends

theorem of_no_name (cut : Cut path h []) (ends : ∃ a c, path = a ++ [c] ∧ c ≠ '/') : False := by
  obtain ⟨a, c, rfl, other⟩ := ends
  generalize hpath : a ++ [c] = path at cut
  generalize hnil : ([] : List Char) = n at cut
  cases cut with
  | name bare => simp [← hnil] at hpath
  | top slashes some bare =>
    subst hnil
    rw [List.append_nil] at hpath
    exact other (slashes c (hpath ▸ by simp))
  | below _ slash bare =>
    subst hnil
    rw [List.append_nil] at hpath
    have last := congrArg List.getLast? hpath
    rw [List.getLast?_concat, List.getLast?_append] at last
    refine other ?_
    rename_i slashes _
    cases slashes with
    | nil => simpa using last
    | cons d rest =>
      refine slash c ?_
      have : (d :: rest).getLast? = some c := by
        rw [List.getLast?_cons_cons] at last
        cases hl : (d :: rest).getLast? with
        | none => simp at hl
        | some e =>
          rw [hl] at last
          simpa using last.symm
      exact List.mem_of_getLast? this

end Cut

theorem GoesOn.trans {a b c : List Char} (h : GoesOn a b) (g : GoesOn b c) (more : a ≠ b) :
    GoesOn a c := by
  obtain ⟨rest, rfl, free⟩ := h
  obtain ⟨rest', rfl, -⟩ := g
  refine ⟨rest ++ rest', List.append_assoc .., fun last d hd => free last d ?_⟩
  cases rest with
  | nil => exact absurd (List.append_nil a).symm more
  | cons e rest => exact hd

theorem above?_eq_some {path above name : String} (h : above? path = some (above, name)) :
    above ≠ "" ∧ parts path = parts above ++ [name] ∧ GoesOn above.toList path.toList := by
  have outer := cut_splitLast path.toList
  have inner := cut_splitLast (splitLast path.toList).1
  unfold above? at h
  simp only at h
  split at h
  · next unnamed =>
    split at h
    · cases h
    · next some =>
      simp only [Option.some.injEq, Prod.mk.injEq] at h
      obtain ⟨rfl, rfl⟩ := h
      simp only [Bool.or_eq_true, List.isEmpty_iff, not_or] at some
      rw [List.isEmpty_iff] at unnamed
      rw [unnamed] at outer
      refine ⟨fun empty => some.1 (by simpa using congrArg String.toList empty), ?_, ?_⟩
      · rw [parts_eq, parts_eq, outer.pieces_eq, inner.pieces_eq, pieces_of_no_slash inner.bare,
          String.toList_ofList]
        simp [some.2, pieces, splitSlashes]
      · rw [String.toList_ofList]
        refine inner.goesOn.trans outer.goesOn fun same => ?_
        have lengths := length_splitLast (splitLast path.toList).1
        have := List.length_pos_iff.2 some.2
        have := congrArg List.length same
        omega
  · next named =>
    split at h
    · cases h
    · next some =>
      simp only [Option.some.injEq, Prod.mk.injEq] at h
      obtain ⟨rfl, rfl⟩ := h
      simp only [Bool.or_eq_true, List.isEmpty_iff, not_or] at some
      refine ⟨fun empty => some.1 (by simpa using congrArg String.toList empty), ?_, ?_⟩
      · rw [parts_eq, parts_eq, outer.pieces_eq, pieces_of_no_slash outer.bare,
          String.toList_ofList]
        simp [some.2]
      · rw [String.toList_ofList]
        exact outer.goesOn

theorem length_parts_of_above?_eq_none {path : String} (h : above? path = none) :
    (parts path).length ≤ 1 := by
  have outer := cut_splitLast path.toList
  have inner := cut_splitLast (splitLast path.toList).1
  have single {n : List Char} (bare : '/' ∉ n) : (pieces n).length ≤ 1 := by
    rw [pieces_of_no_slash bare]
    split <;> simp
  rw [parts_eq, List.length_map]
  unfold above? at h
  simp only at h
  split at h
  · next unnamed =>
    rw [List.isEmpty_iff] at unnamed
    rw [unnamed] at outer
    rw [outer.pieces_eq, show pieces [] = [] from rfl, List.append_nil]
    split at h
    · next none =>
      simp only [Bool.or_eq_true, List.isEmpty_iff] at none
      obtain empty | empty := none
      · rw [empty] at inner
        rw [inner.of_nil]
        exact single inner.bare
      · rw [empty] at inner
        obtain slashes | ends := outer.ends
        · rw [pieces_of_slashes slashes]
          exact Nat.zero_le 1
        · exact absurd ends inner.of_no_name
    · cases h
  · next named =>
    split at h
    · next none =>
      simp only [Bool.or_eq_true, List.isEmpty_iff] at none
      rw [List.isEmpty_iff] at named
      rw [none.resolve_right named] at outer
      rw [outer.of_nil]
      exact single outer.bare
    · cases h

end ScriptGlue.Path
