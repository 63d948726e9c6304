import Mathlib.Data.List.Basic
import ScriptGlue.Receiver

/-! # The choice of a receiver

Four rules name parameters that an extension method might be called on. The candidate is the first
parameter of the first rule that names any, and a function has a receiver just if there is a
candidate and it is no result: the candidate is the receiver, and the other arguments are all the
arguments but it.
-/
namespace ScriptGlue
namespace Receiver

variable {f : Function} {p : Property} {before after : List Property} {world : Option Name}
  {r : Receiver} {i : Nat}

inductive Rule where
  | scriptMethod
  | defaultToSelf
  | worldHint
  | convention
  deriving DecidableEq, Repr

def rules : List Rule := [.scriptMethod, .defaultToSelf, .worldHint, .convention]

/-- The rule names the parameter: the marker every argument, a hint the parameters that it is the
name of, and convention the arguments that are called like a world context. -/
def Rule.names (f : Function) : Rule → Property → Bool
  | .scriptMethod, p => f.metadata.has "ScriptMethod" && !p.isReturn
  | .defaultToSelf, p => (f.metadata.get? "DefaultToSelf").any fun hint => p.name.same hint
  | .worldHint, p => (f.metadata.get? "WorldContext").any fun hint => p.name.same hint
  | .convention, p =>
    !p.isReturn && (p.name = .text "WorldContext" || p.name = .text "WorldContextObject")

/-- The parameter is the candidate of a function, with these parameters before it and after it: some
rule names it and none before it, and no earlier rule names any parameter. -/
structure Candidate (f : Function) (before : List Property) (p : Property)
    (after : List Property) : Prop where
  params : f.params = before ++ p :: after
  named : ∃ early rule late, rules = early ++ rule :: late ∧ rule.names f p ∧
    (∀ q ∈ before, rule.names f q = false) ∧
    ∀ other ∈ early, ∀ q ∈ f.params, other.names f q = false

/-- The parameter stands for the world: the hint of a world context is its name, or its name is one
of the two conventional ones. -/
def StandsForWorld (f : Function) (p : Property) : Prop :=
  (∃ hint, f.metadata.get? "WorldContext" = some hint ∧ p.name.same hint) ∨
    p.name = .text "WorldContext" ∨ p.name = .text "WorldContextObject"

/-- First parameter that the rule names, with its position. -/
def Rule.find? (f : Function) (rule : Rule) : Option (Property × Nat) :=
  f.params.zipIdx.find? fun (p, _) => rule.names f p

def candidate? (f : Function) : Option (Property × Nat) := rules.findSome? (Rule.find? f)

theorem find?_scriptMethod (f : Function) : Rule.find? f .scriptMethod =
    if f.metadata.has "ScriptMethod" then f.positioned.head? else none := by
  split
  · next marked => simp [Rule.find?, Rule.names, marked, Function.positioned]
  · next unmarked => simp [Rule.find?, Rule.names, unmarked]

theorem find?_defaultToSelf (f : Function) :
    Rule.find? f .defaultToSelf = (f.metadata.get? "DefaultToSelf").bind f.namedParam? := by
  cases hint : f.metadata.get? "DefaultToSelf" <;>
    simp [Rule.find?, Rule.names, hint, Function.namedParam?]

theorem find?_worldHint (f : Function) :
    Rule.find? f .worldHint = (f.metadata.get? "WorldContext").bind f.namedParam? := by
  cases hint : f.metadata.get? "WorldContext" <;>
    simp [Rule.find?, Rule.names, hint, Function.namedParam?]

theorem find?_convention (f : Function) : Rule.find? f .convention =
    f.positioned.find? fun (p, _) => isConventional p.name := by
  rw [Function.positioned, List.find?_filter]
  simp [Rule.find?, Rule.names, isConventional]

theorem candidate?_eq (f : Function) : candidate? f =
    (if f.metadata.has "ScriptMethod" then f.positioned.head? else none).or
      (((f.metadata.get? "DefaultToSelf").bind f.namedParam?).or
        (((f.metadata.get? "WorldContext").bind f.namedParam?).or
          (f.positioned.find? fun (p, _) => isConventional p.name))) := by
  simp only [candidate?, rules, List.findSome?_cons, List.findSome?_nil, find?_scriptMethod,
    find?_defaultToSelf, find?_worldHint, find?_convention]
  cases (if f.metadata.has "ScriptMethod" then f.positioned.head? else none) <;>
    cases (f.metadata.get? "DefaultToSelf").bind f.namedParam? <;>
    cases (f.metadata.get? "WorldContext").bind f.namedParam? <;>
    cases (f.positioned.find? fun (p, _) => isConventional p.name) <;> rfl

def onWorld (f : Function) (p : Property) : Bool :=
  ((f.metadata.get? "WorldContext").any fun hint => p.name.same hint) || isConventional p.name

theorem onWorld_iff (f : Function) (p : Property) : onWorld f p ↔ StandsForWorld f p := by
  unfold onWorld StandsForWorld isConventional
  cases f.metadata.get? "WorldContext" <;> simp

def ofCandidate (world : Option Name) (f : Function) : Property × Nat → Option Receiver
  | (p, position) => if p.isReturn then none
      else some { position, override := if onWorld f p then world else none }

theorem same_of_namedParam? {hint : Name} (h : f.namedParam? hint = some (p, i)) :
    p.name.same hint := List.find?_some (p := fun x : Property × Nat => x.1.name.same hint) h

theorem resolve_eq (world : Option Name) (f : Function) :
    resolve world f = (candidate? f).bind (ofCandidate world f) := by
  have conventional {p : Property} {i : Nat}
      (h : (f.positioned.find? fun (p, _) => isConventional p.name) = some (p, i)) :
      isConventional p.name :=
    List.find?_some (p := fun x : Property × Nat => isConventional x.1.name) h
  rw [candidate?_eq]
  rcases marked : (if f.metadata.has "ScriptMethod" then f.positioned.head? else none) with
    _ | ⟨p, i⟩
  · rcases self : (f.metadata.get? "DefaultToSelf").bind f.namedParam? with _ | ⟨p, i⟩
    · rcases hinted : f.metadata.get? "WorldContext" with _ | hint
      · rcases called : f.positioned.find? fun (p, _) => isConventional p.name with _ | ⟨p, i⟩
        · simp [resolve, Id.run, Pure.pure, marked, self, hinted, called]
        · simp [resolve, Id.run, Pure.pure, marked, self, hinted, called, ofCandidate, onWorld,
            conventional called]
      · rcases asked : f.namedParam? hint with _ | ⟨p, i⟩
        · rcases called : f.positioned.find? fun (p, _) => isConventional p.name with _ | ⟨p, i⟩
          · simp [resolve, Id.run, Pure.pure, marked, self, hinted, asked, called]
          · simp [resolve, Id.run, Pure.pure, marked, self, hinted, asked, called, ofCandidate,
              onWorld, conventional called]
        · simp [resolve, Id.run, Pure.pure, marked, self, hinted, asked, ofCandidate, onWorld,
            same_of_namedParam? asked]
    · rcases hinted : f.metadata.get? "WorldContext" with _ | hint
      · simp [resolve, Id.run, Pure.pure, marked, self, hinted, ofCandidate, onWorld]
      · cases same : p.name.same hint <;>
          simp [resolve, Id.run, Pure.pure, marked, self, hinted, ofCandidate, onWorld, same]
  · rcases hinted : f.metadata.get? "WorldContext" with _ | hint
    · simp [resolve, Id.run, Pure.pure, marked, hinted, ofCandidate, onWorld]
    · cases same : p.name.same hint <;>
        simp [resolve, Id.run, Pure.pure, marked, hinted, ofCandidate, onWorld, same]

theorem resolve_eq_some (h : resolve world f = some r) : ∃ p, candidate? f = some (p, r.position) ∧
    p.isReturn = false ∧ r.override = if onWorld f p then world else none := by
  rw [resolve_eq] at h
  obtain ⟨⟨p, i⟩, found, made⟩ := Option.bind_eq_some_iff.1 h
  simp only [ofCandidate] at made
  split at made
  · cases made
  · next argument =>
    cases made
    exact ⟨p, found, by simpa using argument, rfl⟩

/-- The first element that passes a test is at the position that those before it fill. -/
theorem find?_zipIdx_eq_some_iff {α : Type} {test : α → Bool} {xs : List α} {x : α} :
    xs.zipIdx.find? (fun (y, _) => test y) = some (x, i) ↔ ∃ before after,
      xs = before ++ x :: after ∧ before.length = i ∧ test x ∧ ∀ y ∈ before, test y = false := by
  rw [List.find?_eq_some_iff_append]
  constructor
  · rintro ⟨passes, early, late, split, none⟩
    have firsts := congrArg (List.map Prod.fst) split
    rw [List.zipIdx_map_fst, List.map_append, List.map_cons] at firsts
    refine ⟨_, _, firsts, ?_, passes, fun y hy => ?_⟩
    · have inside : early.length < xs.zipIdx.length := by simp [split]
      have here : xs.zipIdx[early.length] = (x, i) := by simp [split]
      rw [List.getElem_zipIdx] at here
      simpa using (Prod.mk.inj here).2
    · obtain ⟨z, hz, rfl⟩ := List.mem_map.1 hy
      simpa using none z hz
  · rintro ⟨before, after, rfl, rfl, passes, none⟩
    refine ⟨passes, before.zipIdx, after.zipIdx (before.length + 1), ?_, fun z hz => ?_⟩
    · simp [List.zipIdx_append, List.zipIdx_cons]
    · simpa using none z.1 (List.fst_mem_of_mem_zipIdx hz)

theorem find?_zipIdx_eq_none_iff {α : Type} {test : α → Bool} {xs : List α} :
    xs.zipIdx.find? (fun (y, _) => test y) = none ↔ ∀ y ∈ xs, test y = false := by
  have firsts : xs.find? test = (xs.zipIdx.find? fun (y, _) => test y).map Prod.fst := by
    conv_lhs => rw [← List.zipIdx_map_fst 0 xs, List.find?_map]
    rfl
  rw [← Option.map_eq_none_iff (f := Prod.fst), ← firsts, List.find?_eq_none]
  simp

theorem candidate?_eq_some_iff : candidate? f = some (p, i) ↔
    ∃ before after, Candidate f before p after ∧ before.length = i := by
  rw [candidate?, List.findSome?_eq_some_iff]
  constructor
  · rintro ⟨early, rule, late, order, found, none⟩
    obtain ⟨before, after, params, rfl, named, first⟩ := find?_zipIdx_eq_some_iff.1 found
    exact ⟨before, after, ⟨params, early, rule, late, order, named, first, fun other h =>
      find?_zipIdx_eq_none_iff.1 (none other h)⟩, rfl⟩
  · rintro ⟨before, after, ⟨params, early, rule, late, order, named, first, none⟩, rfl⟩
    exact ⟨early, rule, late, order,
      find?_zipIdx_eq_some_iff.2 ⟨before, after, params, rfl, named, first⟩,
      fun other h => find?_zipIdx_eq_none_iff.2 (none other h)⟩

theorem candidate_of_resolve (h : resolve world f = some r) : ∃ before p after,
    Candidate f before p after ∧ before.length = r.position ∧ p.isReturn = false ∧
      r.override = if onWorld f p then world else none := by
  obtain ⟨p, found, argument, override⟩ := resolve_eq_some h
  obtain ⟨before, after, candidate, position⟩ := candidate?_eq_some_iff.1 found
  exact ⟨before, p, after, candidate, position, argument, override⟩

theorem resolve_of_candidate (world : Option Name) (h : Candidate f before p after)
    (argument : p.isReturn = false) : resolve world f = some
      { position := before.length, override := if onWorld f p then world else none } := by
  rw [resolve_eq, candidate?_eq_some_iff.2 ⟨before, after, h, rfl⟩, Option.bind_some, ofCandidate,
    argument, if_neg Bool.false_ne_true]

/-- A receiver is one of the arguments, and the others are those before and behind it. -/
theorem split_of_resolve (h : resolve world f = some r) : ∃ before p after,
    f.params = before ++ p :: after ∧ before.length = r.position ∧ p.isReturn = false := by
  obtain ⟨before, p, after, candidate, position, argument, -⟩ := candidate_of_resolve h
  exact ⟨before, p, after, candidate.params, position, argument⟩

theorem exists_param_of_resolve (h : resolve world f = some r) :
    ∃ p, f.params[r.position]? = some p := by
  obtain ⟨before, p, after, split, position, -⟩ := split_of_resolve h
  exact ⟨p, by simp [split, ← position]⟩

end Receiver

namespace Function

theorem mem_params_of_argumentsBut {f : Function} {position : Nat} {p : Property}
    (hp : p ∈ f.argumentsBut position) : p ∈ f.params := by
  obtain ⟨⟨q, i⟩, hq, rfl⟩ := List.mem_map.1 hp
  exact List.fst_mem_of_mem_zipIdx (List.mem_of_mem_filter (List.mem_of_mem_filter hq))

theorem filter_zipIdx {params : List Property} {first : Nat} {α : Type} {pass : Property × Nat → α}
    {plain : Property → α} (same : ∀ p i, first ≤ i → i < first + params.length →
      pass (p, i) = plain p) :
    ((params.zipIdx first).filter fun (p, _) => !p.isReturn).map pass =
      (params.filter fun p => !p.isReturn).map plain := by
  induction params generalizing first with
  | nil => rfl
  | cons p rest ih =>
    have later : ((rest.zipIdx (first + 1)).filter fun (p, _) => !p.isReturn).map pass =
        (rest.filter fun p => !p.isReturn).map plain := ih fun q i low high =>
      same q i (by omega) (by simp only [List.length_cons]; omega)
    cases result : p.isReturn with
    | true => simpa [List.zipIdx_cons, result] using later
    | false => simpa [List.zipIdx_cons, result, same p first] using later

section
variable {f : Function} {before after : List Property} {p : Property}
  (split : f.params = before ++ p :: after) (argument : p.isReturn = false)
include split argument

theorem positioned_of_split : f.positioned = (before.zipIdx.filter fun (q, _) => !q.isReturn) ++
    (p, before.length) :: (after.zipIdx (before.length + 1)).filter fun (q, _) => !q.isReturn := by
  have here : (before ++ p :: after).zipIdx = before.zipIdx ++ (p, before.length) ::
      after.zipIdx (before.length + 1) := by
    simp [List.zipIdx_append, List.zipIdx_cons]
  rw [positioned, split, here, List.filter_append, List.filter_cons_of_pos (by simp [argument])]

theorem arguments_of_split : f.arguments = (before.filter fun q => !q.isReturn) ++
    p :: after.filter fun q => !q.isReturn := by
  rw [arguments, split, List.filter_append, List.filter_cons_of_pos (by simp [argument])]

/-- What is said of the arguments when that of one position is said by itself. -/
theorem map_positioned {α : Type} {pass : Property × Nat → α} {plain : Property → α}
    (same : ∀ q i, i ≠ before.length → pass (q, i) = plain q) :
    f.positioned.map pass = (before.filter fun q => !q.isReturn).map plain ++
      pass (p, before.length) :: (after.filter fun q => !q.isReturn).map plain := by
  rw [positioned_of_split split argument, List.map_append, List.map_cons,
    filter_zipIdx fun q i _ high => same q i (by omega),
    filter_zipIdx fun q i low _ => same q i (by omega)]

theorem argumentsBut_of_split : f.argumentsBut before.length =
    (before.filter fun q => !q.isReturn) ++ after.filter fun q => !q.isReturn := by
  have off {qs : List Property} {first : Nat}
      (away : ∀ i, first ≤ i → i < first + qs.length → i ≠ before.length) :
      ((qs.zipIdx first).filter fun (q, _) => !q.isReturn).filter (fun (_, i) => i != before.length) =
        (qs.zipIdx first).filter fun (q, _) => !q.isReturn := by
    refine List.filter_eq_self.2 fun (q, i) hq => ?_
    obtain ⟨low, high, -⟩ := List.mem_zipIdx (List.mem_filter.1 hq).1
    simpa using away i low high
  have plain {qs : List Property} {first : Nat} :
      ((qs.zipIdx first).filter fun (q, _) => !q.isReturn).map Prod.fst =
        qs.filter fun q => !q.isReturn :=
    (filter_zipIdx fun _ _ _ _ => rfl).trans (List.map_id _)
  rw [argumentsBut, positioned_of_split split argument, List.filter_append,
    List.filter_cons_of_neg (by simp), off fun i _ high => by omega, off fun i low _ => by omega,
    List.map_append, plain, plain]

end

end Function

namespace Receiver
variable {world : Option Name} {r : Receiver}

def argumentsOf (ps : List Property) : List Property := ps.filter fun p => !p.isReturn

/-- A function has a receiver just if it has a candidate that is no result. The receiver is the
candidate, the other arguments are the arguments before it and those after it, and a class is put in
place of its type just if it stands for the world, whatever rule named it. -/
theorem resolve_eq_some_iff (world : Option Name) (f : Function) (r : Receiver) :
    resolve world f = some r ↔ ∃ before p after, Candidate f before p after ∧
      p.isReturn = false ∧ r.position = before.length ∧
      f.arguments = argumentsOf before ++ p :: argumentsOf after ∧
      f.argumentsBut r.position = argumentsOf before ++ argumentsOf after ∧
      (StandsForWorld f p → r.override = world) ∧ (¬StandsForWorld f p → r.override = none) := by
  constructor
  · intro h
    obtain ⟨before, p, after, candidate, position, argument, override⟩ := candidate_of_resolve h
    refine ⟨before, p, after, candidate, argument, position.symm,
      Function.arguments_of_split candidate.params argument,
      position ▸ Function.argumentsBut_of_split candidate.params argument, fun world => ?_,
      fun other => ?_⟩
    · rw [override, if_pos ((onWorld_iff f p).2 world)]
    · rw [override, if_neg fun world => other ((onWorld_iff f p).1 world)]
  · rintro ⟨before, p, after, candidate, argument, position, -, -, asWorld, asItself⟩
    rw [resolve_of_candidate world candidate argument]
    obtain ⟨at_, override⟩ := r
    subst position
    congr 2
    split
    · next world => exact (asWorld ((onWorld_iff f p).1 world)).symm
    · next other => exact (asItself fun world => other ((onWorld_iff f p).2 world)).symm

/-- A hint that names the result leaves a function without a receiver, whatever the rules after it
name. -/
example : resolve (some worldClass) {
    name := .text "F", owner := .text "L"
    params := [
      { name := .text "WorldContext", kind := .object, owner := .text "L" },
      { name := .text "Target", kind := .object, owner := .text "L",
        flags := [.text (Flag.label .returned)] }]
    metadata := [(.text "DefaultToSelf", .text "Target")] } = none := by decide +kernel

end Receiver

end ScriptGlue
