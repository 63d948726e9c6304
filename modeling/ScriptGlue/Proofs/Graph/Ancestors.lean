import Mathlib.Logic.Relation
import ScriptGlue.Proofs.Graph.Relocation

/-! # Ancestors

The walk along the supers of a class is bounded by the number of types. Without the bound it would
end all the same, in any store: where the chain ends, or where it comes back to a class that was
passed, which need not be the class that the walk began from. What it passes are the classes that one
or more supers lead to, each once and each right after the class whose super it is.
-/
namespace ScriptGlue
open Relation

variable {store : TypeStore} {seen ids others : List TypeId} {ref : Option TypeId} {id d : TypeId}

/-- The super of a class is another one, or the class itself. -/
def IsSuper (store : TypeStore) (id d : TypeId) : Prop := (store.type id).super = some d

/-- The classes that a walk passes from a reference on, with those known that it has passed. It is
ended by nothing but the end of the chain and a class that is known. -/
inductive Climbs (store : TypeStore) : List TypeId → Option TypeId → List TypeId → Prop
  | ended {seen : List TypeId} : Climbs store seen none []
  | back {seen : List TypeId} {id : TypeId} (known : id ∈ seen) : Climbs store seen (some id) []
  | onward {seen ids : List TypeId} {id : TypeId} (new : id ∉ seen)
      (rest : Climbs store (id :: seen) (store.type id).super ids) :
      Climbs store seen (some id) (id :: ids)

namespace Climbs

theorem unique (h : Climbs store seen ref ids) (g : Climbs store seen ref others) :
    ids = others := by
  induction h generalizing others with
  | ended =>
    cases g
    rfl
  | back known =>
    cases g with
    | back => rfl
    | onward new => exact absurd known new
  | onward new _ ih =>
    cases g with
    | back known => exact absurd known new
    | onward _ rest => rw [ih rest]

theorem nodup (h : Climbs store seen ref ids) : ids.Nodup ∧ ∀ d ∈ ids, d ∉ seen := by
  induction h with
  | ended => exact ⟨.nil, by simp⟩
  | back => exact ⟨.nil, by simp⟩
  | onward new _ ih =>
    obtain ⟨distinct, apart⟩ := ih
    refine ⟨List.nodup_cons.2 ⟨fun again => apart _ again List.mem_cons_self, distinct⟩, ?_⟩
    exact List.forall_mem_cons.2 ⟨new, fun d hd known => apart d hd (List.mem_cons_of_mem _ known)⟩

theorem isChain (h : Climbs store seen ref ids) (begins : (store.type id).super = ref) :
    (id :: ids).IsChain (IsSuper store) := by
  induction h generalizing id with
  | ended => exact .singleton id
  | back => exact .singleton id
  | onward _ _ ih => exact .cons_cons begins (ih rfl)

/-- It leaves no class out: what it begins with and the super of each class that it passes are
passed, or were known. -/
theorem closed (h : Climbs store seen ref ids) :
    (∀ d ∈ ref, d ∈ seen ∨ d ∈ ids) ∧
      ∀ id ∈ ids, ∀ d, IsSuper store id d → d ∈ seen ∨ d ∈ ids := by
  induction h with
  | ended => simp
  | back known => simpa using known
  | @onward seen ids id _ _ ih =>
    obtain ⟨next, later⟩ := ih
    have shift {d : TypeId} (hd : d ∈ id :: seen ∨ d ∈ ids) : d ∈ seen ∨ d ∈ id :: ids := by
      rw [List.mem_cons] at hd ⊢
      tauto
    refine ⟨by simp, List.forall_mem_cons.2 ⟨fun d super => shift (next d super), ?_⟩⟩
    exact fun x hx d super => shift (later x hx d super)

end Climbs

/-- The bound is never felt: a class outside the store has no super, and inside it there are not
enough classes to reach the bound. -/
theorem climbs_superChain {fuel : Nat} (distinct : seen.Nodup) (inside : ∀ d ∈ seen, d < store.size)
    (enough : store.size < fuel + seen.length) :
    Climbs store seen ref (superChain store fuel seen ref) := by
  induction fuel generalizing seen ref with
  | zero =>
    have := length_le_of_nodup distinct inside
    omega
  | succ fuel ih =>
    cases ref with
    | none => exact .ended
    | some id =>
      rw [superChain]
      split
      · next known => exact .back (List.contains_iff_mem.1 known)
      · next new =>
        have new : id ∉ seen := by simpa using new
        refine .onward new ?_
        by_cases there : id < store.size
        · exact ih (List.nodup_cons.2 ⟨new, distinct⟩) (List.forall_mem_cons.2 ⟨there, inside⟩)
            (by simp only [List.length_cons]; omega)
        · have top : (store.type id).super = none := by
            rw [TypeStore.type_of_size_le (Nat.le_of_not_lt there)]
            rfl
          rw [top]
          cases fuel <;> exact .ended

theorem climbs_ancestors (store : TypeStore) (id : TypeId) :
    Climbs store [] (store.type id).super (ancestors store id) :=
  climbs_superChain .nil (by simp) (by simp)

theorem mem_ancestors_iff : d ∈ ancestors store id ↔ TransGen (IsSuper store) id d := by
  have walk := climbs_ancestors store id
  constructor
  · intro hd
    have chain := (walk.isChain rfl).imp fun _ _ => TransGen.single (r := IsSuper store)
    exact (List.pairwise_cons.1 (List.isChain_iff_pairwise.1 chain)).1 d hd
  · intro reached
    obtain ⟨first, later⟩ := walk.closed
    induction reached with
    | single super => exact (first _ super).resolve_left List.not_mem_nil
    | tail _ super ih => exact (later _ ih _ super).resolve_left List.not_mem_nil

/-- In any store, and so in any graph that was read or merged, whatever loops its supers run into:
the walk along the supers of a class ends, and so it does without its bound; it passes each class at
most once, the nearest first, each right after the one whose super it is; and it passes the classes
that one or more supers lead to, and no other. So a class counts as a child of a name just if it has
that name or supers lead to a class of that name. -/
theorem ancestors_walk (store : TypeStore) (id : TypeId) :
    (∀ ids, Climbs store [] (store.type id).super ids ↔ ids = ancestors store id) ∧
      (ancestors store id).Nodup ∧
      (id :: ancestors store id).IsChain (IsSuper store) ∧
      (∀ d, d ∈ ancestors store id ↔ TransGen (IsSuper store) id d) ∧
      ∀ name, isChildOf store id name ↔ (store.type id).name.same name ∨
        ∃ d, TransGen (IsSuper store) id d ∧ (store.type d).name.same name := by
  have walk := climbs_ancestors store id
  refine ⟨fun ids => ⟨fun climbs => climbs.unique walk, ?_⟩, walk.nodup.1, walk.isChain rfl,
    fun _ => mem_ancestors_iff, fun name => ?_⟩
  · rintro rfl
    exact walk
  · simp only [isChildOf, Bool.or_eq_true, List.any_eq_true, mem_ancestors_iff]

/-- A class under two classes that are each other's super: the walk goes once around, and from inside
the ring it comes back to where it began. -/
example :
    let under (d : TypeId) : TypeNode :=
      { name := .text "C", home := { name := .text "M" }, body := .plainClass { super := some d } }
    let ring : TypeStore := #[under 1, under 2, under 1]
    ancestors ring 0 = [1, 2] ∧ ancestors ring 1 = [2, 1] := by decide

end ScriptGlue
