import ScriptGlue.Proofs.Files.Commit

/-! # Saves in two rounds

Units may be saved at once or in two rounds, each with its commit. If the second round saves again
what the first may have saved otherwise, the files of the units are the same in the end: each is
settled as it would be from the beginning.
-/
namespace ScriptGlue

theorem Target.Apart.sublist {xs ys : List Target} (h : Target.Apart ys) (sub : xs.Sublist ys) :
    Target.Apart xs where
  own x hx := h.own x (sub.subset hx)
  others := h.others.sublist sub
  ways x hx y hy := h.ways x (sub.subset hx) y (sub.subset hy)

namespace Save
variable {locs : Set Location} {early preview late shared : List Save} {w m u : Workspace}

/-- A round, and a second one that saves all previews of the first anew. -/
structure Rounds (locs : Set Location) (early preview late shared : List Save) (w m u : Workspace) :
    Prop where
  pending : w.pending = []
  first : Round (early ++ preview) w m
  second : Round (late ++ shared) m u
  again : (preview.map toTarget).Sublist (shared.map toTarget)
  apart : Apart (early ++ late ++ shared)
  inside : ∀ x ∈ early ++ late ++ shared, x.places ⊆ locs
  off : LogFile.Off w.log locs

namespace Rounds

theorem mem_of_second {x : Save} (hx : x ∈ late ++ shared) : x ∈ early ++ late ++ shared := by
  rw [List.append_assoc]
  exact List.mem_append_right _ hx

variable (h : Rounds locs early preview late shared w m u)
include h

theorem again_mem {x : Save} (hx : x ∈ preview) : ∃ y ∈ shared, y.toTarget = x.toTarget :=
  List.mem_map.1 (h.again.subset (List.mem_map_of_mem hx))

theorem apart_first : Apart (early ++ preview) := by
  refine Target.Apart.sublist h.apart ?_
  rw [List.map_append, List.map_append, List.map_append]
  exact (List.sublist_append_left _ _).append h.again

theorem apart_second : Apart (late ++ shared) := by
  refine Target.Apart.sublist h.apart (List.Sublist.map _ ?_)
  rw [List.append_assoc]
  exact List.sublist_append_right _ _

/-- Whatever is said of targets of the second round holds for those of the previews. -/
theorem of_targets {P : Target → Prop} (all : ∀ x ∈ early ++ late ++ shared, P x.toTarget) :
    ∀ x ∈ early ++ preview, P x.toTarget := by
  intro x hx
  obtain hx | hx := List.mem_append.1 hx
  · exact all x (by simp [hx])
  · obtain ⟨y, hy, same⟩ := h.again_mem hx
    exact same ▸ all y (by simp [hy])

theorem inside_first : ∀ x ∈ early ++ preview, x.places ⊆ locs :=
  h.of_targets (P := fun x => x.places ⊆ locs) h.inside

theorem inside_second : ∀ x ∈ late ++ shared, x.places ⊆ locs := fun x hx =>
  h.inside x (mem_of_second hx)

theorem first_ok : (∀ x ∈ early ++ preview, Settled w.tree m.tree x) ∧
    (∀ loc ∈ locs, (∀ x ∈ early ++ preview, loc ∉ x.places) →
      m.tree.fileAt loc = w.tree.fileAt loc) ∧
    (∀ loc, (∀ x ∈ early ++ preview, loc ∉ x.places) →
      (m.tree.fileAt loc = none ↔ w.tree.fileAt loc = none)) ∧
    m.pending = [] ∧ m.log = w.log :=
  h.first.ok h.pending h.apart_first h.inside_first h.off

theorem second_ok : (∀ x ∈ late ++ shared, Settled m.tree u.tree x) ∧
    ∀ loc ∈ locs, (∀ x ∈ late ++ shared, loc ∉ x.places) → u.tree.fileAt loc = m.tree.fileAt loc := by
  obtain ⟨-, -, -, cleared, log⟩ := h.first_ok
  obtain ⟨settled, others, -⟩ := h.second.ok cleared h.apart_second h.inside_second (log ▸ h.off)
  exact ⟨settled, others⟩

/-- The way to a directory is as open after the first round as before it. -/
theorem open_iff {x : Save} (hx : x ∈ early ++ late ++ shared) :
    m.tree.Open x.directory ↔ w.tree.Open x.directory := by
  obtain ⟨-, -, vacant, -⟩ := h.first_ok
  have same : ∀ loc ∈ Path.way x.directory,
      (m.tree.fileAt loc = none ↔ w.tree.fileAt loc = none) := fun loc hloc => vacant loc <|
    h.of_targets (P := fun y => loc ∉ y.places) fun y hy => Apart.ways h.apart hx hy loc hloc
  exact ⟨fun way => way.of_files fun loc hloc => (same loc hloc).symm, fun way => way.of_files same⟩

/-- A place of a unit that the first round did not save in any form is as it was. -/
theorem kept_first {x : Save} (hx : x ∈ early ++ late ++ shared)
    (apart : ∀ y ∈ early, Disjoint y.places x.places)
    (fresh : ∀ y ∈ shared, (∃ z ∈ preview, y.toTarget = z.toTarget) → Disjoint y.places x.places) :
    ∀ loc ∈ x.places, m.tree.fileAt loc = w.tree.fileAt loc := by
  obtain ⟨-, kept, -⟩ := h.first_ok
  intro loc hloc
  refine kept loc (h.inside x hx hloc) fun y hy there => ?_
  obtain hy | hy := List.mem_append.1 hy
  · exact Set.disjoint_left.1 (apart y hy) there hloc
  · obtain ⟨z, hz, same⟩ := h.again_mem hy
    rw [← same] at there
    exact Set.disjoint_left.1 (fresh z hz ⟨y, hy, same⟩) there hloc

theorem settled (bare : ∀ x ∈ early ++ late ++ shared, x.Bare) :
    ∀ x ∈ early ++ late ++ shared, Settled w.tree u.tree x := by
  obtain ⟨settled, -⟩ := h.first_ok
  obtain ⟨settled', kept⟩ := h.second_ok
  obtain ⟨others, -, cross⟩ := List.pairwise_append.1 (Apart.others h.apart)
  obtain ⟨-, -, cross'⟩ := List.pairwise_append.1 others
  intro x hx
  by_cases first : x ∈ early
  · refine (settled x (List.mem_append_left _ first)).of_files fun loc hloc => ?_
    refine kept loc (h.inside x hx hloc) fun y hy there => ?_
    obtain hy | hy := List.mem_append.1 hy
    · exact Set.disjoint_left.1 (cross' x first y hy) hloc there
    · exact Set.disjoint_left.1 (cross x (List.mem_append_left _ first) y hy) hloc there
  have second : x ∈ late ++ shared := by
    simp only [List.mem_append, first, false_or] at hx ⊢
    exact hx
  refine (settled' x second).earlier (h.open_iff hx) fun blocked => ?_
  obtain hx' | hx' := List.mem_append.1 second
  · exact h.kept_first hx (fun y hy => cross' y hy x hx')
      fun y hy _ => (cross x (List.mem_append_right _ hx') y hy).symm
  · -- A preview at the same place found its way blocked too.
    by_cases seen : ∃ y ∈ preview, y.toTarget = x.toTarget
    · obtain ⟨y, hy, same⟩ := seen
      obtain ⟨-, files⟩ | ⟨opened, -⟩ := settled y (List.mem_append_right _ hy)
      · exact same ▸ files
      · exact absurd (same ▸ opened (same ▸ bare x hx)) blocked
    · refine h.kept_first hx (fun y hy => cross y (List.mem_append_left _ hy) x hx') ?_
      rintro y hy ⟨z, hz, same⟩
      refine Apart.disjoint h.apart (by simp [hy]) hx fun here => seen ⟨z, hz, ?_⟩
      rw [← same, here]

theorem others : ∀ loc ∈ locs, (∀ x ∈ early ++ late ++ shared, loc ∉ x.places) →
    u.tree.fileAt loc = w.tree.fileAt loc := by
  obtain ⟨-, kept, -⟩ := h.first_ok
  obtain ⟨-, kept'⟩ := h.second_ok
  intro loc hloc away
  rw [kept' loc hloc fun y hy => away y (mem_of_second hy)]
  exact kept loc hloc (h.of_targets (P := fun y => loc ∉ y.places) away)

end Rounds

end Save

end ScriptGlue
