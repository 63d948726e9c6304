import ScriptGlue.Proofs.Files.Companions
import ScriptGlue.Proofs.Files.Drafts

/-! # Moves into place

A commit moves the staged files one by one. One that gives a result has put each in its place and has
changed no other file. One that faults has moved those before the one at which it faulted, and has
forgotten none of them.
-/
namespace ScriptGlue
open ScriptGlue.Action

namespace FileTree
variable {t u : FileTree} {loc a b : Location}

theorem lookup_moved_of_off (ha : ¬a <+: loc) (hb : ¬b <+: loc)
    (es : List (Location × FileNode)) :
    (es.map fun (l, node) => if l.take a.length = a then (b ++ l.drop a.length, node)
      else (l, node)).lookup loc = es.lookup loc := by
  induction es with
  | nil => rfl
  | cons e es ih =>
    obtain ⟨l, node⟩ := e
    rw [List.map_cons, List.lookup_cons]
    by_cases below : l.take a.length = a
    · have gone : loc ≠ b ++ l.drop a.length := fun same => hb (same ▸ List.prefix_append _ _)
      have off : loc ≠ l := fun same => ha (same ▸ List.prefix_iff_eq_take.2 below.symm)
      simp only [if_pos below, List.lookup_cons, beq_false_of_ne gone, beq_false_of_ne off, ih]
    · simp only [if_neg below, List.lookup_cons, ih]

theorem lookup_moveDirectory_of_off (ha : ¬a <+: loc) (hb : ¬b <+: loc) :
    (t.moveDirectory a b).lookup loc = t.lookup loc := by
  unfold lookup moveDirectory
  rw [lookup_moved_of_off ha hb]

theorem replace_frame {source target : String} (h : t.replace source target = .ok u) :
    ∃ a b, Path.location? source = some a ∧ Path.location? target = some b ∧
      ∀ loc, ¬a <+: loc → ¬b <+: loc → u.fileAt loc = t.fileAt loc := by
  unfold replace at h
  cases first : t.place source with
  | error fault =>
    rw [first] at h
    cases h
  | ok place =>
    cases second : t.place target with
    | error fault =>
      rw [first, second] at h
      cases h
    | ok place' =>
      rw [first, second] at h
      simp only [Bind.bind, Except.bind] at h
      cases place with
      | directory _ => cases h
      | entry a aDirectory =>
        cases place' with
        | directory _ => cases h
        | entry b bDirectory =>
          refine ⟨a, b, location_of_place first, location_of_place second, fun loc ha hb => ?_⟩
          have offA : loc ≠ a := fun same => ha (same ▸ List.prefix_rfl)
          have offB : loc ≠ b := fun same => hb (same ▸ List.prefix_rfl)
          have moved (v : FileTree) : (v.moveDirectory a b).fileAt loc = v.fileAt loc := by
            unfold fileAt
            rw [lookup_moveDirectory_of_off ha hb]
          simp only at h
          split at h
          · cases h
          · split at h
            · cases h
            · split at h
              · cases h
              · cases h
                rw [fileAt_put_of_ne offB, fileAt_erase_of_ne offA]
          · cases h
          · split at h
            · cases h
              rfl
            · split at h
              · cases h
              · cases h
                rw [moved, fileAt_erase_of_ne offB]
          · cases h
            exact moved t

end FileTree

namespace Workspace
variable {w v : Workspace} {path : String} {e : Fault}

/-- The location lies neither at nor below the places of some paths and of their staged texts. -/
def Clear (paths : List String) (loc : Location) : Prop :=
  ∀ path ∈ paths, ∀ a, Path.location? path = some a ∨ Path.location? (stagedPath path) = some a →
    ¬a <+: loc

/-- A move changes files only at and below its places, and leaves the list of staged paths. -/
theorem moveIntoPlace_frame {x : Unit} (h : moveIntoPlace path w = (.ok x, v)) :
    v.pending = w.pending ∧
      ∀ loc, Clear [path] loc → v.tree.fileAt loc = w.tree.fileAt loc := by
  obtain ⟨_, _, hget, h⟩ := bind_eq_ok.1 h
  obtain ⟨rfl, rfl⟩ := get_eq_ok.1 hget
  obtain ⟨_, _, hmove, h⟩ := bind_eq_ok.1 h
  obtain ⟨tree, moved, rfl⟩ := onTree_ok hmove
  obtain ⟨a, b, source, target, frame⟩ := FileTree.replace_frame moved
  have same : ∀ loc, Clear [path] loc → tree.fileAt loc = w.tree.fileAt loc := fun loc clear =>
    frame loc (clear path List.mem_cons_self a (.inr source))
      (clear path List.mem_cons_self b (.inl target))
  generalize w.tree.place (stagedPath path) = from_ at h
  generalize w.tree.place path = to_ at h
  obtain _ | _ | _ := from_ <;> obtain _ | _ | _ := to_ <;> cases h <;> exact ⟨rfl, same⟩

theorem moveIntoPlace_error (h : moveIntoPlace path w = (.error e, v)) : v = w := by
  obtain h | ⟨_, _, hget, h⟩ := bind_eq_error.1 h
  · cases h
  obtain ⟨rfl, rfl⟩ := get_eq_ok.1 hget
  obtain h | ⟨_, _, -, h⟩ := bind_eq_error.1 h
  · unfold onTree at h
    split at h <;> cases h
    rfl
  · generalize w.tree.place (stagedPath path) = from_ at h
    generalize w.tree.place path = to_ at h
    obtain _ | _ | _ := from_ <;> obtain _ | _ | _ := to_ <;> cases h

theorem forM_moveIntoPlace_frame {paths : List String} {x : Unit}
    (h : paths.forM moveIntoPlace w = (.ok x, v)) :
    v.pending = w.pending ∧
      ∀ loc, Clear paths loc → v.tree.fileAt loc = w.tree.fileAt loc := by
  induction paths generalizing w with
  | nil =>
    cases h
    exact ⟨rfl, fun _ _ => rfl⟩
  | cons path rest ih =>
    rw [forM_cons] at h
    obtain ⟨_, u, first, later⟩ := bind_eq_ok.1 h
    obtain ⟨pending, frame⟩ := moveIntoPlace_frame first
    obtain ⟨pending', frame'⟩ := ih later
    refine ⟨pending'.trans pending, fun loc clear => ?_⟩
    obtain ⟨here, others⟩ := List.forall_mem_cons.1 clear
    exact (frame' loc others).trans (frame loc (List.forall_mem_singleton.2 here))

/-- A commit that faults has moved the staged files before the one at which it faulted, and has
forgotten none. -/
theorem commit_eq_error (h : commit w = (.error e, v)) : ∃ moved path rest,
    w.pending = moved ++ path :: rest ∧ moved.forM moveIntoPlace w = (.ok (), v) ∧
      moveIntoPlace path v = (.error e, v) ∧ v.pending = w.pending := by
  obtain h | ⟨_, _, hget, h⟩ := bind_eq_error.1 h
  · cases h
  obtain ⟨rfl, rfl⟩ := get_eq_ok.1 hget
  obtain h | ⟨_, _, -, h⟩ := bind_eq_error.1 h
  · obtain ⟨moved, path, rest, u, pending, done, failed⟩ := forM_eq_error h
    obtain rfl := moveIntoPlace_error failed
    exact ⟨moved, path, rest, pending, done, failed, (forM_moveIntoPlace_frame done).1⟩
  · obtain h | ⟨_, _, -, h⟩ := bind_eq_error.1 h <;> cases h

end Workspace

namespace FileTree
variable {t u : FileTree} {a b loc : Location} {path : String} {content : Content}

/-- The first location has the staged file of a path, and it can be moved to the second one. -/
structure Movable (t : FileTree) (path : String) (a b : Location) (content : Content) : Prop where
  source : t.place (Workspace.stagedPath path) = .ok (.entry a false)
  target : t.place path = .ok (.entry b false)
  found : t.fileAt a = some content
  free : t.lookup b ≠ some .directory

theorem Movable.top (h : t.Movable path a b content) : isTop b = false := by
  cases top : isTop b with
  | false => rfl
  | true => exact absurd (by rw [lookup, if_pos top]) h.free

theorem Movable.replace (h : t.Movable path a b content) :
    t.replace (Workspace.stagedPath path) path = .ok ((t.erase a).put b (.file content)) := by
  simp only [FileTree.replace, h.source, h.target, fileAt_eq_some.1 h.found, Bind.bind, Except.bind,
    Bool.or_self, Bool.false_eq_true, ↓reduceIte, if_neg h.free]
  rfl

theorem Movable.of_same (h : t.Movable path a b content)
    (directories : ∀ loc, u.lookup loc = some .directory ↔ t.lookup loc = some .directory)
    (file : u.fileAt a = t.fileAt a) : u.Movable path a b content where
  source := place_of_directories (fun loc => (directories loc).2) h.source
  target := place_of_directories (fun loc => (directories loc).2) h.target
  found := file.trans h.found
  free there := h.free ((directories b).1 there)

theorem Movable.directories (h : t.Movable path a b content) (loc : Location) :
    ((t.erase a).put b (.file content)).lookup loc = some .directory ↔
      t.lookup loc = some .directory := by
  have file : t.lookup a ≠ some .directory := not_directory_of_file (by simp [h.found])
  refine ⟨fun there => ?_, fun there =>
    directory_put (not_directory_of_erase h.free) (directory_erase file there)⟩
  by_contra other
  exact not_directory_of_put (not_directory_of_erase other) there

end FileTree

namespace Workspace
variable {w v u : Workspace} {path : String} {paths : List String} {a b : Location}
  {content : Content}

def moving (w : Workspace) (a b : Location) (content : Content) : Workspace := { w with
  tree := (w.tree.erase a).put b (.file content)
  log := w.log.map fun file => file.moved a b }

theorem moveIntoPlace_of_movable (h : w.tree.Movable path a b content) :
    moveIntoPlace path w = (.ok (), w.moving a b content) := by
  simp only [moveIntoPlace, move, bind_apply, get_apply, onTree, h.replace, h.source, h.target]
  rfl

/-- Different paths lead to different files, and none to where the text of one is staged. -/
structure Unmixed (paths : List String) : Prop where
  files : ∀ p ∈ paths, ∀ q ∈ paths, ∀ loc, Path.location? p = some loc →
    Path.location? q = some loc → p = q
  drafts : ∀ p ∈ paths, ∀ q ∈ paths, p ≠ q → ∀ loc, Path.location? p = some loc →
    Path.location? (stagedPath q) ≠ some loc

theorem Unmixed.subset {more : List String} (h : Unmixed more) (inside : paths ⊆ more) :
    Unmixed paths where
  files p hp q hq := h.files p (inside hp) q (inside hq)
  drafts p hp q hq := h.drafts p (inside hp) q (inside hq)

theorem Unmixed.off_drafts (h : Unmixed paths) {p : String} (hp : p ∈ paths) {loc : Location}
    (located : Path.location? p = some loc) : loc ∉ draftPlaces paths := by
  rintro ⟨q, hq, staged⟩
  by_cases same : p = q
  · subst same
    exact Path.location_stagedPath_ne located staged
  · exact h.drafts p hp q hq same loc located staged

def DraftsApart (paths : List String) : Prop :=
  paths.Pairwise fun p q => ∀ loc, Path.location? (stagedPath p) = some loc →
    Path.location? (stagedPath q) ≠ some loc

theorem DraftsApart.eq_of_mem (h : DraftsApart paths) {p q : String} (hp : p ∈ paths)
    (hq : q ∈ paths) {loc : Location} (first : Path.location? (stagedPath p) = some loc)
    (second : Path.location? (stagedPath q) = some loc) : p = q := by
  have : Std.Symm fun p q => ∀ loc, Path.location? (stagedPath p) = some loc →
      Path.location? (stagedPath q) ≠ some loc :=
    ⟨fun _ _ apart loc located located' => apart loc located' located⟩
  by_contra differ
  exact h.forall hp hq differ loc first second

/-- The staged files of some paths were moved into place, and nothing else happened. -/
structure Moves (paths : List String) (w v : Workspace) : Prop where
  pending : v.pending = w.pending
  directories : ∀ loc, v.tree.lookup loc = some .directory ↔ w.tree.lookup loc = some .directory
  placed : ∀ p ∈ paths, ∃ a b content, w.tree.Movable p a b content ∧
    v.tree.fileAt a = none ∧ v.tree.fileAt b = some content
  others : ∀ loc ∉ placesOf paths, v.tree.fileAt loc = w.tree.fileAt loc

theorem Moves.nil (w : Workspace) : Moves [] w w :=
  ⟨rfl, fun _ => .rfl, fun _ h => absurd h List.not_mem_nil, fun _ _ => rfl⟩

theorem Moves.cons (nodup : (path :: paths).Nodup) (unmixed : Unmixed (path :: paths))
    (first : w.tree.Movable path a b content) (later : Moves paths (w.moving a b content) v) :
    Moves (path :: paths) w v ∧ ∀ q ∈ paths, Path.location? (stagedPath q) ≠ some a := by
  have source := FileTree.location_of_place first.source
  have target := FileTree.location_of_place first.target
  have apart : a ≠ b := fun same => unmixed.off_drafts List.mem_cons_self target
    ⟨path, List.mem_cons_self, same ▸ source⟩
  have gone : (w.moving a b content).tree.fileAt a = none := by
    show ((w.tree.erase a).put b _).fileAt a = none
    rw [FileTree.fileAt_put_of_ne apart, FileTree.fileAt, FileTree.lookup_erase_self
      (FileTree.not_top_of_file (FileTree.fileAt_eq_some.1 first.found))]
  have elsewhere (loc : Location) (offA : loc ≠ a) (offB : loc ≠ b) :
      (w.moving a b content).tree.fileAt loc = w.tree.fileAt loc :=
    (FileTree.fileAt_put_of_ne offB).trans (FileTree.fileAt_erase_of_ne offA)
  -- a file that was moved away cannot be moved again
  have drafts : ∀ q ∈ paths, Path.location? (stagedPath q) ≠ some a := fun q hq located => by
    obtain ⟨c, _, _, movable, -⟩ := later.placed q hq
    obtain rfl := Option.some_inj.1 (located.symm.trans (FileTree.location_of_place movable.source))
    cases gone.symm.trans movable.found
  have fixed (loc : Location) (here : loc = a ∨ loc = b) : loc ∉ placesOf paths := by
    rintro ⟨q, hq, located | located⟩
    · obtain rfl | rfl := here
      · exact unmixed.off_drafts (List.mem_cons_of_mem _ hq) located
          ⟨path, List.mem_cons_self, source⟩
      · obtain rfl := unmixed.files path List.mem_cons_self q (List.mem_cons_of_mem _ hq) loc target
          located
        exact (List.nodup_cons.1 nodup).1 hq
    · obtain rfl | rfl := here
      · exact drafts q hq located
      · exact unmixed.off_drafts List.mem_cons_self target ⟨q, List.mem_cons_of_mem _ hq, located⟩
  have same (loc : Location) : v.tree.lookup loc = some .directory ↔
      w.tree.lookup loc = some .directory :=
    (later.directories loc).trans (first.directories loc)
  refine ⟨⟨later.pending, same, fun p hp => ?_, fun loc outside => ?_⟩, drafts⟩
  · obtain rfl | hp := List.mem_cons.1 hp
    · exact ⟨a, b, content, first, (later.others a (fixed a (.inl rfl))).trans gone,
        (later.others b (fixed b (.inr rfl))).trans (FileTree.fileAt_put_self first.top)⟩
    · obtain ⟨c, d, moved, movable, empty, there⟩ := later.placed p hp
      have located := FileTree.location_of_place movable.source
      have offA : c ≠ a := fun eq => drafts p hp (eq ▸ located)
      have offB : c ≠ b := fun eq => unmixed.off_drafts List.mem_cons_self target
        ⟨p, List.mem_cons_of_mem _ hp, eq ▸ located⟩
      exact ⟨c, d, moved, movable.of_same (fun loc => (first.directories loc).symm)
        (elsewhere c offA offB).symm, empty, there⟩
  · have offA : loc ≠ a := fun eq => outside ⟨path, List.mem_cons_self, .inr (eq ▸ source)⟩
    have offB : loc ≠ b := fun eq => outside ⟨path, List.mem_cons_self, .inl (eq ▸ target)⟩
    have off : loc ∉ placesOf paths := by
      rintro ⟨q, hq, located⟩
      exact outside ⟨q, List.mem_cons_of_mem _ hq, located⟩
    exact (later.others loc off).trans (elsewhere loc offA offB)

/-- What moves that give a result have done, if no directory was to be moved. -/
theorem moves_of_ok {x : Unit} (nodup : paths.Nodup) (unmixed : Unmixed paths)
    (files : ∀ loc ∈ draftPlaces paths, w.tree.lookup loc ≠ some .directory)
    (h : paths.forM moveIntoPlace w = (.ok x, v)) : Moves paths w v ∧ DraftsApart paths := by
  induction paths generalizing w with
  | nil =>
    cases h
    exact ⟨.nil _, .nil⟩
  | cons path rest ih =>
    rw [forM_cons] at h
    obtain ⟨_, u, first, later⟩ := bind_eq_ok.1 h
    obtain ⟨a, b, content, source, target, found, free, rfl⟩ := moveIntoPlace_of_file first
      fun a located => files a ⟨path, List.mem_cons_self, located⟩
    have movable : w.tree.Movable path a b content := ⟨source, target, found, free⟩
    obtain ⟨moves, apart⟩ := ih (List.nodup_cons.1 nodup).2 (unmixed.subset (List.subset_cons_self _ _))
      (fun loc hloc there => files loc (draftPlaces_mono (List.subset_cons_self _ _) hloc)
        ((movable.directories loc).1 there)) later
    obtain ⟨moves, drafts⟩ := moves.cons nodup unmixed movable
    refine ⟨moves, List.pairwise_cons.2 ⟨fun q hq loc located located' => ?_, apart⟩⟩
    obtain rfl := Option.some_inj.1 (located.symm.trans (FileTree.location_of_place source))
    exact drafts q hq located'

theorem moves_of_movable (nodup : paths.Nodup) (unmixed : Unmixed paths)
    (apart : DraftsApart paths)
    (movable : ∀ p ∈ paths, ∃ a b content, w.tree.Movable p a b content) :
    ∃ v, paths.forM moveIntoPlace w = (.ok (), v) ∧ Moves paths w v := by
  induction paths generalizing w with
  | nil => exact ⟨w, rfl, .nil w⟩
  | cons path rest ih =>
    obtain ⟨a, b, content, first⟩ := movable path List.mem_cons_self
    obtain ⟨others, apart⟩ := List.pairwise_cons.1 apart
    have source := FileTree.location_of_place first.source
    have target := FileTree.location_of_place first.target
    obtain ⟨v, run, moves⟩ := ih (w := w.moving a b content) (List.nodup_cons.1 nodup).2
      (unmixed.subset (List.subset_cons_self _ _)) apart fun p hp => by
        obtain ⟨c, d, moved, later⟩ := movable p (List.mem_cons_of_mem _ hp)
        have located := FileTree.location_of_place later.source
        have offA : c ≠ a := fun eq => others p hp a source (eq ▸ located)
        have offB : c ≠ b := fun eq => unmixed.off_drafts List.mem_cons_self target
          ⟨p, List.mem_cons_of_mem _ hp, eq ▸ located⟩
        exact ⟨c, d, moved, later.of_same first.directories
          ((FileTree.fileAt_put_of_ne offB).trans (FileTree.fileAt_erase_of_ne offA))⟩
    refine ⟨v, ?_, (moves.cons nodup unmixed first).1⟩
    rw [forM_cons]
    exact (bind_of_ok (moveIntoPlace_of_movable first) _).trans run

theorem commit_of_movable (nodup : w.pending.Nodup) (unmixed : Unmixed w.pending)
    (apart : DraftsApart w.pending)
    (movable : ∀ p ∈ w.pending, ∃ a b content, w.tree.Movable p a b content) :
    ∃ m, commit w = (.ok w.pending.length, { m with pending := [] }) ∧ Moves w.pending w m := by
  obtain ⟨m, run, moves⟩ := moves_of_movable nodup unmixed apart movable
  refine ⟨m, ?_, moves⟩
  rw [commit, bind_of_ok (get_apply w), bind_of_ok run]
  rfl

end Workspace

end ScriptGlue
