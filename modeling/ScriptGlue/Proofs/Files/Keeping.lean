import ScriptGlue.Proofs.Files.Commit
import ScriptGlue.Proofs.Files.Spelling

/-! # Units that keep their files

If saves do not share their places, each leaves its unit at its place, or a record that its
directory could not be made. This needs nothing of the directories: where one lies in the way of a
unit, a save or the commit faults.
-/
namespace ScriptGlue
open ScriptGlue.Action

def Path.folder (directory : String) : Location := (names directory).foldl step (origin directory)

theorem Path.location_in_folder {directory filename : String} {loc : Location}
    (bare : '/' ∉ filename.toList) (some : filename ≠ "")
    (located : location? (join directory filename) = .some loc) :
    loc = folder directory ++ [listed filename] := by
  by_cases nonempty : directory = ""
  · subst nonempty
    have relative : isAbsolute filename = false := by
      rw [Bool.eq_false_iff, ne_eq, isAbsolute_iff]
      exact fun first => bare (List.mem_of_head? first)
    have single : names filename = [listed filename] := by
      rw [names, parts_eq, pieces_of_no_slash bare, if_neg (by simpa using some)]
      simp
    have joined : join "" filename = filename := by
      rw [join, if_neg (Bool.eq_false_iff.1 relative), if_pos (.inl rfl)]
      exact String.empty_append
    have start : origin filename = [] := by rw [origin, relative]; rfl
    rw [joined, location?, destination, single, start] at located
    unfold landing at located
    split at located
    · next found =>
      split at found
      · cases found
      · cases found
        cases located
        rfl
    · cases located
  · exact FileTree.location_join bare some nonempty located

namespace Target

/-- The unit of a type, or of a module, that is called so. -/
structure IsFile (x : Target) (ofType : Bool) (word extension : String) : Prop where
  filename : x.filename = unitName ofType false word extension
  word : IsWord word
  extension : '/' ∉ extension.toList

variable {x y : Target} {ofType ofType' : Bool} {word word' extension : String}

theorem IsFile.bare (h : x.IsFile ofType word extension) (staged : Bool) :
    '/' ∉ (unitName ofType staged word extension).toList ∧
      unitName ofType staged word extension ≠ "" := by
  constructor
  · have middle : ∀ ofType : Bool, '/' ∉ (if ofType then ".generated" else "Module").toList := by
      decide
    have tail : ∀ staged : Bool, '/' ∉ (if staged then ".tmp" else "").toList := by decide
    simp only [unitName, String.toList_append, List.mem_append, not_or]
    exact ⟨h.word.slash, middle ofType, h.extension, tail staged⟩
  · intro empty
    refine h.word.nonempty (String.toList_injective ?_)
    have chars := congrArg String.toList empty
    rw [unitName, String.toList_append] at chars
    exact (List.append_eq_nil_iff.1 chars).1

namespace IsFile
variable (h : x.IsFile ofType word extension) {loc : Location}
include h

theorem of_path (located : Path.location? x.path = some loc) :
    loc = Path.folder x.directory ++ [Path.listed (unitName ofType false word extension)] := by
  obtain ⟨bare, some⟩ := h.bare false
  rw [path, h.filename] at located
  exact Path.location_in_folder bare some located

theorem of_staged (located : Path.location? x.staged = some loc) :
    loc = Path.folder x.directory ++ [Path.listed (unitName ofType true word extension)] := by
  obtain ⟨bare, some⟩ := h.bare true
  have tail : unitName ofType false word extension ++ ".tmp" = unitName ofType true word extension := by
    simp [unitName, String.append_assoc]
  rw [staged, path, h.filename, stagedPath_join (h.bare false).2, tail] at located
  exact Path.location_in_folder bare some located

theorem of_mem_places (hloc : loc ∈ x.places) : ∃ staged,
    loc = Path.folder x.directory ++ [Path.listed (unitName ofType staged word extension)] :=
  hloc.elim (fun located => ⟨false, h.of_path located⟩) fun located => ⟨true, h.of_staged located⟩

theorem own (located : Path.location? x.path = some loc) : Path.location? x.staged ≠ some loc := by
  intro waits
  have same := (h.of_path located).symm.trans (h.of_staged waits)
  obtain ⟨-, -, staged⟩ := unitName_inj h.word h.word
    (List.singleton_inj.1 (List.append_cancel_left same))
  cases staged

/-- Units that are called differently, or lie in different directories, share no place. -/
theorem disjoint (g : y.IsFile ofType' word' extension)
    (differ : Path.folder x.directory ≠ Path.folder y.directory ∨ word ≠ word' ∨ ofType ≠ ofType') :
    Disjoint x.places y.places := by
  refine Set.disjoint_left.2 fun loc hx hy => ?_
  obtain ⟨staged, hx⟩ := h.of_mem_places hx
  obtain ⟨staged', hy⟩ := g.of_mem_places hy
  obtain ⟨folder, name⟩ := List.append_inj' (hx.symm.trans hy) rfl
  obtain ⟨rfl, rfl, -⟩ := unitName_inj h.word g.word (List.singleton_inj.1 name)
  obtain other | other | other := differ
  · exact other folder
  · exact other rfl
  · exact other rfl

end IsFile

structure Separate (xs : List Target) : Prop where
  own : ∀ x ∈ xs, ∀ loc, Path.location? x.path = some loc → Path.location? x.staged ≠ some loc
  others : xs.Pairwise fun x y => Disjoint x.places y.places

end Target

namespace Workspace

def Unmade (w : Workspace) (directory : String) : Prop :=
  ⟨.error, .staging, "Could not create directory " ++ directory⟩ ∈ w.journal

variable {w v : Workspace} {directory : String}

theorem journal_record (r : Record) (w : Workspace) : (w.record r).journal = w.journal.push r := rfl

theorem Quiet.unmade (h : w.Quiet v) (unmade : w.Unmade directory) : v.Unmade directory := by
  obtain ⟨rs, rfl⟩ := h
  induction rs generalizing w with
  | nil => exact unmade
  | cons r rs ih => exact ih (by simpa [Unmade, journal_record] using .inl unmade)

theorem ensureDirectory_journal {path : String} {made : Bool}
    (h : ensureDirectory path w = (.ok made, v)) :
    (made = false → v.Unmade path) ∧ ∀ directory, w.Unmade directory → v.Unmade directory := by
  obtain ⟨_, _, hget, h⟩ := bind_eq_ok.1 h
  obtain ⟨rfl, rfl⟩ := get_eq_ok.1 hget
  rcases result : w.tree.ensureDirectory path with ⟨result, tree⟩
  simp only [result] at h
  obtain ⟨_, _, hset, h⟩ := bind_eq_ok.1 h
  cases hset
  split at h
  · cases h
    exact ⟨nofun, fun _ unmade => unmade⟩
  · cases h
  · cases h
  · obtain ⟨_, _, htell, h⟩ := bind_eq_ok.1 h
    cases htell
    cases h
    exact ⟨fun _ => by simp [Unmade, journal_record],
      fun _ unmade => by simpa [Unmade, journal_record] using .inl unmade⟩

theorem keeps_commit_journal (journal : Journal) :
    Keeps (fun w : Workspace => w.journal = journal) (fun w => w.journal = journal) commit := by
  have onTree (operation : FileTree → Except FileFault FileTree) :
      Keeps (fun w : Workspace => w.journal = journal) (fun w => w.journal = journal)
        (onTree operation) := by
    refine .of_outcome fun w same => ?_
    unfold Workspace.onTree
    split <;> exact same
  have moved (path : String) : Keeps (fun w : Workspace => w.journal = journal)
      (fun w => w.journal = journal) (moveIntoPlace path) := by
    refine Keeps.get.bind fun w => (onTree _).bind fun _ => ?_
    split
    · exact .modify fun _ same => same
    · exact .pure _
  refine Keeps.get.bind fun w => (Keeps.forM fun path _ => moved path).bind fun _ => ?_
  exact .bind (.modify fun _ same => same) fun _ => .pure _

end Workspace

namespace Save

def AtPlace (t : FileTree) (x : Save) : Prop :=
  ∃ loc characters, Path.location? x.path = some loc ∧
    Text.characters? x.text = some characters ∧ t.fileAt loc = some (.text characters)

def Waits (t : FileTree) (x : Save) : Prop :=
  ∃ loc characters, Path.location? x.staged = some loc ∧
    Text.characters? x.text = some characters ∧ t.fileAt loc = some (.text characters)

theorem AtPlace.of_files {t u : FileTree} {x : Save} (h : AtPlace t x)
    (same : ∀ loc ∈ x.places, u.fileAt loc = t.fileAt loc) : AtPlace u x := by
  obtain ⟨loc, characters, located, kept, found⟩ := h
  exact ⟨loc, characters, located, kept, (same loc (.inl located)).trans found⟩

theorem Waits.of_files {t u : FileTree} {x : Save} (h : Waits t x)
    (same : ∀ loc ∈ x.places, u.fileAt loc = t.fileAt loc) : Waits u x := by
  obtain ⟨loc, characters, located, kept, found⟩ := h
  exact ⟨loc, characters, located, kept, (same loc (.inr located)).trans found⟩

/-- The unit is at its place, or its directory could not be made. -/
def Kept (w : Workspace) (x : Save) : Prop := w.Unmade x.directory ∨ x.AtPlace w.tree

theorem Kept.of_files {w v : Workspace} {x : Save} (h : Kept w x)
    (unmade : ∀ d, w.Unmade d → v.Unmade d)
    (same : ∀ loc ∈ x.places, v.tree.fileAt loc = w.tree.fileAt loc) : Kept v x :=
  h.imp (unmade _) fun there => there.of_files same

/-- Of the saves done so far some wait; the units of the others are at their places, or their
directories could not be made. -/
structure Keeping (log : Option LogFile) (done waiting : List Save) (v : Workspace) : Prop where
  log : v.log = log
  pending : v.pending = waiting.map fun x => x.path
  sublist : waiting.Sublist done
  waits : ∀ x ∈ waiting, x.Waits v.tree
  kept : ∀ x ∈ done, x ∉ waiting → x.Kept v

namespace Keeping
variable {log : Option LogFile} {done waiting : List Save} {x : Save} {w v u : Workspace}
  {locs : Set Location}

theorem of_alike (h : Keeping log done waiting v) (inside : ∀ x ∈ done, x.places ⊆ locs)
    (alike : Workspace.Alike locs v u) (unmade : ∀ d, v.Unmade d → u.Unmade d) :
    Keeping log done waiting u where
  log := alike.log.trans h.log
  pending := alike.pending.trans h.pending
  sublist := h.sublist
  waits x hx := (h.waits x hx).of_files fun loc hloc =>
    alike.files loc (inside x (h.sublist.subset hx) hloc)
  kept x hx settled := (h.kept x hx settled).of_files unmade fun loc hloc =>
    alike.files loc (inside x hx hloc)

theorem more (h : Keeping log done waiting v)
    (kept : x ∉ waiting → x.Kept v) :
    Keeping log (done ++ [x]) waiting v where
  log := h.log
  pending := h.pending
  sublist := h.sublist.trans (List.sublist_append_left ..)
  waits := h.waits
  kept := List.forall_mem_append.2 ⟨h.kept, List.forall_mem_singleton.2 kept⟩

theorem wait (h : Keeping log done waiting v) (apart : ∀ y ∈ done, Disjoint y.places x.places)
    {loc : Location} {characters : String} (located : Path.location? x.staged = some loc)
    (kept : Text.characters? x.text = some characters) (top : FileTree.isTop loc = false) :
    Keeping log (done ++ [x]) (waiting ++ [x])
      (Workspace.remember x.path { v with tree := v.tree.put loc (.file (.text characters)) }) where
  log := h.log
  pending := by
    have new : x.path ∉ v.pending := by
      intro known
      rw [h.pending] at known
      obtain ⟨y, hy, same⟩ := List.mem_map.1 known
      have staged : y.staged = x.staged := congrArg Workspace.stagedPath same
      exact Set.disjoint_left.1 (apart y (h.sublist.subset hy)) (.inr (staged ▸ located)) (.inr located)
    show (if v.pending.contains x.path then v.pending else v.pending ++ [x.path]) = _
    rw [if_neg (by simpa using new), h.pending, List.map_append]
    rfl
  sublist := h.sublist.append (.refl [x])
  waits := by
    refine List.forall_mem_append.2 ⟨fun y hy => (h.waits y hy).of_files fun other hother => ?_,
      List.forall_mem_singleton.2 ⟨loc, characters, located, kept, FileTree.fileAt_put_self top⟩⟩
    exact FileTree.fileAt_put_of_ne fun same =>
      Set.disjoint_left.1 (apart y (h.sublist.subset hy)) hother (.inr (same ▸ located))
  kept := by
    refine List.forall_mem_append.2 ⟨fun y hy settled => ?_,
      List.forall_mem_singleton.2 fun settled => absurd (List.mem_append_right _ List.mem_cons_self) settled⟩
    refine (h.kept y hy fun waits => settled (List.mem_append_left _ waits)).of_files
      (fun _ unmade => unmade) fun other hother => FileTree.fileAt_put_of_ne fun same => ?_
    exact Set.disjoint_left.1 (apart y hy) hother (.inr (same ▸ located))

theorem save (h : Keeping log done waiting v) (apart : ∀ y ∈ done, Disjoint y.places x.places)
    (inside : ∀ y ∈ done ++ [x], y.places ⊆ locs) (off : LogFile.Off log locs)
    (run : x.run v = (.ok (), u)) : ∃ waiting', Keeping log (done ++ [x]) waiting' u := by
  have inside' : ∀ y ∈ done, y.places ⊆ locs := fun y hy => inside y (List.mem_append_left _ hy)
  obtain ⟨made, v', hmade, run⟩ := bind_eq_ok.1 run
  obtain ⟨tree, more, quiet, -⟩ := Workspace.ensureDirectory_ok hmade
  obtain ⟨unmade, remembers⟩ := Workspace.ensureDirectory_journal hmade
  have h' := h.of_alike inside'
    ((Workspace.alike_tree more).trans (quiet.alike (h.log ▸ off))) remembers
  cases made with
  | false =>
    cases run
    exact ⟨waiting, h'.more fun _ => .inl (unmade rfl)⟩
  | true =>
    simp only [↓reduceIte] at run
    obtain ⟨staged, v'', hstaged, run⟩ := bind_eq_ok.1 run
    obtain ⟨characters, kept, result⟩ := Workspace.stage_ok hstaged
    have told : Workspace.Quiet v'' u := by
      cases staged with
      | true =>
        cases run
        exact .record _ _
      | false =>
        cases run
        exact .refl _
    obtain ⟨found, rfl⟩ | ⟨tree, written, quiet⟩ := result
    · obtain ⟨loc, _, placed, there⟩ := FileTree.read_eq_ok found
      have here : x.AtPlace v''.tree :=
        ⟨loc, characters, FileTree.location_of_place placed, kept, there⟩
      exact ⟨waiting, (h'.more fun _ => .inr here).of_alike inside (told.alike (h'.log ▸ off))
        fun _ => told.unmade⟩
    · obtain ⟨loc, _, placed, top, rfl⟩ := FileTree.write_eq_ok written
      have told := quiet.trans told
      exact ⟨waiting ++ [x], (h'.wait apart (FileTree.location_of_place placed) kept top).of_alike
        inside (told.alike (h'.log ▸ off)) fun _ => told.unmade⟩

theorem of_saves {xs : List Save} (h : Saves xs w v) (pending : w.pending = [])
    (others : xs.Pairwise fun x y => Disjoint x.places y.places)
    (inside : ∀ x ∈ xs, x.places ⊆ locs) (off : LogFile.Off w.log locs) :
    ∃ waiting, Keeping w.log xs waiting v := by
  induction h with
  | @quiet w v quiet =>
    have start : Keeping w.log [] [] w :=
      ⟨rfl, pending, .refl [], fun _ h => absurd h List.not_mem_nil,
        fun _ h => absurd h List.not_mem_nil⟩
    exact ⟨[], start.of_alike (fun _ h => absurd h List.not_mem_nil) (quiet.alike off)
      fun _ => quiet.unmade⟩
  | save before saved after ih =>
    obtain ⟨first, -, apart⟩ := List.pairwise_append.1 others
    obtain ⟨waiting, h⟩ := ih pending first (fun x hx => inside x (List.mem_append_left _ hx)) off
    obtain ⟨waiting', h'⟩ := h.save (fun y hy => apart y hy _ List.mem_cons_self) inside off saved
    exact ⟨waiting', h'.of_alike inside (after.alike (h'.log ▸ off)) fun _ => after.unmade⟩

end Keeping

/-- A commit leaves every unit at its place, unless its directory could not be made. -/
theorem Saves.commit_keeps {locs : Set Location} {xs : List Save} {w v u : Workspace} {n : Nat}
    (saves : Saves xs w v) (pending : w.pending = [])
    (separate : Target.Separate (xs.map toTarget)) (inside : ∀ x ∈ xs, x.places ⊆ locs)
    (off : LogFile.Off w.log locs) (h : Workspace.commit v = (.ok n, u)) :
    (∀ x ∈ xs, x.Kept u) ∧ u.log = w.log := by
  have others : xs.Pairwise fun x y => Disjoint x.places y.places := by
    have others := separate.others
    rwa [List.pairwise_map] at others
  obtain ⟨waiting, keeping⟩ := Keeping.of_saves saves pending others inside off
  have journal : u.journal = v.journal :=
    (Workspace.keeps_commit_journal v.journal).result rfl h
  have unmade : ∀ d, v.Unmade d → u.Unmade d := fun d => by
    rw [Workspace.Unmade, Workspace.Unmade, journal]
    exact id
  obtain ⟨_, _, hget, h⟩ := bind_eq_ok.1 h
  obtain ⟨rfl, rfl⟩ := get_eq_ok.1 hget
  obtain ⟨_, t, hmoves, h⟩ := bind_eq_ok.1 h
  obtain ⟨_, _, hclear, h⟩ := bind_eq_ok.1 h
  obtain rfl := modify_eq_ok.1 hclear
  obtain ⟨-, rfl⟩ := pure_eq_ok.1 h
  rw [keeping.pending] at hmoves
  have own : ∀ x ∈ waiting, ∀ loc, Path.location? x.path = some loc →
      Path.location? x.staged ≠ some loc := fun x hx =>
    separate.own x.toTarget (List.mem_map_of_mem (keeping.sublist.subset hx))
  obtain ⟨log, frame, moved⟩ := forM_moveIntoPlace_ok own (others.sublist keeping.sublist)
    (fun x hx => inside x (keeping.sublist.subset hx)) (keeping.log ▸ off) keeping.waits hmoves
  refine ⟨fun x hx => ?_, log.trans keeping.log⟩
  by_cases waits : x ∈ waiting
  · exact .inr (moved x waits)
  · refine (keeping.kept x hx waits).of_files unmade fun loc hloc => ?_
    have symmetric : Std.Symm fun x y : Save => Disjoint x.places y.places := ⟨fun _ _ h => h.symm⟩
    exact frame loc fun y hy => Set.disjoint_left.1
      (others.forall hx (keeping.sublist.subset hy) fun same => waits (same ▸ hy)) hloc

end Save

end ScriptGlue
