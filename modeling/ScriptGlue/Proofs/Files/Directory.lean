import ScriptGlue.Proofs.Files.Place
import ScriptGlue.Proofs.Files.Split

/-! # Making directories

A directory can be made, with those above it, if its path is usable and no file lies on its way. So
whether it is made depends on the files only: other directories neither help nor stand in the way.
-/
namespace ScriptGlue.Path

def steps (loc : Location) : List String → List Location
  | [] => []
  | name :: rest =>
    (if name = "." ∨ name = ".." then [] else [loc ++ [name]]) ++ steps (step loc name) rest

/-- The locations on the way of a path, its destination included. -/
def way (path : String) : List Location := steps (origin path) (names path)

theorem steps_append (loc : Location) (a b : List String) :
    steps loc (a ++ b) = steps loc a ++ steps (a.foldl step loc) b := by
  induction a generalizing loc with
  | nil => rfl
  | cons name a ih =>
    rw [List.cons_append, steps, steps, ih, List.foldl_cons, List.append_assoc]

theorem steps_concat (loc : Location) (a : List String) (name : String) :
    steps loc (a ++ [name]) = steps loc a ++
      if name = "." ∨ name = ".." then [] else [a.foldl step loc ++ [name]] := by
  rw [steps_append, steps, steps, List.append_nil]

theorem landing_concat (asDirectory : Bool) (loc : Location) (a : List String) (name : String) :
    landing asDirectory loc (a ++ [name]) =
      if name = "." ∨ name = ".." then .directory (step (a.foldl step loc) name)
      else .entry (a.foldl step loc ++ [name]) asDirectory := by
  induction a generalizing loc with
  | nil => rfl
  | cons first a ih =>
    rw [List.cons_append, List.foldl_cons, ← ih]
    cases a <;> rfl

/-- A path that may lead somewhere. -/
structure Usable (path : String) : Prop where
  bytes : ∃ bytes, bytes? path = some bytes ∧ bytes.length < longestPath
  noNul : '\x00' ∉ path.toList
  short : ∀ name ∈ names path, size name ≤ longestName
  nonempty : path ≠ ""

theorem Usable.of_short {a path : String} (h : Usable path) (more : GoesOn a.toList path.toList)
    (nonempty : a ≠ "") (short : ∀ name ∈ names a, size name ≤ longestName) : Usable a := by
  obtain ⟨rest, split, free⟩ := more
  refine ⟨?_, fun nul => ?_, short, nonempty⟩
  · obtain ⟨bytes, hbytes, short⟩ := h.bytes
    have hbytes : bytesOf (a.toList ++ rest) = some bytes := split ▸ hbytes
    obtain ⟨x, y, hx, -, rfl⟩ := (bytesOf_append_eq_some free).1 hbytes
    rw [List.length_append] at short
    exact ⟨x, hx, by omega⟩
  · exact h.noNul (split ▸ List.mem_append_left rest nul)

theorem Usable.of_goesOn {a path : String} (h : Usable path) (more : GoesOn a.toList path.toList)
    (nonempty : a ≠ "") (names_subset : names a ⊆ names path) : Usable a :=
  h.of_short more nonempty fun name hname => h.short name (names_subset hname)

theorem isAbsolute_iff {path : String} : isAbsolute path ↔ path.toList.head? = some '/' := by
  unfold isAbsolute
  rw [String.startsWith_string_iff]
  cases path.toList with
  | nil => simp
  | cons c rest => simp [List.cons_prefix_cons, eq_comm]

theorem origin_of_goesOn {a path : String} (more : GoesOn a.toList path.toList) (nonempty : a ≠ "") :
    origin a = origin path := by
  obtain ⟨rest, split, -⟩ := more
  have same : isAbsolute a = isAbsolute path := by
    rw [Bool.eq_iff_iff, isAbsolute_iff, isAbsolute_iff, split]
    cases chars : a.toList with
    | nil => exact absurd (String.toList_injective chars) nonempty
    | cons c cs => rfl
  rw [origin, origin, same]

end ScriptGlue.Path

namespace ScriptGlue.FileTree
open ScriptGlue.Path

variable {t u : FileTree} {loc : Location} {path : String}

def Directories (t : FileTree) (locs : List Location) : Prop :=
  ∀ loc ∈ locs, t.lookup loc = some .directory

theorem Directories.append {a b : List Location} (h : t.Directories a) (g : t.Directories b) :
    t.Directories (a ++ b) := fun loc hloc =>
  (List.mem_append.1 hloc).elim (h loc) (g loc)

theorem Directories.left {a b : List Location} (h : t.Directories (a ++ b)) : t.Directories a :=
  fun loc hloc => h loc (List.mem_append_left b hloc)

theorem Directories.right {a b : List Location} (h : t.Directories (a ++ b)) : t.Directories b :=
  fun loc hloc => h loc (List.mem_append_right a hloc)

theorem Directories.more {locs : List Location} (h : t.Directories locs)
    (more : MoreDirectories t u) : u.Directories locs :=
  fun loc hloc => more.keeps loc _ (h loc hloc)

theorem enter_of_directories {name : String} (short : size name ≤ longestName)
    (h : t.Directories (steps loc [name])) : t.enter loc name = .ok (step loc name) := by
  unfold enter step
  by_cases same : name = "."
  · rw [if_pos same, if_pos same]
  by_cases up : name = ".."
  · rw [if_neg same, if_neg same, if_pos up, if_pos up]
  have there : t.lookup (loc ++ [name]) = some .directory :=
    h _ (by rw [steps, if_neg (not_or.2 ⟨same, up⟩)]; exact List.mem_cons_self)
  rw [if_neg same, if_neg up, if_neg (Nat.not_lt.2 short), if_neg same, if_neg up, there]

theorem walk_of_directories {asDirectory : Bool} {names : List String}
    (short : ∀ name ∈ names, size name ≤ longestName)
    (h : t.Directories (steps loc names.dropLast)) :
    t.walk asDirectory loc names = .ok (landing asDirectory loc names) := by
  induction names generalizing loc with
  | nil => rfl
  | cons name rest ih =>
    have shortName := short name List.mem_cons_self
    cases rest with
    | nil =>
      unfold walk landing step
      by_cases same : name = "."
      · simp [same]
      by_cases up : name = ".."
      · simp [up]
      rw [if_neg same, if_neg up, if_neg (Nat.not_lt.2 shortName), if_neg (not_or.2 ⟨same, up⟩)]
    | cons next rest =>
      rw [List.dropLast_cons_cons] at h
      have split : steps loc (name :: (next :: rest).dropLast) =
          steps loc [name] ++ steps (step loc name) (next :: rest).dropLast :=
        steps_append loc [name] _
      rw [split] at h
      unfold walk
      rw [enter_of_directories shortName h.left]
      exact ih (fun name hname => short name (List.mem_cons_of_mem _ hname)) h.right

theorem short_of_dots {name : String} (h : name = "." ∨ name = "..") : size name ≤ longestName := by
  obtain rfl | rfl := h <;> decide

theorem enter_directories {name : String} {other : Location} (h : t.enter loc name = .ok other) :
    size name ≤ longestName ∧ t.Directories (steps loc [name]) := by
  unfold steps
  by_cases dots : name = "." ∨ name = ".."
  · refine ⟨short_of_dots dots, ?_⟩
    rw [if_pos dots]
    exact fun loc hloc => absurd hloc List.not_mem_nil
  · obtain ⟨same, up⟩ := not_or.1 dots
    unfold enter at h
    rw [if_neg same, if_neg up] at h
    rw [if_neg dots]
    split at h
    · cases h
    · next short =>
      refine ⟨Nat.not_lt.1 short, fun loc' hloc => ?_⟩
      cases List.mem_singleton.1 hloc
      split at h
      · next there => exact there
      · cases h
      · cases h

/-- A walk that leads somewhere passes directories only, except at its end. -/
theorem walk_directories {asDirectory : Bool} {names : List String} {place : Place}
    (h : t.walk asDirectory loc names = .ok place) :
    (∀ name ∈ names, size name ≤ longestName) ∧ t.Directories (steps loc names.dropLast) := by
  induction names generalizing loc with
  | nil => exact ⟨fun _ h => absurd h List.not_mem_nil, fun _ h => absurd h List.not_mem_nil⟩
  | cons name rest ih =>
    cases rest with
    | nil =>
      refine ⟨fun other hother => ?_, fun _ h => absurd h List.not_mem_nil⟩
      obtain rfl := List.mem_singleton.1 hother
      by_cases dots : other = "." ∨ other = ".."
      · exact short_of_dots dots
      · obtain ⟨same, up⟩ := not_or.1 dots
        unfold walk at h
        rw [if_neg same, if_neg up] at h
        split at h
        · cases h
        · next short => exact Nat.not_lt.1 short
    | cons next rest =>
      unfold walk at h
      cases entered : t.enter loc name with
      | error fault =>
        rw [entered] at h
        cases h
      | ok inner =>
        rw [entered] at h
        obtain ⟨shortName, first⟩ := enter_directories entered
        obtain rfl := enter_eq_ok entered
        obtain ⟨short, others⟩ := ih h
        refine ⟨List.forall_mem_cons.2 ⟨shortName, short⟩, ?_⟩
        rw [List.dropLast_cons_cons]
        have split : steps loc (name :: (next :: rest).dropLast) =
            steps loc [name] ++ steps (step loc name) (next :: rest).dropLast :=
          steps_append loc [name] _
        rw [split]
        exact first.append others

theorem place_of_usable (h : Usable path) :
    t.place path = t.walk (endsInSlash path) (origin path) (names path) := by
  obtain ⟨bytes, hbytes, short⟩ := h.bytes
  unfold FileTree.place
  rw [hbytes]
  have nul : path.toList.contains '\x00' = false := by simpa using h.noNul
  simp only [nul, Bool.false_eq_true, ↓reduceIte, h.nonempty, ge_iff_le, Nat.not_le.2 short]
  rfl

theorem directories_of_place {place : Place} (h : t.place path = .ok place) :
    Usable path ∧ t.Directories (steps (origin path) (names path).dropLast) := by
  unfold FileTree.place at h
  split at h
  · cases h
  · next bytes hbytes =>
    split at h
    · cases h
    · next nul =>
      split at h
      · cases h
      · next nonempty =>
        split at h
        · cases h
        · next short =>
          obtain ⟨shortNames, directories⟩ := walk_directories h
          exact ⟨⟨⟨bytes, hbytes, Nat.not_le.1 short⟩, by simpa using nul, shortNames, nonempty⟩,
            directories⟩

structure Open (t : FileTree) (path : String) : Prop where
  usable : Usable path
  clear : ∀ loc ∈ way path, t.fileAt loc = none

theorem Open.of_files (h : t.Open path)
    (same : ∀ loc ∈ way path, u.fileAt loc = none ↔ t.fileAt loc = none) : u.Open path :=
  ⟨h.usable, fun loc hloc => (same loc hloc).2 (h.clear loc hloc)⟩

theorem directory_of_no_file {node : FileNode} (clear : t.fileAt loc = none)
    (there : t.lookup loc = some node) : node = .directory := by
  cases node with
  | directory => rfl
  | file content => cases clear.symm.trans (fileAt_eq_some.2 there)

theorem makeOrKeep_of_directory (placed : t.place path = .ok (.directory loc)) :
    t.makeOrKeep path = (.ok (), t) := by
  unfold makeOrKeep makeDirectory isDirectory
  rw [placed]
  rfl

theorem makeOrKeep_of_entry {asDirectory : Bool} (placed : t.place path = .ok (.entry loc asDirectory))
    (there : t.lookup loc = some .directory) : t.makeOrKeep path = (.ok (), t) := by
  unfold makeOrKeep makeDirectory isDirectory
  rw [placed]
  simp only [bind, Except.bind, there]
  rfl

theorem makeOrKeep_of_missing {asDirectory : Bool}
    (placed : t.place path = .ok (.entry loc asDirectory)) (missing : t.lookup loc = none) :
    t.makeOrKeep path = (.ok (), t.put loc .directory) := by
  unfold makeOrKeep makeDirectory
  rw [placed]
  simp only [bind, Except.bind, missing]
  rfl

theorem not_top_of_missing (h : t.lookup loc = none) : isTop loc = false := by
  cases top : isTop loc with
  | false => rfl
  | true =>
    rw [lookup, if_pos top] at h
    cases h

theorem makeOrKeep_open (h : t.Open path)
    (above : t.Directories (steps (origin path) (names path).dropLast)) :
    ∃ u, t.makeOrKeep path = (.ok (), u) ∧ u.Directories (way path) := by
  have placed := (place_of_usable (t := t) h.usable).trans (walk_of_directories h.usable.short above)
  have clear := h.clear
  unfold way at clear ⊢
  generalize names path = all at placed above clear ⊢
  obtain rfl | ⟨a, name, rfl⟩ := List.eq_nil_or_concat' all
  · exact ⟨t, makeOrKeep_of_directory placed, fun _ h => absurd h List.not_mem_nil⟩
  rw [List.dropLast_concat] at above
  rw [landing_concat] at placed
  rw [steps_concat] at clear ⊢
  by_cases dots : name = "." ∨ name = ".."
  · rw [if_pos dots] at placed
    rw [if_pos dots, List.append_nil]
    exact ⟨t, makeOrKeep_of_directory placed, above⟩
  · rw [if_neg dots] at placed clear
    rw [if_neg dots]
    have last := clear _ (List.mem_append_right _ List.mem_cons_self)
    cases there : t.lookup (a.foldl step (origin path) ++ [name]) with
    | none =>
      refine ⟨_, makeOrKeep_of_missing placed there,
        (above.more (moreDirectories_put there)).append fun loc hloc => ?_⟩
      rw [List.mem_singleton.1 hloc]
      exact lookup_put_self (not_top_of_missing there)
    | some node =>
      obtain rfl := directory_of_no_file last there
      refine ⟨t, makeOrKeep_of_entry placed there, above.append fun loc hloc => ?_⟩
      rw [List.mem_singleton.1 hloc]
      exact there

/-- On an open way, a path that is there is a directory with all it passes. -/
theorem directories_of_existsAt (h : t.Open path) (there : t.existsAt path) :
    t.Directories (way path) := by
  cases placed : t.place path with
  | error fault => simp [existsAt, placed] at there
  | ok place =>
    have above := (directories_of_place placed).2
    obtain rfl := place_eq_ok placed
    have clear := h.clear
    unfold existsAt at there
    rw [placed] at there
    unfold destination at there
    unfold way at clear ⊢
    generalize names path = all at there above clear ⊢
    obtain rfl | ⟨a, name, rfl⟩ := List.eq_nil_or_concat' all
    · exact fun _ h => absurd h List.not_mem_nil
    rw [List.dropLast_concat] at above
    rw [landing_concat] at there
    rw [steps_concat] at clear ⊢
    by_cases dots : name = "." ∨ name = ".."
    · rw [if_pos dots, List.append_nil]
      exact above
    · rw [if_neg dots] at there clear
      rw [if_neg dots]
      refine above.append fun loc hloc => ?_
      have last := clear _ (List.mem_append_right _ List.mem_cons_self)
      rw [List.mem_singleton.1 hloc]
      cases found : t.lookup (a.foldl step (origin path) ++ [name]) with
      | none => simp [found] at there
      | some node => rw [directory_of_no_file last found]

theorem names_of_above {above name : String} (h : above? path = some (above, name)) :
    names path = names above ++ [listed name] := by
  unfold names
  rw [(above?_eq_some h).2.1, List.map_append]
  rfl

theorem way_of_above {above name : String} (h : above? path = some (above, name)) :
    way path = way above ++ steps ((names above).foldl step (origin path)) [listed name] := by
  obtain ⟨nonempty, -, more⟩ := above?_eq_some h
  rw [way, way, names_of_above h, steps_append, origin_of_goesOn more nonempty]

theorem Open.of_above {above name : String} (h : t.Open path)
    (split : above? path = some (above, name)) : t.Open above := by
  obtain ⟨nonempty, -, more⟩ := above?_eq_some split
  refine ⟨h.usable.of_goesOn more nonempty ?_, fun loc hloc => h.clear loc ?_⟩
  · rw [names_of_above split]
    exact List.subset_append_left ..
  · rw [way_of_above split]
    exact List.mem_append_left _ hloc

theorem makeOrKeep_below {above name : String} (h : t.Open path)
    (split : above? path = some (above, name)) (there : t.Directories (way above)) :
    ∃ u, t.makeOrKeep path = (.ok (), u) ∧ u.Directories (way path) := by
  obtain ⟨nonempty, -, more⟩ := above?_eq_some split
  refine makeOrKeep_open h ?_
  rw [names_of_above split, List.dropLast_concat, ← origin_of_goesOn more nonempty]
  exact there

theorem ensureDirectory_open (h : t.Open path) :
    ∃ u, t.ensureDirectory path = (.ok (), u) ∧ u.Directories (way path) := by
  fun_induction ensureDirectory t path with
  | case1 path top =>
    have short := length_parts_of_above?_eq_none top
    have alone : (names path).dropLast = [] := by
      rw [← List.length_eq_zero_iff, List.length_dropLast, names, List.length_map]
      omega
    refine makeOrKeep_open h ?_
    rw [alone]
    exact fun _ h => absurd h List.not_mem_nil
  | case2 path above name split known =>
    exact makeOrKeep_below h split (directories_of_existsAt (h.of_above split) known)
  | case3 path above absent u made split shorter ih =>
    obtain ⟨v, hv, -⟩ := ih (h.of_above split)
    cases made.symm.trans hv
  | case4 path above name split absent shorter u made named ih =>
    obtain ⟨v, hv, -⟩ := ih (h.of_above split)
    cases made.symm.trans hv
  | case5 path above name split absent shorter fault u other made ih =>
    obtain ⟨v, hv, -⟩ := ih (h.of_above split)
    cases made.symm.trans hv
  | case6 path above absent u made split shorter ih =>
    obtain ⟨v, hv, there⟩ := ih (h.of_above split)
    cases made.symm.trans hv
    refine ⟨u, rfl, ?_⟩
    have same : listed "." = "." := by decide
    rw [way_of_above split, same]
    exact there.append fun _ h => absurd h List.not_mem_nil
  | case7 path above name split absent shorter u made named ih =>
    obtain ⟨v, hv, there⟩ := ih (h.of_above split)
    cases made.symm.trans hv
    have files := (moreDirectories_ensureDirectory t above).files
    rw [made] at files
    exact makeOrKeep_below (h.of_files fun loc _ => by rw [files loc]) split there

theorem names_join {directory filename : String} (bare : '/' ∉ filename.toList)
    (some : filename ≠ "") (nonempty : directory ≠ "") :
    names (join directory filename) = names directory ++ [listed filename] ∧
      GoesOn directory.toList (join directory filename).toList := by
  have relative : isAbsolute filename = false := by
    rw [Bool.eq_false_iff, ne_eq, isAbsolute_iff]
    exact fun first => bare (List.mem_of_head? first)
  have single : pieces filename.toList = [filename.toList] := by
    rw [pieces_of_no_slash bare, if_neg]
    simpa using some
  have whole : parts directory ++ [filename] =
      (pieces directory.toList ++ pieces filename.toList).map String.ofList := by
    rw [single, List.map_append, parts_eq]
    simp
  unfold names
  rw [show (parts directory).map listed ++ [listed filename] =
    (parts directory ++ [filename]).map listed by simp, whole, parts_eq]
  unfold join
  rw [if_neg (Bool.eq_false_iff.1 relative)]
  split
  · next ends =>
    have ends := ends.resolve_left nonempty
    unfold endsInSlash at ends
    rw [← String.endsWith_toSlice, String.Slice.endsWith_string_iff] at ends
    obtain ⟨a, ha⟩ := ends
    have ha : directory.toList = a ++ '/' :: [] := by simpa using ha.symm
    constructor
    · rw [String.toList_append, ha, List.append_assoc, List.cons_append, List.nil_append,
        pieces_append, pieces_append]
      simp [pieces, splitSlashes]
    · refine ⟨filename.toList, String.toList_append .., fun last => ?_⟩
      rw [ha, List.getLast?_concat] at last
      exact absurd (Option.some.inj last) (by decide)
  · constructor
    · rw [String.toList_append, String.toList_append, List.append_assoc]
      exact congrArg (List.map listed) (congrArg (List.map String.ofList)
        (pieces_append directory.toList filename.toList))
    · refine ⟨'/' :: filename.toList, by simp [String.toList_append], fun _ d hd => ?_⟩
      cases hd
      exact Text.free_slash

theorem Open.of_place {directory filename : String} {place : Place} (bare : '/' ∉ filename.toList)
    (some : filename ≠ "") (nonempty : directory ≠ "")
    (placed : t.place (join directory filename) = .ok place) : t.Open directory := by
  obtain ⟨named, more⟩ := names_join bare some nonempty
  obtain ⟨usable, passed⟩ := directories_of_place placed
  refine ⟨usable.of_goesOn more nonempty (named ▸ List.subset_append_left ..), fun loc hloc => ?_⟩
  rw [named, List.dropLast_concat, ← origin_of_goesOn more nonempty] at passed
  unfold fileAt
  rw [passed loc hloc]

theorem location_join {directory filename : String} (bare : '/' ∉ filename.toList)
    (some : filename ≠ "") (nonempty : directory ≠ "")
    (located : Path.location? (join directory filename) = .some loc) :
    loc = (names directory).foldl step (origin directory) ++ [listed filename] := by
  obtain ⟨named, more⟩ := names_join bare some nonempty
  unfold location? destination at located
  rw [named, landing_concat] at located
  by_cases dots : listed filename = "." ∨ listed filename = ".."
  · rw [if_pos dots] at located
    cases located
  · rw [if_neg dots] at located
    rw [origin_of_goesOn more nonempty]
    exact (Option.some.inj located).symm

end ScriptGlue.FileTree
