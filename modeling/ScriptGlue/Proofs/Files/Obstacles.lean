import ScriptGlue.Proofs.Files.Directory

/-! # Obstacles to a directory

Files on its way are the only obstacles that a tree puts to a directory. So a directory that could
not be made once cannot be made later, if directories stay and there are files at the same locations
of its way.
-/
namespace ScriptGlue.FileTree
open ScriptGlue.Path

variable {t u v : FileTree} {loc : Location} {path : String} {result : Except FileFault Unit}

/-- The second tree has the directories of the first, and a file at one of these locations iff the
first has one. -/
structure SameObstacles (locs : List Location) (t u : FileTree) : Prop where
  directories : ∀ loc, t.lookup loc = some .directory → u.lookup loc = some .directory
  files : ∀ loc ∈ locs, u.fileAt loc = none ↔ t.fileAt loc = none

theorem SameObstacles.subset {locs locs' : List Location} (h : SameObstacles locs t u)
    (inside : locs' ⊆ locs) : SameObstacles locs' t u :=
  ⟨h.directories, fun loc hloc => h.files loc (inside hloc)⟩

theorem SameObstacles.trans {locs : List Location} (h : SameObstacles locs t u)
    (g : SameObstacles locs u v) : SameObstacles locs t v :=
  ⟨fun loc there => g.directories loc (h.directories loc there),
    fun loc hloc => (g.files loc hloc).trans (h.files loc hloc)⟩

theorem place_of_directories {place : Place}
    (stay : ∀ loc, t.lookup loc = some .directory → u.lookup loc = some .directory)
    (h : t.place path = .ok place) : u.place path = .ok place := by
  obtain ⟨usable, directories⟩ := directories_of_place h
  rw [place_of_usable usable, walk_of_directories usable.short fun loc hloc =>
    stay loc (directories loc hloc), place_eq_ok h]
  rfl

theorem mem_way_of_destination {asDirectory : Bool} (h : destination path = .entry loc asDirectory) :
    loc ∈ way path := by
  unfold destination at h
  unfold way
  generalize names path = all at h ⊢
  obtain rfl | ⟨a, name, rfl⟩ := List.eq_nil_or_concat' all
  · cases h
  rw [landing_concat] at h
  rw [steps_concat]
  split at h
  · cases h
  · next dots =>
    cases h
    rw [if_neg dots]
    exact List.mem_append_right _ List.mem_cons_self

theorem SameObstacles.existsAt (h : SameObstacles (way path) t u) (there : t.existsAt path) :
    u.existsAt path := by
  unfold FileTree.existsAt at there ⊢
  split at there
  · next loc placed => rw [place_of_directories h.directories placed]
  · next loc asDirectory placed =>
    rw [place_of_directories h.directories placed]
    have same := h.files loc (mem_way_of_destination (place_eq_ok placed).symm)
    cases found : t.lookup loc with
    | none => simp [found] at there
    | some node =>
      cases node with
      | directory => simp [h.directories loc found]
      | file content =>
        rw [fileAt_eq_some.2 found] at same
        obtain ⟨other, kept⟩ := Option.ne_none_iff_exists'.1 (mt same.1 (by simp))
        simpa [found, fileAt_eq_some.1 kept] using there
  · cases there

def verdict (t : FileTree) (path : String) : Except FileFault Unit :=
  match destination path with
  | .directory _ => .ok ()
  | .entry loc _ => if (t.fileAt loc).isSome then .error .alreadyExists else .ok ()

def Decided (result : Except FileFault Unit) : Prop :=
  result = .ok () ∨ result = .error .alreadyExists

theorem decided_verdict (t : FileTree) (path : String) : Decided (t.verdict path) := by
  unfold verdict
  split
  · exact .inl rfl
  · split
    · exact .inr rfl
    · exact .inl rfl

theorem verdict_congr (same : ∀ loc ∈ way path, u.fileAt loc = none ↔ t.fileAt loc = none) :
    u.verdict path = t.verdict path := by
  unfold verdict
  split
  · rfl
  · next loc _ found =>
    have same := same loc (mem_way_of_destination found)
    rw [← Option.not_isSome_iff_eq_none, ← Option.not_isSome_iff_eq_none, not_iff_not] at same
    simp only [same]

theorem makeOrKeep_of_place {place : Place} (h : t.place path = .ok place) :
    (t.makeOrKeep path).1 = t.verdict path := by
  obtain rfl := place_eq_ok h
  unfold verdict
  cases dest : destination path with
  | directory loc => rw [makeOrKeep_of_directory (h.trans (congrArg Except.ok dest))]
  | entry loc asDirectory =>
    rw [dest] at h
    cases found : t.lookup loc with
    | none => simp [makeOrKeep_of_missing h found, fileAt, found]
    | some node =>
      cases node with
      | directory => simp [makeOrKeep_of_entry h found, fileAt, found]
      | file content =>
        simp only [makeOrKeep, makeDirectory, isDirectory, h, bind, Except.bind, found, fileAt]
        rfl

theorem walk_eq_error {asDirectory : Bool} {names : List String} {fault : FileFault}
    (h : t.walk asDirectory loc names = .error fault) :
    fault = .nameTooLong ∨ fault = .notDirectory ∨ fault = .missing := by
  induction names generalizing loc with
  | nil => cases h
  | cons name rest ih =>
    cases rest with
    | nil =>
      unfold walk at h
      split at h
      · cases h
      · split at h
        · cases h
        · split at h <;> cases h
          exact .inl rfl
    | cons next rest =>
      unfold walk at h
      cases entered : t.enter loc name with
      | ok inner =>
        rw [entered] at h
        exact ih h
      | error fault' =>
        rw [entered] at h
        cases h
        unfold enter at entered
        split at entered
        · cases entered
        · split at entered
          · cases entered
          · split at entered
            · cases entered
              exact .inl rfl
            · split at entered <;> cases entered
              · exact .inr (.inl rfl)
              · exact .inr (.inr rfl)

theorem place_of_decided (h : Decided (t.makeOrKeep path).1) : ∃ place, t.place path = .ok place := by
  cases placed : t.place path with
  | ok place => exact ⟨place, rfl⟩
  | error fault =>
    have failed : (t.makeOrKeep path).1 = .error fault := by
      simp only [makeOrKeep, makeDirectory, isDirectory, placed, bind, Except.bind]
      rfl
    rw [failed] at h
    obtain h | h := h
    · cases h
    · cases h
      unfold FileTree.place at placed
      split at placed
      · cases placed
      · split at placed
        · cases placed
        · split at placed
          · cases placed
          · split at placed
            · cases placed
            · obtain h | h | h := walk_eq_error placed <;> cases h

theorem way_above {above name : String} (split : above? path = some (above, name)) :
    steps (origin path) (names path).dropLast = way above := by
  obtain ⟨nonempty, -, more⟩ := above?_eq_some split
  rw [names_of_above split, List.dropLast_concat, way, origin_of_goesOn more nonempty]

theorem place_of_way_above {above name : String} (usable : Usable path)
    (split : above? path = some (above, name)) (h : t.Directories (way above)) :
    t.place path = .ok (destination path) := by
  rw [place_of_usable usable, walk_of_directories usable.short (way_above split ▸ h)]
  rfl

/-- If no file lies above it, whether a directory is made depends on a file in its own place. -/
theorem ensureDirectory_of_clear (usable : Usable path)
    (clear : ∀ loc ∈ steps (origin path) (names path).dropLast, t.fileAt loc = none) :
    (t.ensureDirectory path).1 = t.verdict path := by
  unfold ensureDirectory
  split
  · next top =>
    have short := length_parts_of_above?_eq_none top
    have alone : (names path).dropLast = [] := by
      rw [← List.length_eq_zero_iff, List.length_dropLast, names, List.length_map]
      omega
    have placed : t.place path = .ok (destination path) := by
      rw [place_of_usable usable, walk_of_directories usable.short]
      · rfl
      · rw [alone]
        exact fun _ h => absurd h List.not_mem_nil
    exact makeOrKeep_of_place placed
  · next above name split =>
    obtain ⟨nonempty, -, more⟩ := above?_eq_some split
    have way : t.Open above := by
      refine ⟨usable.of_goesOn more nonempty ?_, fun loc hloc => clear loc (way_above split ▸ hloc)⟩
      rw [names_of_above split]
      exact List.subset_append_left ..
    split
    · next known =>
      exact makeOrKeep_of_place (place_of_way_above usable split (directories_of_existsAt way known))
    · obtain ⟨u, made, there⟩ := ensureDirectory_open way
      have files := (moreDirectories_ensureDirectory t above).files
      simp only [made] at files ⊢
      have placed := place_of_way_above usable split there
      split
      · next dot =>
        have same : listed "." = "." := by decide
        unfold verdict destination
        rw [names_of_above split, dot, same, landing_concat, if_pos (.inl rfl)]
      · rw [makeOrKeep_of_place placed]
        exact verdict_congr fun loc _ => by rw [files loc]

/-- Making a directory comes to what it comes to when all above it is there. -/
theorem ensureDirectory_of_place {place : Place} (h : v.place path = .ok place)
    (same : ∀ loc ∈ way path, v.fileAt loc = none ↔ t.fileAt loc = none) :
    (t.ensureDirectory path).1 = (v.makeOrKeep path).1 := by
  obtain ⟨usable, directories⟩ := directories_of_place h
  rw [makeOrKeep_of_place h, verdict_congr same]
  refine ensureDirectory_of_clear usable fun loc hloc => (same loc ?_).1 ?_
  · unfold way
    generalize names path = all at hloc ⊢
    obtain rfl | ⟨a, name, rfl⟩ := List.eq_nil_or_concat' all
    · exact hloc
    · rw [List.dropLast_concat] at hloc
      rw [steps_concat]
      exact List.mem_append_left _ hloc
  · rw [fileAt, directories loc hloc]

theorem ensureDirectory_dot {above : String} (split : above? path = some (above, "."))
    (absent : ¬t.existsAt above) (made : Decided (t.ensureDirectory above).1) :
    (t.ensureDirectory path).1 = .ok () := by
  unfold ensureDirectory
  split
  · next top => cases split.symm.trans top
  · next above' name split' =>
    cases split.symm.trans split'
    rw [if_neg absent]
    split
    · rfl
    · next fault _ other result =>
      rw [result] at made
      obtain h | h := made
      · cases h
      · exact absurd (Except.error.inj h) other
    · rfl

theorem way_subset_of_above {above name : String} (split : above? path = some (above, name)) :
    way above ⊆ way path := by
  rw [way_of_above split]
  exact List.subset_append_left ..

/-- A last step that is decided in some tree with the files of the second comes out alike. -/
theorem ensureDirectory_of_decided (h : SameObstacles (way path) t u)
    (files : ∀ loc, v.fileAt loc = u.fileAt loc) (decided : Decided (v.makeOrKeep path).1) :
    (t.ensureDirectory path).1 = (v.makeOrKeep path).1 := by
  obtain ⟨place, placed⟩ := place_of_decided decided
  exact ensureDirectory_of_place placed fun loc hloc => by rw [files loc]; exact h.files loc hloc

theorem decided_of_sameObstacles (h : SameObstacles (way path) t u)
    (decided : Decided (u.ensureDirectory path).1) : Decided (t.ensureDirectory path).1 ∧
      ((u.ensureDirectory path).1 = .ok () → (t.ensureDirectory path).1 = .ok ()) := by
  fun_induction ensureDirectory u path with
  | case1 path top =>
    rw [ensureDirectory_of_decided h (fun _ => rfl) decided]
    exact ⟨decided, id⟩
  | case2 path above name split known =>
    rw [ensureDirectory_of_decided h (fun _ => rfl) decided]
    exact ⟨decided, id⟩
  | case3 path above absent v made split shorter ih =>
    rw [made] at ih
    have before := ih (h.subset (way_subset_of_above split)) (.inr rfl)
    have absent : ¬t.existsAt above := fun there =>
      absent ((h.subset (way_subset_of_above split)).existsAt there)
    have same := ensureDirectory_dot split absent before.1
    exact ⟨.inl same, fun _ => same⟩
  | case4 path above name split absent shorter v made named ih =>
    have files := (moreDirectories_ensureDirectory u above).files
    rw [made] at files
    rw [ensureDirectory_of_decided h files decided]
    exact ⟨decided, id⟩
  | case5 path above name split absent shorter fault v other made ih =>
    obtain h | h := decided
    · cases h
    · exact absurd (Except.error.inj h) other
  | case6 path above absent v made split shorter ih =>
    rw [made] at ih
    have before := ih (h.subset (way_subset_of_above split)) (.inl rfl)
    have absent : ¬t.existsAt above := fun there =>
      absent ((h.subset (way_subset_of_above split)).existsAt there)
    have same := ensureDirectory_dot split absent before.1
    exact ⟨.inl same, fun _ => same⟩
  | case7 path above name split absent shorter v made named ih =>
    have files := (moreDirectories_ensureDirectory u above).files
    rw [made] at files
    rw [ensureDirectory_of_decided h files decided]
    exact ⟨decided, id⟩

/-- The fault says that a path is no text of a path. -/
def Textual (fault : FileFault) : Prop := fault = .nameHasNul ∨ fault = .notEncodable

def Spelled (path : String) : Prop := (∃ bytes, bytes? path = some bytes) ∧ '\x00' ∉ path.toList

theorem makeOrKeep_of_not_spelled (h : ¬Spelled path) :
    ∃ fault, Textual fault ∧ (t.makeOrKeep path).1 = .error fault := by
  have placed : ∃ fault, Textual fault ∧ t.place path = .error fault := by
    unfold FileTree.place
    cases found : bytes? path with
    | none => exact ⟨_, .inr rfl, rfl⟩
    | some bytes =>
      have nul : path.toList.contains '\x00' := by
        by_contra nul
        exact h ⟨⟨bytes, found⟩, by simpa using nul⟩
      exact ⟨_, .inl rfl, if_pos nul⟩
  obtain ⟨fault, textual, placed⟩ := placed
  refine ⟨fault, textual, ?_⟩
  simp only [makeOrKeep, makeDirectory, isDirectory, placed, bind, Except.bind]
  rfl

theorem not_spelled_of_makeOrKeep {fault : FileFault} (h : (t.makeOrKeep path).1 = .error fault)
    (textual : Textual fault) : ¬Spelled path := by
  rintro ⟨⟨bytes, hbytes⟩, nul⟩
  have nul : path.toList.contains '\x00' = false := by simpa using nul
  cases placed : t.place path with
  | ok place =>
    rw [makeOrKeep_of_place placed] at h
    obtain made | kept := decided_verdict t path
    · cases made.symm.trans h
    · cases kept.symm.trans h
      obtain h | h := textual <;> cases h
  | error other =>
    have failed : (t.makeOrKeep path).1 = .error other := by
      simp only [makeOrKeep, makeDirectory, isDirectory, placed, bind, Except.bind]
      rfl
    cases failed.symm.trans h
    simp only [FileTree.place, hbytes, nul, Bool.false_eq_true, ↓reduceIte] at placed
    split at placed
    · cases placed
      obtain h | h := textual <;> cases h
    · split at placed
      · cases placed
        obtain h | h := textual <;> cases h
      · obtain rfl | rfl | rfl := walk_eq_error placed <;> obtain h | h := textual <;> cases h

theorem Spelled.of_above {above name : String} (h : Spelled path)
    (split : above? path = some (above, name)) : Spelled above := by
  obtain ⟨-, -, rest, spelled, free⟩ := above?_eq_some split
  obtain ⟨⟨bytes, hbytes⟩, nul⟩ := h
  have hbytes : bytesOf (above.toList ++ rest) = some bytes := spelled ▸ hbytes
  obtain ⟨x, y, hx, -, -⟩ := (bytesOf_append_eq_some free).1 hbytes
  exact ⟨⟨x, hx⟩, fun h => nul (spelled ▸ List.mem_append_left rest h)⟩

theorem not_spelled_of_ensureDirectory {fault : FileFault}
    (h : (t.ensureDirectory path).1 = .error fault) (textual : Textual fault) : ¬Spelled path := by
  fun_induction ensureDirectory t path with
  | case1 path top => exact not_spelled_of_makeOrKeep h textual
  | case2 path above name split known => exact not_spelled_of_makeOrKeep h textual
  | case3 => cases h
  | case4 path above name split absent shorter v made named ih =>
    exact not_spelled_of_makeOrKeep h textual
  | case5 path above name split absent shorter other v ne made ih =>
    cases h
    rw [made] at ih
    exact fun spelled => ih rfl (spelled.of_above split)
  | case6 => cases h
  | case7 path above name split absent shorter v made named ih =>
    exact not_spelled_of_makeOrKeep h textual

theorem decided_of_existsAt (h : SameObstacles (way path) t u) (there : u.existsAt path) :
    Decided (t.ensureDirectory path).1 := by
  unfold FileTree.existsAt at there
  cases placed : u.place path with
  | error fault => simp [placed] at there
  | ok place =>
    rw [ensureDirectory_of_place placed h.files, makeOrKeep_of_place placed]
    exact decided_verdict u path

theorem plain_of_fails (h : SameObstacles (way path) t u) {fault other : FileFault}
    (failed : (t.ensureDirectory path).1 = .error fault) (plain : ¬Textual fault)
    (again : (u.ensureDirectory path).1 = .error other) : ¬Textual other := by
  intro textual
  have last {path : String} {v : FileTree} (failed : (v.makeOrKeep path).1 = .error fault)
      (again : (u.ensureDirectory path).1 = .error other) : False := by
    obtain ⟨fault', textual', failed'⟩ :=
      makeOrKeep_of_not_spelled (t := v) (not_spelled_of_ensureDirectory again textual)
    cases failed.symm.trans failed'
    exact plain textual'
  fun_induction ensureDirectory t path with
  | case1 path top => exact last failed again
  | case2 path above name split known => exact last failed again
  | case3 => cases failed
  | case4 path above name split absent shorter v made named ih => exact last failed again
  | case5 path above name split absent shorter fault' v ne made ih =>
    cases failed
    rw [made] at ih
    have inside := h.subset (way_subset_of_above split)
    have undecided : ¬Decided (t.ensureDirectory above).1 := by
      rw [made]
      rintro (h | h)
      · cases h
      · exact ne (Except.error.inj h)
    unfold ensureDirectory at again
    split at again
    · next top => cases split.symm.trans top
    · next above' name' split' =>
      cases split.symm.trans split'
      rw [if_neg fun there => undecided (decided_of_existsAt inside there)] at again
      split at again
      · next result => exact undecided (decided_of_sameObstacles inside (.inr (by rw [result]))).1
      · next fault'' w _ result =>
        cases again
        exact ih inside rfl (by rw [result])
      · next result => exact undecided (decided_of_sameObstacles inside (.inl (by rw [result]))).1
  | case6 => cases failed
  | case7 path above name split absent shorter v made named ih => exact last failed again

/-- What could not be made cannot be made later, and it is the tree that forbids it both times. -/
theorem ensureDirectory_fails_again (h : SameObstacles (way path) t u) {fault : FileFault}
    (failed : (t.ensureDirectory path).1 = .error fault) (plain : ¬Textual fault) :
    ∃ other, (u.ensureDirectory path).1 = .error other ∧ ¬Textual other := by
  cases again : (u.ensureDirectory path).1 with
  | ok =>
    cases ((decided_of_sameObstacles h (.inl again)).2 again).symm.trans failed
  | error other => exact ⟨other, rfl, plain_of_fails h failed plain again⟩

end ScriptGlue.FileTree
