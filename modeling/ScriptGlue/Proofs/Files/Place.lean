import Mathlib.Data.List.Basic
import ScriptGlue.Files.Tree

/-! # Places

Where a path leads is in its text; the tree only decides whether it leads there. What an operation
does to a tree is said by what it does to the file at each location.
-/
namespace ScriptGlue

def Path.step (loc : Location) (name : String) : Location :=
  if name = "." then loc else if name = ".." then FileTree.above loc else loc ++ [name]

def Path.landing (asDirectory : Bool) (loc : Location) : List String → FileTree.Place
  | [] => .directory loc
  | [name] =>
    if name = "." ∨ name = ".." then .directory (step loc name)
    else .entry (loc ++ [name]) asDirectory
  | name :: rest => landing asDirectory (step loc name) rest

def Path.names (path : String) : List String := (parts path).map listed

def Path.origin (path : String) : Location := if isAbsolute path then ["/"] else []

def Path.destination (path : String) : FileTree.Place :=
  landing (endsInSlash path) (origin path) (names path)

def Path.location? (path : String) : Option Location :=
  match destination path with
  | .entry loc _ => some loc
  | .directory _ => none

namespace FileTree

variable {t u : FileTree} {loc other : Location} {path : String}

theorem enter_eq_ok {name : String} (h : t.enter loc name = .ok other) :
    other = Path.step loc name := by
  unfold enter at h
  unfold Path.step
  by_cases same : name = "."
  · rw [if_pos same] at h ⊢
    cases h
    rfl
  rw [if_neg same] at h ⊢
  by_cases up : name = ".."
  · rw [if_pos up] at h ⊢
    cases h
    rfl
  rw [if_neg up] at h ⊢
  split at h
  · cases h
  · split at h <;> cases h
    rfl

theorem walk_eq_ok {asDirectory : Bool} {names : List String} {place : Place}
    (h : t.walk asDirectory loc names = .ok place) :
    place = Path.landing asDirectory loc names := by
  induction names generalizing loc with
  | nil =>
    cases h
    rfl
  | cons name rest ih =>
    cases rest with
    | nil =>
      unfold walk at h
      unfold Path.landing Path.step
      by_cases same : name = "."
      · simp only [same, ↓reduceIte, true_or] at h ⊢
        cases h
        rfl
      by_cases up : name = ".."
      · rw [if_neg same, if_pos up] at h
        rw [if_pos (.inr up), if_neg same, if_pos up]
        cases h
        rfl
      rw [if_neg same, if_neg up] at h
      rw [if_neg (not_or.2 ⟨same, up⟩)]
      split at h <;> cases h
      rfl
    | cons next rest =>
      unfold walk at h
      cases entered : t.enter loc name with
      | error fault =>
        rw [entered] at h
        cases h
      | ok inner =>
        rw [entered] at h
        obtain rfl := enter_eq_ok entered
        exact ih h

theorem place_eq_ok {place : Place} (h : t.place path = .ok place) :
    place = Path.destination path := by
  unfold FileTree.place at h
  split at h
  · cases h
  · split at h
    · cases h
    · split at h
      · cases h
      · split at h
        · cases h
        · exact walk_eq_ok h

theorem location_of_place {asDirectory : Bool} (h : t.place path = .ok (.entry loc asDirectory)) :
    Path.location? path = some loc := by
  unfold Path.location?
  rw [← place_eq_ok h]

def fileAt (t : FileTree) (loc : Location) : Option Content :=
  match t.lookup loc with
  | some (.file content) => some content
  | _ => none

theorem fileAt_eq_some {content : Content} :
    t.fileAt loc = some content ↔ t.lookup loc = some (.file content) := by
  unfold fileAt
  split
  · next found => simp [found]
  · next other =>
    constructor
    · intro h
      cases h
    · exact fun found => absurd found (other content)

theorem not_top_of_file {content : Content} (h : t.lookup loc = some (.file content)) :
    isTop loc = false := by
  unfold lookup at h
  cases top : isTop loc
  · rfl
  · rw [top] at h
    cases h

theorem lookup_erase_of_ne (h : other ≠ loc) : (t.erase loc).lookup other = t.lookup other := by
  have same (es : List (Location × FileNode)) :
      (es.filter fun e => e.1 != loc).lookup other = es.lookup other := by
    induction es with
    | nil => rfl
    | cons e es ih =>
      obtain ⟨at_, node⟩ := e
      by_cases here : at_ = loc
      · subst here
        rw [List.filter_cons_of_neg (by simp), ih, List.lookup_cons, beq_false_of_ne h]
      · rw [List.filter_cons_of_pos (by simpa using here), List.lookup_cons, List.lookup_cons, ih]
  unfold lookup erase
  rw [same]

theorem lookup_erase_self (h : isTop loc = false) : (t.erase loc).lookup loc = none := by
  unfold lookup erase
  rw [h, if_neg Bool.false_ne_true, List.lookup_eq_none_iff]
  intro e he
  have kept := (List.mem_filter.1 he).2
  rw [bne_iff_ne] at kept
  simpa using kept.symm

theorem lookup_put_of_ne {node : FileNode} (h : other ≠ loc) :
    (t.put loc node).lookup other = t.lookup other := by
  rw [← lookup_erase_of_ne (t := t) h]
  unfold lookup put
  rw [List.lookup_cons, beq_false_of_ne h]

theorem lookup_put_self {node : FileNode} (h : isTop loc = false) :
    (t.put loc node).lookup loc = some node := by
  unfold lookup put
  rw [h, if_neg Bool.false_ne_true, List.lookup_cons_self]

theorem fileAt_put_of_ne {node : FileNode} (h : other ≠ loc) :
    (t.put loc node).fileAt other = t.fileAt other := by
  unfold fileAt
  rw [lookup_put_of_ne h]

theorem fileAt_put_self {content : Content} (h : isTop loc = false) :
    (t.put loc (.file content)).fileAt loc = some content := by
  unfold fileAt
  rw [lookup_put_self h]

theorem fileAt_erase_of_ne (h : other ≠ loc) : (t.erase loc).fileAt other = t.fileAt other := by
  unfold fileAt
  rw [lookup_erase_of_ne h]

theorem write_eq_ok {content : Content} (h : t.write path content = .ok u) :
    ∃ loc asDirectory, t.place path = .ok (.entry loc asDirectory) ∧ isTop loc = false ∧
      u = t.put loc (.file content) := by
  unfold write at h
  cases placed : t.place path with
  | error fault =>
    rw [placed] at h
    cases h
  | ok place =>
    rw [placed] at h
    cases place with
    | directory loc => cases h
    | entry loc asDirectory =>
      refine ⟨loc, asDirectory, rfl, ?_⟩
      simp only [bind, Except.bind] at h
      split at h
      · cases h
      · cases h
      · cases h
      · next other =>
        cases h
        refine ⟨?_, rfl⟩
        cases top : isTop loc with
        | false => rfl
        | true =>
          have : t.lookup loc = some .directory := by rw [lookup, if_pos top]
          exact absurd this (by simpa using other)

theorem read_eq_ok {characters : String} (h : t.read path = .ok characters) :
    ∃ loc asDirectory, t.place path = .ok (.entry loc asDirectory) ∧
      t.fileAt loc = some (.text characters) := by
  unfold read at h
  cases placed : t.place path with
  | error fault =>
    rw [placed] at h
    cases h
  | ok place =>
    rw [placed] at h
    cases place with
    | directory loc => cases h
    | entry loc asDirectory =>
      refine ⟨loc, asDirectory, rfl, ?_⟩
      simp only [bind, Except.bind] at h
      split at h
      · cases h
      · cases h
      · next content found =>
        split at h
        · cases h
        · split at h <;> cases h
          exact fileAt_eq_some.2 found

theorem replace_eq_ok {source target : String} {content : Content} {a : Location}
    (h : t.replace source target = .ok u) (from_ : Path.location? source = some a)
    (found : t.fileAt a = some content) :
    ∃ b, Path.location? target = some b ∧ isTop b = false ∧
      u = (t.erase a).put b (.file content) := by
  unfold replace at h
  cases first : t.place source with
  | error fault =>
    rw [first] at h
    cases h
  | ok place =>
    cases second : t.place target with
    | error fault =>
      rw [first, second] at h
      cases h
    | ok place' =>
      rw [first, second] at h
      simp only [bind, Except.bind] at h
      cases place with
      | directory _ => cases h
      | entry a' aDirectory =>
        obtain rfl : a' = a := Option.some.inj ((location_of_place first).symm.trans from_)
        cases place' with
        | directory _ => cases h
        | entry b bDirectory =>
          refine ⟨b, location_of_place second, ?_⟩
          simp only [fileAt_eq_some.1 found] at h
          split at h
          · cases h
          · split at h
            · cases h
            · next other =>
              cases h
              refine ⟨?_, rfl⟩
              cases top : isTop b with
              | false => rfl
              | true => exact absurd (by rw [lookup, if_pos top]) other

theorem makeDirectory_eq_ok (h : t.makeDirectory path = .ok u) :
    ∃ loc, t.lookup loc = none ∧ u = t.put loc .directory := by
  unfold makeDirectory at h
  cases placed : t.place path with
  | error fault =>
    rw [placed] at h
    cases h
  | ok place =>
    rw [placed] at h
    simp only [bind, Except.bind] at h
    cases place with
    | directory _ => cases h
    | entry loc asDirectory =>
      simp only at h
      split at h
      · cases h
      · next missing =>
        cases h
        exact ⟨loc, missing, rfl⟩

structure MoreDirectories (t u : FileTree) : Prop where
  keeps : ∀ loc node, t.lookup loc = some node → u.lookup loc = some node
  files : ∀ loc, u.fileAt loc = t.fileAt loc

theorem MoreDirectories.refl (t : FileTree) : MoreDirectories t t := ⟨fun _ _ h => h, fun _ => rfl⟩

theorem MoreDirectories.trans {v : FileTree} (h : MoreDirectories t u) (g : MoreDirectories u v) :
    MoreDirectories t v :=
  ⟨fun loc node found => g.keeps loc node (h.keeps loc node found),
    fun loc => (g.files loc).trans (h.files loc)⟩

theorem moreDirectories_put (missing : t.lookup loc = none) :
    MoreDirectories t (t.put loc .directory) where
  keeps other node found := by
    have : other ≠ loc := fun same => by
      rw [same, missing] at found
      cases found
    rw [lookup_put_of_ne this]
    exact found
  files other := by
    by_cases here : other = loc
    · subst here
      have top : isTop other = false := by
        cases top : isTop other with
        | false => rfl
        | true =>
          rw [lookup, if_pos top] at missing
          cases missing
      unfold fileAt
      rw [lookup_put_self top, missing]
    · exact fileAt_put_of_ne here

theorem moreDirectories_makeOrKeep (t : FileTree) (path : String) :
    MoreDirectories t (t.makeOrKeep path).2 := by
  unfold makeOrKeep
  split
  · next u made =>
    obtain ⟨loc, missing, rfl⟩ := makeDirectory_eq_ok made
    exact moreDirectories_put missing
  · exact .refl t

theorem moreDirectories_ensureDirectory (t : FileTree) (path : String) :
    MoreDirectories t (t.ensureDirectory path).2 := by
  fun_induction ensureDirectory t path with
  | case1 path top => exact moreDirectories_makeOrKeep t path
  | case2 path above name split known => exact moreDirectories_makeOrKeep t path
  | case3 path above absent u made split shorter ih =>
    rw [made] at ih
    exact ih
  | case4 path above name split absent shorter u made named ih =>
    rw [made] at ih
    exact ih.trans (moreDirectories_makeOrKeep u path)
  | case5 path above name split absent shorter fault u other made ih =>
    rw [made] at ih
    exact ih
  | case6 path above absent u made split shorter ih =>
    rw [made] at ih
    exact ih
  | case7 path above name split absent shorter u made named ih =>
    rw [made] at ih
    exact ih.trans (moreDirectories_makeOrKeep u path)

end FileTree

end ScriptGlue
