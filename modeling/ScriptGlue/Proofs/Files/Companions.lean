import ScriptGlue.Files.Workspace
import ScriptGlue.Proofs.Files.Obstacles
import ScriptGlue.Proofs.Files.Spelling

/-! # Places of staged texts

The text for a path is staged in a file beside its own, which has the name of the file and an ending.
So it is never staged where the file is, and texts for different files are staged in different ones.
Where a text could be staged the file itself can be written, too, unless a directory is there.
-/
namespace ScriptGlue

namespace Path
open Text

theorem utf8EncodeChar_of_low {c : Char} {b : UInt8} (hb : b ∈ String.utf8EncodeChar c)
    (low : b.toNat < 128) : String.utf8EncodeChar c = [b] := by
  have value := mem_utf8EncodeChar hb low
  have small : c.val.toNat ≤ 127 := by
    show c.toNat ≤ 127
    omega
  unfold String.utf8EncodeChar at hb ⊢
  rw [if_pos small] at hb ⊢
  exact congrArg (fun x => [x]) (List.mem_singleton.1 hb).symm

theorem firstOf?_beyond {bytes : List UInt8} {n : Nat} (beyond : bytes.length < n)
    (h : firstOf? bytes bytes.length = none) : firstOf? bytes n = none := by
  unfold firstOf? at h ⊢
  rw [List.take_length] at h
  rw [List.take_of_length_le (Nat.le_of_lt beyond)]
  split at h
  · cases h
  · rfl

section
variable {x y : List UInt8} {n : Nat}

theorem firstOf?_append_beyond {b : UInt8} (some : x ≠ []) (low : b.toNat < 128)
    (beyond : x.length < n) : firstOf? (x ++ b :: y) n = none := by
  refine Option.eq_none_iff_forall_ne_some.2 fun found hfound => ?_
  obtain ⟨spelled, -⟩ := firstOf?_eq_some hfound
  rw [List.take_append, List.take_of_length_le (Nat.le_of_lt beyond),
    show n - x.length = (n - x.length - 1) + 1 by omega, List.take_succ_cons] at spelled
  have whole := utf8EncodeChar_of_low (b := b) (by rw [← spelled]; simp) low
  have lengths := congrArg List.length (spelled.trans whole)
  have := List.length_pos_iff.2 some
  simp only [List.length_append, List.length_cons, List.length_nil] at lengths
  omega

/-- The first character is the same whatever characters below 128 follow. -/
theorem firstCharacter?_append (some : x ≠ []) (low : ∀ b ∈ y, b.toNat < 128) :
    firstCharacter? (x ++ y) = firstCharacter? x := by
  have within (n : Nat) (h : n ≤ x.length) : firstOf? (x ++ y) n = firstOf? x n := by
    unfold firstOf?
    rw [List.take_append_of_le_length h]
  cases y with
  | nil => rw [List.append_nil]
  | cons b y =>
    have beyond (n : Nat) (h : x.length < n) : firstOf? (x ++ b :: y) n = none :=
      firstOf?_append_beyond some (low b List.mem_cons_self) h
    have known (n : Nat) (h : x.length < n) (absent : firstOf? x x.length = none) :
        firstOf? x n = none := firstOf?_beyond h absent
    have : 0 < x.length := List.length_pos_iff.2 some
    have long : x.length = 1 ∨ x.length = 2 ∨ x.length = 3 ∨ 4 ≤ x.length := by omega
    rw [firstCharacter?_eq, firstCharacter?_eq]
    simp only [List.findSome?]
    obtain length | length | length | length := long
    · rw [within 1 (by omega), beyond 2 (by omega), beyond 3 (by omega), beyond 4 (by omega)]
      rw [length] at known
      cases last : firstOf? x 1 with
      | none => rw [known 2 (by omega) last, known 3 (by omega) last, known 4 (by omega) last]
      | some found => rfl
    · rw [within 1 (by omega), within 2 (by omega), beyond 3 (by omega), beyond 4 (by omega)]
      rw [length] at known
      cases last : firstOf? x 2 with
      | none => rw [known 3 (by omega) last, known 4 (by omega) last]
      | some found => rfl
    · rw [within 1 (by omega), within 2 (by omega), within 3 (by omega), beyond 4 (by omega)]
      rw [length] at known
      cases last : firstOf? x 3 with
      | none => rw [known 4 (by omega) last]
      | some found => rfl
    · rw [within 1 (by omega), within 2 (by omega), within 3 (by omega), within 4 (by omega)]

theorem le_length_of_firstCharacter? {c : Char} (h : firstCharacter? x = some (c, n)) :
    n ≤ x.length := by
  have some : x ≠ [] := by
    rintro rfl
    cases h.symm.trans (by decide : firstCharacter? [] = none)
  rw [← firstCharacter?_append (y := [46]) some (by simp), firstCharacter?_eq] at h
  obtain ⟨m, -, found⟩ := List.exists_of_findSome?_eq_some h
  obtain ⟨-, rfl⟩ := firstOf?_eq_some found
  by_contra beyond
  cases found.symm.trans (firstOf?_append_beyond some (by decide) (Nat.lt_of_not_le beyond))

theorem pointsWithin_cons (fuel : Nat) (b : UInt8) (rest : List UInt8) :
    pointsWithin (fuel + 1) (b :: rest) = match firstCharacter? (b :: rest) with
      | some (c, n) => c.toNat :: pointsWithin fuel ((b :: rest).drop n)
      | none => (0xDC00 + b.toNat) :: pointsWithin fuel rest := rfl

theorem pointsWithin_of_low {fuel : Nat} (enough : y.length ≤ fuel)
    (low : ∀ b ∈ y, b.toNat < 128) : pointsWithin fuel y = y.map UInt8.toNat := by
  induction y generalizing fuel with
  | nil => cases fuel <;> rfl
  | cons b y ih =>
    obtain ⟨fuel, rfl⟩ : ∃ m, fuel = m + 1 := ⟨fuel - 1, by simp at enough; omega⟩
    obtain ⟨here, there⟩ := List.forall_mem_cons.1 low
    rw [pointsWithin_cons]
    cases found : firstCharacter? (b :: y) with
    | none =>
      have := le_of_firstCharacter?_eq_none found
      omega
    | some character =>
      obtain ⟨c, n⟩ := character
      obtain ⟨spelled, positive⟩ := firstCharacter?_eq_some found
      obtain ⟨n, rfl⟩ : ∃ m, n = m + 1 := ⟨n - 1, by omega⟩
      rw [List.take_succ_cons] at spelled
      have inside : b ∈ String.utf8EncodeChar c := by rw [← spelled]; simp
      have rest := List.cons.inj (spelled.trans (utf8EncodeChar_of_low inside here))
      have gone : y.drop n = y := by
        obtain rfl | rfl := List.take_eq_nil_iff.1 rest.2
        · rfl
        · exact List.drop_nil
      simp only [List.drop_succ_cons, gone, List.map_cons, mem_utf8EncodeChar inside here,
        ih (Nat.le_of_succ_le_succ enough) there]

theorem pointsWithin_append {fuel : Nat} (enough : x.length ≤ fuel)
    (low : ∀ b ∈ y, b.toNat < 128) :
    pointsWithin (fuel + y.length) (x ++ y) = pointsWithin fuel x ++ y.map UInt8.toNat := by
  induction fuel generalizing x with
  | zero =>
    obtain rfl := List.length_eq_zero_iff.1 (Nat.le_zero.1 enough)
    exact pointsWithin_of_low (Nat.le_add_left _ _) low
  | succ fuel ih =>
    cases x with
    | nil => exact pointsWithin_of_low (Nat.le_add_left _ _) low
    | cons b x =>
      have first := firstCharacter?_append (x := b :: x) (by simp) low
      rw [Nat.succ_add, List.cons_append, pointsWithin_cons, pointsWithin_cons,
        ← List.cons_append, first]
      cases found : firstCharacter? (b :: x) with
      | none => simp only [ih (Nat.le_of_succ_le_succ enough), List.cons_append]
      | some character =>
        obtain ⟨c, n⟩ := character
        have whole := le_length_of_firstCharacter? found
        have positive := (firstCharacter?_eq_some found).2
        have shorter : ((b :: x).drop n).length ≤ fuel := by
          rw [List.length_drop]
          omega
        simp only [← List.cons_append, List.drop_append_of_le_length whole, ih shorter]

end

/-- The name of a staged file is listed as that of the file with the ending. -/
theorem listed_append_tmp (name : String) : listed (name ++ ".tmp") = listed name ++ ".tmp" := by
  have free : ∀ c ∈ ".tmp".toList, Text.Free c := free_iff_all.2 (by decide)
  have points : codePoints (name ++ ".tmp").toList =
      codePoints name.toList ++ ".tmp".toList.map Char.toNat := by
    rw [String.toList_append, codePoints_append fun _ d hd => free d (List.mem_of_head? hd),
      codePoints_of_free free]
  have whole : (".tmp".toList.map Char.toNat).any isHalf = false := by decide
  unfold listed
  rw [points, List.any_append, whole, Bool.or_false]
  split
  · change ((bytesOf (name ++ ".tmp").toList).map nameOfBytes).getD _ =
      ((bytesOf name.toList).map nameOfBytes).getD _ ++ _
    rw [String.toList_append, bytesOf_append fun _ d hd => free d (List.mem_of_head? hd),
      bytesOf_of_free free]
    cases bytesOf name.toList with
    | none => rfl
    | some x =>
      have low : ∀ b ∈ ".tmp".toList.flatMap String.utf8EncodeChar, b.toNat < 128 :=
        List.forall_iff_forall_mem.1 (by decide)
      have tail : ofCodePoints ((".tmp".toList.flatMap String.utf8EncodeChar).map UInt8.toNat) =
          ".tmp" := by decide
      simp only [Option.bind_some, Option.map_some, Option.getD_some, nameOfBytes]
      rw [List.length_append, pointsWithin_append (Nat.le_refl _) low, ofCodePoints,
        List.flatMap_append, String.ofList_append]
      exact congrArg _ tail
  · rfl

theorem size_le_append_tmp (name : String) : size name ≤ size (name ++ ".tmp") := by
  have free : ∀ c ∈ ".tmp".toList, Text.Free c := free_iff_all.2 (by decide)
  change ((bytesOf name.toList).getD []).length ≤ ((bytesOf (name ++ ".tmp").toList).getD []).length
  rw [String.toList_append, bytesOf_append fun _ d hd => free d (List.mem_of_head? hd),
    bytesOf_of_free free]
  cases bytesOf name.toList <;> simp

theorem endsInSlash_iff {path : String} : endsInSlash path ↔ ∃ a, path.toList = a ++ ['/'] := by
  unfold endsInSlash
  rw [← String.endsWith_toSlice, String.Slice.endsWith_string_iff]
  exact exists_congr fun a => by simp [eq_comm]

theorem Cut.append {path h n a : List Char} (cut : Cut path h n) (bare : '/' ∉ a) :
    Cut (path ++ a) h (n ++ a) := by
  have both {n : List Char} (first : '/' ∉ n) : '/' ∉ n ++ a := by simp [first, bare]
  cases cut with
  | name first => exact .name (both first)
  | top slashes some first =>
    rw [List.append_assoc]
    exact .top slashes some (both first)
  | below ends slash first =>
    rw [List.append_assoc]
    exact .below ends slash (both first)

theorem Cut.endsInSlash_iff {path : String} {h n : List Char} (cut : Cut path.toList h n)
    (nonempty : path ≠ "") : endsInSlash path ↔ n = [] := by
  rw [Path.endsInSlash_iff]
  have some : path.toList ≠ [] := mt String.toList_eq_nil_iff.1 nonempty
  generalize path.toList = chars at cut some
  obtain ⟨before, split⟩ : ∃ before, chars = before ++ n := by
    cases cut
    exacts [⟨[], rfl⟩, ⟨_, rfl⟩, ⟨_, rfl⟩]
  constructor
  · rintro ⟨a, ends⟩
    obtain none | ⟨b, c, rfl⟩ := List.eq_nil_or_concat' n
    · exact none
    · rw [split, ← List.append_assoc] at ends
      have last : c = '/' := List.singleton_inj.1 (List.append_inj' ends rfl).2
      exact absurd (by simp [last]) cut.bare
  · rintro rfl
    have concat {slashes : List Char} (all : ∀ c ∈ slashes, c = '/') (some : slashes ≠ []) :
        ∃ a, slashes = a ++ ['/'] := by
      obtain ⟨a, c, rfl⟩ := (List.eq_nil_or_concat' slashes).resolve_left some
      exact ⟨a, by rw [all c (by simp)]⟩
    cases cut with
    | name => exact absurd rfl some
    | top slashes some =>
      rw [List.append_nil]
      exact concat slashes (by assumption)
    | below ends slash =>
      obtain ⟨a, same⟩ := concat (List.forall_mem_cons.2 ⟨rfl, slash⟩) (List.cons_ne_nil _ _)
      exact ⟨_ ++ a, by rw [List.append_nil, same, List.append_assoc]⟩

/-- The text of a path that ends in a slash is staged under no name, and else under the last name of
the path. -/
theorem names_stagedPath {path : String} (nonempty : path ≠ "") :
    endsInSlash path = true ∧ names (Workspace.stagedPath path) = names path ++ [".tmp"] ∨
      endsInSlash path = false ∧ ∃ init name, names path = init ++ [name] ∧
        names (Workspace.stagedPath path) = init ++ [name ++ ".tmp"] := by
  have bare : '/' ∉ ".tmp".toList := by decide
  have cut := cut_splitLast path.toList
  generalize (splitLast path.toList).1 = h at cut
  generalize (splitLast path.toList).2 = n at cut
  have short := cut.pieces_eq
  have long := (cut.append bare).pieces_eq
  rw [pieces_of_no_slash cut.bare] at short
  rw [pieces_of_no_slash (cut.append bare).bare, if_neg (by simp), ← String.toList_append] at long
  have long : names (Workspace.stagedPath path) = (pieces h).map (fun p => listed (.ofList p)) ++
      [listed (String.ofList n) ++ ".tmp"] := by
    rw [← listed_append_tmp, names, parts_eq, Workspace.stagedPath, long]
    simp [String.ofList_append]
  cases n with
  | nil =>
    refine .inl ⟨(cut.endsInSlash_iff nonempty).2 rfl, ?_⟩
    rw [long, names, parts_eq, short]
    have unnamed : listed (String.ofList []) ++ ".tmp" = ".tmp" := by decide
    rw [unnamed]
    simp
  | cons c n =>
    refine .inr ⟨Bool.eq_false_iff.2 fun slash => ?_, _, listed (.ofList (c :: n)), ?_, long⟩
    · cases (cut.endsInSlash_iff nonempty).1 slash
    · rw [names, parts_eq, short]
      simp

theorem origin_stagedPath {path : String} (nonempty : path ≠ "") :
    origin (Workspace.stagedPath path) = origin path := by
  have free : Text.Free '.' := by decide
  exact (origin_of_goesOn ⟨".tmp".toList, String.toList_append, fun _ => by simpa using free⟩
    nonempty).symm

theorem not_dots_append_tmp (name : String) : ¬(name ++ ".tmp" = "." ∨ name ++ ".tmp" = "..") := by
  rintro (same | same) <;>
  · have last := congrArg (fun word => word.toList.getLast?) same
    simp [String.toList_append] at last

theorem location_of_names {path name : String} {init : List String}
    (split : names path = init ++ [name]) :
    location? path = if name = "." ∨ name = ".." then none
      else some (init.foldl step (origin path) ++ [name]) := by
  rw [location?, destination, split, landing_concat]
  by_cases dots : name = "." ∨ name = ".."
  · rw [if_pos dots, if_pos dots]
  · rw [if_neg dots, if_neg dots]

/-- The text for a file is staged beside it, under the name of the file with the ending. Where a
directory is meant it is staged in there. -/
theorem location_stagedPath {path : String} {loc : Location} (located : location? path = some loc) :
    endsInSlash path = true ∧ location? (Workspace.stagedPath path) = some (loc ++ [".tmp"]) ∨
      endsInSlash path = false ∧ ∃ init name, loc = init ++ [name] ∧
        location? (Workspace.stagedPath path) = some (init ++ [name ++ ".tmp"]) := by
  have nonempty : path ≠ "" := by
    rintro rfl
    cases located
  obtain ⟨slash, staged⟩ | ⟨slash, init, name, short, staged⟩ := names_stagedPath nonempty
  · refine .inl ⟨slash, ?_⟩
    obtain none | ⟨init, name, split⟩ := List.eq_nil_or_concat' (names path)
    · rw [location?, destination, none] at located
      cases located
    · rw [location_of_names split] at located
      split at located
      · cases located
      · next plain =>
        rw [location_of_names staged, if_neg (by decide), origin_stagedPath nonempty, split,
          List.foldl_append, List.foldl_cons, List.foldl_nil, step, if_neg (plain ∘ .inl),
          if_neg (plain ∘ .inr), Option.some_inj.1 located]
  · refine .inr ⟨slash, init.foldl step (origin path), name, ?_, ?_⟩
    · rw [location_of_names short] at located
      split at located
      · cases located
      · exact (Option.some_inj.1 located).symm
    · rw [location_of_names staged, if_neg (not_dots_append_tmp name), origin_stagedPath nonempty]

theorem location_stagedPath_of_file {t : FileTree} {path : String} {loc : Location}
    (placed : t.place path = .ok (.entry loc false)) : ∃ init name, loc = init ++ [name] ∧
      location? (Workspace.stagedPath path) = some (init ++ [name ++ ".tmp"]) := by
  obtain ⟨slash, -⟩ | ⟨-, beside⟩ := location_stagedPath (FileTree.location_of_place placed)
  · have destination := FileTree.place_eq_ok placed
    rw [Path.destination, slash] at destination
    obtain none | ⟨init, name, split⟩ := List.eq_nil_or_concat' (names path)
    · rw [none] at destination
      cases destination
    · rw [split, landing_concat] at destination
      split at destination <;> cases destination
  · exact beside

theorem location_stagedPath_ne {path : String} {loc : Location}
    (located : location? path = some loc) : location? (Workspace.stagedPath path) ≠ some loc := by
  intro staged
  obtain ⟨-, there⟩ | ⟨-, init, name, rfl, there⟩ := location_stagedPath located
  · simpa using congrArg List.length (Option.some_inj.1 (staged.symm.trans there))
  · have same := List.append_cancel_left (Option.some_inj.1 (staged.symm.trans there))
    simpa using congrArg String.length (List.singleton_inj.1 same)

end Path

namespace FileTree
open ScriptGlue.Path
variable {t : FileTree} {path : String} {a : Location} {asDirectory : Bool}

/-- Where the text for a path can be staged, and no directory is at the path, the path leads to a
file that can be written. -/
theorem place_of_staged (staged : t.place (Workspace.stagedPath path) = .ok (.entry a asDirectory))
    (nonempty : path ≠ "") (file : t.read path ≠ .error .isDirectory) :
    ∃ b, t.place path = .ok (.entry b false) ∧ t.lookup b ≠ some .directory := by
  have free : ∀ c ∈ ".tmp".toList, Text.Free c := free_iff_all.2 (by decide)
  have goesOn : GoesOn path.toList (Workspace.stagedPath path).toList :=
    ⟨".tmp".toList, String.toList_append, fun _ d hd => free d (List.mem_of_head? hd)⟩
  have unread (loc : Location) : t.place path ≠ .ok (.directory loc) := fun placed =>
    file (by simp [read, placed, Bind.bind, Except.bind, throw, throwThe, MonadExceptOf.throw])
  have unlisted {b : Location} {flag : Bool} (placed : t.place path = .ok (.entry b flag)) :
      t.lookup b ≠ some .directory := fun there =>
    file (by simp [read, placed, there, Bind.bind, Except.bind, throw, throwThe,
      MonadExceptOf.throw])
  obtain ⟨usable, passed⟩ := directories_of_place staged
  rw [origin_stagedPath nonempty] at passed
  obtain ⟨slash, names⟩ | ⟨slash, init, name, short, names⟩ := names_stagedPath nonempty
  · -- the last name is that of a directory, too
    rw [names, List.dropLast_concat] at passed
    have usable := usable.of_goesOn goesOn nonempty (names ▸ List.subset_append_left _ _)
    have walked := place_of_usable (t := t) usable
    obtain none | ⟨init, name, split⟩ := List.eq_nil_or_concat' (Path.names path)
    · rw [none] at walked
      exact absurd walked (unread _)
    · have short := usable.short
      rw [split] at walked short passed
      rw [steps_concat] at passed
      rw [walk_of_directories short (by rw [List.dropLast_concat]; exact passed.left),
        landing_concat] at walked
      by_cases dots : name = "." ∨ name = ".."
      · rw [if_pos dots] at walked
        exact absurd walked (unread _)
      · rw [if_neg dots] at walked passed
        exact absurd (passed.right _ (List.mem_singleton_self _)) (unlisted walked)
  · have shorter : ∀ part ∈ Path.names path, size part ≤ longestName := by
      rw [short]
      refine List.forall_mem_append.2 ⟨fun part hpart => usable.short part ?_, ?_⟩
      · exact names ▸ List.mem_append_left _ hpart
      · exact List.forall_mem_singleton.2 ((size_le_append_tmp name).trans
          (usable.short _ (names ▸ List.mem_append_right _ (List.mem_singleton_self _))))
    have walked := place_of_usable (t := t) (usable.of_short goesOn nonempty shorter)
    rw [names, List.dropLast_concat] at passed
    rw [short] at walked shorter
    rw [walk_of_directories shorter (by rw [List.dropLast_concat]; exact passed), landing_concat,
      slash] at walked
    by_cases dots : name = "." ∨ name = ".."
    · rw [if_pos dots] at walked
      exact absurd walked (unread _)
    · rw [if_neg dots] at walked
      exact ⟨_, walked, unlisted walked⟩

end FileTree
end ScriptGlue
