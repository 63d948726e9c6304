import Mathlib.Data.List.TakeWhile
import ScriptGlue.Proofs.Files.Bytes

/-! # Names that are listed alike

The name that a directory lists for a name has the same bytes, so two names that are listed alike
have the same bytes, or are the same if they have none. The names of units start with a word
without a dot; such names are listed alike only if they are the same.
-/
namespace ScriptGlue
open Text

theorem utf8EncodeChar_flatMap_injective {a b : List Char}
    (h : a.flatMap String.utf8EncodeChar = b.flatMap String.utf8EncodeChar) : a = b := by
  have bytes : (String.ofList a).toByteArray = (String.ofList b).toByteArray := by
    rw [String.toByteArray_ofList, String.toByteArray_ofList, List.utf8Encode, List.utf8Encode, h]
  simpa using congrArg String.toList (String.toByteArray_inj.1 bytes)

theorem pointBytes?_char (c : Char) : Path.pointBytes? c.toNat = some (String.utf8EncodeChar c) := by
  have valid : c.toNat < 0xD800 ∨ 0xDFFF < c.toNat := c.valid.imp_right And.left
  have notHalf : isHalf c.toNat = false := by
    simp only [isHalf, Bool.and_eq_false_iff, decide_eq_false_iff_not]
    omega
  rw [Path.pointBytes?, if_neg (by omega), notHalf, if_neg Bool.false_ne_true, Char.ofNat_toNat]

theorem bytesOf_of_free {a : List Char} (h : ∀ c ∈ a, Free c) :
    Path.bytesOf a = some (a.flatMap String.utf8EncodeChar) := by
  have each : (a.map Char.toNat).mapM Path.pointBytes? = some (a.map String.utf8EncodeChar) := by
    induction a with
    | nil => rfl
    | cons c a ih =>
      rw [List.map_cons, List.mapM_cons, pointBytes?_char,
        ih fun d hd => h d (List.mem_cons_of_mem _ hd)]
      rfl
  rw [Path.bytesOf, codePoints_of_free h, each, Option.map_some, List.flatMap_def]

theorem mem_utf8EncodeChar {c : Char} {b : UInt8} (hb : b ∈ String.utf8EncodeChar c)
    (low : b.toNat < 128) : c.toNat = b.toNat := by
  have byte {n : Nat} (hn : n < 256) : (UInt8.ofNat n).toNat = n := by
    rw [UInt8.toNat_ofNat', Nat.mod_eq_of_lt hn]
  have high {n : Nat} (ge : 128 ≤ n) (lt : n < 256) (hb : b = UInt8.ofNat n) : c.toNat = b.toNat := by
    rw [hb, byte lt] at low
    omega
  unfold String.utf8EncodeChar at hb
  dsimp only at hb
  split at hb
  · next small =>
    rw [List.mem_singleton.1 hb, byte (by omega)]
    rfl
  · obtain ⟨n, ge, lt, hn⟩ : ∃ n, 128 ≤ n ∧ n < 256 ∧ b = UInt8.ofNat n := by
      split at hb
      · obtain hb | hb := List.mem_cons.1 hb
        · exact ⟨_, by omega, by omega, hb⟩
        · exact ⟨_, by omega, by omega, List.mem_singleton.1 hb⟩
      · split at hb
        · obtain hb | hb := List.mem_cons.1 hb
          · exact ⟨_, by omega, by omega, hb⟩
          obtain hb | hb := List.mem_cons.1 hb
          · exact ⟨_, by omega, by omega, hb⟩
          · exact ⟨_, by omega, by omega, List.mem_singleton.1 hb⟩
        · obtain hb | hb := List.mem_cons.1 hb
          · exact ⟨_, by omega, by omega, hb⟩
          obtain hb | hb := List.mem_cons.1 hb
          · exact ⟨_, by omega, by omega, hb⟩
          obtain hb | hb := List.mem_cons.1 hb
          · exact ⟨_, by omega, by omega, hb⟩
          · exact ⟨_, by omega, by omega, List.mem_singleton.1 hb⟩
    exact high ge lt hn

namespace Path

/-- The character that the first bytes of some are, if they are one. -/
def firstOf? (bytes : List UInt8) (n : Nat) : Option (Char × Nat) :=
  match (String.fromUTF8? ⟨(bytes.take n).toArray⟩).map String.toList with
  | some [c] => some (c, n)
  | _ => none

theorem firstCharacter?_eq (bytes : List UInt8) :
    firstCharacter? bytes = [1, 2, 3, 4].findSome? (firstOf? bytes) := rfl

theorem firstOf?_eq_some {bytes : List UInt8} {n : Nat} {found : Char × Nat}
    (h : firstOf? bytes n = some found) :
    bytes.take n = String.utf8EncodeChar found.1 ∧ found.2 = n := by
  unfold firstOf? at h
  split at h
  · next c spelled =>
    cases h
    obtain ⟨word, hword, characters⟩ := Option.map_eq_some_iff.1 spelled
    have spelled : word.toByteArray = ⟨(bytes.take n).toArray⟩ := by
      unfold String.fromUTF8? at hword
      split at hword <;> cases hword
      rfl
    have single : word = String.ofList [c] := by rw [← characters, String.ofList_toList]
    rw [single, String.toByteArray_ofList] at spelled
    have data := congrArg (fun a => a.data.toList) spelled
    exact ⟨by simpa [List.utf8Encode] using data.symm, rfl⟩
  · cases h

theorem firstCharacter?_eq_some {bytes : List UInt8} {c : Char} {n : Nat}
    (h : firstCharacter? bytes = some (c, n)) : bytes.take n = String.utf8EncodeChar c ∧ 0 < n := by
  obtain ⟨k, among, hk⟩ := List.exists_of_findSome?_eq_some h
  obtain ⟨spelled, rfl⟩ := firstOf?_eq_some hk
  refine ⟨spelled, ?_⟩
  simp only [List.mem_cons, List.not_mem_nil, or_false] at among
  omega

theorem le_of_firstCharacter?_eq_none {b : UInt8} {rest : List UInt8}
    (h : firstCharacter? (b :: rest) = none) : 128 ≤ b.toNat := by
  by_contra low
  have value : (Char.ofNat b.toNat).toNat = b.toNat :=
    toNat_ofNat_of_valid (.inl (by omega))
  have code : String.utf8EncodeChar (Char.ofNat b.toNat) = [b] := by
    have small : (Char.ofNat b.toNat).val.toNat ≤ 127 := by
      show (Char.ofNat b.toNat).toNat ≤ 127
      omega
    unfold String.utf8EncodeChar
    rw [if_pos small]
    show [UInt8.ofNat (Char.ofNat b.toNat).toNat] = [b]
    rw [value, UInt8.ofNat_toNat]
  have spelled : (String.fromUTF8? ⟨((b :: rest).take 1).toArray⟩).map String.toList =
      some [Char.ofNat b.toNat] := by
    have bytes : (⟨((b :: rest).take 1).toArray⟩ : ByteArray) =
        (String.ofList [Char.ofNat b.toNat]).toByteArray := by
      rw [String.toByteArray_ofList, List.utf8Encode, List.flatMap_singleton, code]
      rfl
    have valid := (String.ofList [Char.ofNat b.toNat]).isValidUTF8
    rw [bytes, String.fromUTF8?, dif_pos valid]
    have same : String.fromUTF8 _ valid = String.ofList [Char.ofNat b.toNat] :=
      String.toByteArray_inj.1 rfl
    rw [same, Option.map_some, String.toList_ofList]
  have found := List.findSome?_eq_none_iff.1 h 1 (by simp)
  rw [spelled] at found
  cases found

theorem pointsWithin_bytes {fuel : Nat} {bytes : List UInt8} (enough : bytes.length ≤ fuel) :
    ((pointsWithin fuel bytes).mapM pointBytes?).map List.flatten = some bytes ∧
      ∀ n ∈ pointsWithin fuel bytes, n.isValidChar ∨ isHalf n := by
  induction fuel generalizing bytes with
  | zero =>
    obtain rfl := List.length_eq_zero_iff.1 (Nat.le_zero.1 enough)
    exact ⟨rfl, fun _ h => absurd h List.not_mem_nil⟩
  | succ fuel ih =>
    have step {n : Nat} {code rest : List UInt8} (point : pointBytes? n = some code)
        (good : n.isValidChar ∨ isHalf n) (short : rest.length ≤ fuel) :
        ((n :: pointsWithin fuel rest).mapM pointBytes?).map List.flatten = some (code ++ rest) ∧
          ∀ m ∈ n :: pointsWithin fuel rest, m.isValidChar ∨ isHalf m := by
      obtain ⟨same, all⟩ := ih short
      obtain ⟨codes, hcodes, rfl⟩ := Option.map_eq_some_iff.1 same
      exact ⟨by rw [List.mapM_cons, point, hcodes]; rfl, List.forall_mem_cons.2 ⟨good, all⟩⟩
    cases bytes with
    | nil => exact ⟨rfl, fun _ h => absurd h List.not_mem_nil⟩
    | cons b rest =>
      unfold pointsWithin
      split
      · next c n first =>
        obtain ⟨code, positive⟩ := firstCharacter?_eq_some first
        have short : ((b :: rest).drop n).length ≤ fuel := by
          rw [List.length_drop]
          simp only [List.length_cons] at enough ⊢
          omega
        have split := List.take_append_drop n (b :: rest)
        rw [code] at split
        have whole := step (pointBytes?_char c) (.inl c.valid) short
        rwa [split] at whole
      · next none =>
        have high := le_of_firstCharacter?_eq_none none
        have below := b.toNat_lt
        have half : pointBytes? (0xDC00 + b.toNat) = some [b] := by
          rw [pointBytes?, if_pos (by omega), Nat.add_sub_cancel_left, UInt8.ofNat_toNat]
        refine step half (.inr ?_) (Nat.le_of_succ_le_succ enough)
        simp only [isHalf, Bool.and_eq_true, decide_eq_true_eq]
        omega

theorem bytes?_nameOfBytes (bytes : List UInt8) : bytes? (nameOfBytes bytes) = some bytes := by
  obtain ⟨same, good⟩ := pointsWithin_bytes (Nat.le_refl bytes.length)
  rw [bytes?, nameOfBytes, ofCodePoints, String.toList_ofList, codePoints_flatMap_keep good]
  exact same

theorem bytes?_listed (name : String) : bytes? (listed name) = bytes? name := by
  unfold listed
  split
  · cases bytes : bytes? name with
    | none => exact bytes
    | some z => exact bytes?_nameOfBytes z
  · rfl

theorem listed_inj {a b : String} (h : listed a = listed b) : a = b ∨
    ∃ z, bytes? a = some z ∧ bytes? b = some z := by
  have same : bytes? a = bytes? b := by rw [← bytes?_listed, h, bytes?_listed]
  cases bytes : bytes? a with
  | some z => exact .inr ⟨z, rfl, same ▸ bytes⟩
  | none =>
    have plain {name : String} (none : bytes? name = none) : listed name = name := by
      unfold listed
      rw [none]
      split <;> rfl
    rw [plain bytes, plain (same ▸ bytes)] at h
    exact .inl h

end Path

/-- A name of something declared: characters that stand for themselves, none of them a dot or a
slash. -/
structure IsWord (word : String) : Prop where
  nonempty : word ≠ ""
  free : ∀ c ∈ word.toList, Free c
  dot : '.' ∉ word.toList
  slash : '/' ∉ word.toList

instance : DecidablePred Free := fun c =>
  inferInstanceAs (Decidable ¬(Text.isStandIn c.toNat ∨ c = mark))

/-- Of a list it is decided by its items; there is an instance that goes through all characters. -/
theorem free_iff_all {text : List Char} : (∀ c ∈ text, Free c) ↔ text.all (fun c => Free c) = true := by
  simp

instance : DecidablePred IsWord := fun word =>
  decidable_of_iff (word ≠ "" ∧ word.toList.all (fun c => Free c) = true ∧ '.' ∉ word.toList ∧
      '/' ∉ word.toList)
    ⟨fun ⟨nonempty, free, dot, slash⟩ => ⟨nonempty, free_iff_all.2 free, dot, slash⟩,
      fun h => ⟨h.nonempty, free_iff_all.1 h.free, h.dot, h.slash⟩⟩

section
variable {α : Type} [DecidableEq α] {dot : α}

/-- What an item splits a list into, with the item as the first of the rest. -/
theorem eq_of_append_at {a b r q : List α} (ha : dot ∉ a) (hb : dot ∉ b)
    (hr : ∀ x ∈ r.head?, x = dot) (hq : ∀ x ∈ q.head?, x = dot) (h : a ++ r = b ++ q) :
    a = b ∧ r = q := by
  have cut {a r : List α} (ha : dot ∉ a) (hr : ∀ x ∈ r.head?, x = dot) :
      (a ++ r).takeWhile (· ≠ dot) = a := by
    have all : ∀ x ∈ a, decide (x ≠ dot) = true := fun x hx =>
      decide_eq_true fun same => ha (same ▸ hx)
    rw [List.takeWhile_append_of_pos all]
    cases r with
    | nil => simp
    | cons x r => simp [hr x rfl]
  have first : a = b := by rw [← cut ha hr, h, cut hb hq]
  subst first
  exact ⟨rfl, List.append_cancel_left h⟩

theorem exists_cut (dot : α) (rest : List α) :
    ∃ w v, rest = w ++ v ∧ dot ∉ w ∧ ∀ x ∈ v.head?, x = dot := by
  refine ⟨rest.takeWhile (· ≠ dot), rest.dropWhile (· ≠ dot),
    (List.takeWhile_append_dropWhile (p := (· ≠ dot))).symm, fun mem => ?_, fun x hx => ?_⟩
  · simpa using List.mem_takeWhile_imp mem
  · have first := List.head?_dropWhile_not (p := (· ≠ dot)) (l := rest)
    rw [Option.mem_def] at hx
    rw [hx] at first
    simpa using first

/-- A dotless word, then a mark that starts with a dot or another dotless word, then what all have
in common, and perhaps a tail that is shorter than the mark: these can be told apart. -/
theorem eq_of_marked (dot : α) {mark word tail rest : List α} (hmark : mark.head? = some dot)
    (hword : dot ∉ word) (htail : tail.head? = some dot) (short : tail.length < mark.length)
    {marked marked' tailed tailed' : Bool} {a b : List α} (ha : dot ∉ a) (hb : dot ∉ b)
    (h : a ++ ((if marked then mark else word) ++ (rest ++ if tailed then tail else [])) =
      b ++ ((if marked' then mark else word) ++ (rest ++ if tailed' then tail else []))) :
    a = b ∧ marked = marked' ∧ tailed = tailed' := by
  obtain ⟨w, v, rfl, hw, hv⟩ := exists_cut dot rest
  have head (tailed : Bool) : ∀ x ∈ (if tailed then tail else []).head?, x = dot := by
    cases tailed <;> simp [htail]
  -- The first dot is that of the mark, or lies in what all have in common.
  have cut {a : List α} (ha : dot ∉ a) (marked tailed : Bool) : ∃ p q,
      a ++ ((if marked then mark else word) ++ ((w ++ v) ++ if tailed then tail else [])) = p ++ q ∧
        dot ∉ p ∧ (∀ x ∈ q.head?, x = dot) ∧
        if marked then p = a ∧ q = mark ++ ((w ++ v) ++ if tailed then tail else [])
        else p = a ++ (word ++ w) ∧ q = v ++ if tailed then tail else [] := by
    cases marked with
    | true => exact ⟨a, _, rfl, ha, by simp [List.head?_append, hmark], rfl, rfl⟩
    | false =>
      refine ⟨a ++ (word ++ w), v ++ if tailed then tail else [], by simp, by simp [ha, hword, hw],
        ?_, rfl, rfl⟩
      cases v with
      | nil => exact head tailed
      | cons x v => exact hv
  obtain ⟨p, q, first, hp, hq, one⟩ := cut ha marked tailed
  obtain ⟨p', q', second, hp', hq', other⟩ := cut hb marked' tailed'
  obtain ⟨rfl, rfl⟩ := eq_of_append_at hp hp' hq hq' (first.symm.trans (h.trans second))
  have tails {x : List α} (same : x ++ (if tailed then tail else []) =
      x ++ if tailed' then tail else []) : tailed = tailed' := by
    have some : tail ≠ [] := fun none => by rw [none] at htail; cases htail
    have same := List.append_cancel_left same
    cases tailed <;> cases tailed'
    · rfl
    · exact absurd same.symm some
    · exact absurd same some
    · rfl
  have lengths (tailed : Bool) : (if tailed then tail else []).length ≤ tail.length := by
    cases tailed <;> simp
  have := lengths tailed
  have := lengths tailed'
  cases marked <;> cases marked' <;> simp only [Bool.false_eq_true, ↓reduceIte] at one other
  · obtain ⟨rfl, rfl⟩ := one
    exact ⟨List.append_cancel_right other.1, rfl, tails other.2⟩
  · have long := congrArg List.length (one.2.symm.trans other.2)
    simp only [List.length_append] at long
    omega
  · have long := congrArg List.length (one.2.symm.trans other.2)
    simp only [List.length_append] at long
    omega
  · obtain ⟨rfl, rfl⟩ := one
    exact ⟨other.1, rfl, tails (x := w ++ v) (List.append_cancel_left other.2)⟩

end

def unitName (ofType staged : Bool) (word extension : String) : String :=
  word ++ ((if ofType then ".generated" else "Module") ++
    (extension ++ if staged then ".tmp" else ""))

theorem bytes?_unitName {ofType staged : Bool} {word extension : String} {z : List UInt8}
    (h : IsWord word) (bytes : Path.bytes? (unitName ofType staged word extension) = some z) :
    ∃ e, Path.bytesOf extension.toList = some e ∧ z = word.toList.flatMap String.utf8EncodeChar ++
      ((if ofType then ".generated".toList.flatMap String.utf8EncodeChar
        else "Module".toList.flatMap String.utf8EncodeChar) ++
      (e ++ if staged then ".tmp".toList.flatMap String.utf8EncodeChar else [])) := by
  have unmarked {a : List Char} (free : ∀ c ∈ a, Free c) (last : a.getLast? = some mark) : False :=
    free mark (List.mem_of_getLast? last) (.inr rfl)
  change Path.bytesOf (unitName ofType staged word extension).toList = some z at bytes
  rw [unitName, String.toList_append, Path.bytesOf_append_eq_some fun last =>
    (unmarked h.free last).elim, bytesOf_of_free h.free] at bytes
  obtain ⟨_, rest, ⟨⟩, bytes, rfl⟩ := bytes
  have middle (ofType : Bool) : ∀ c ∈ (if ofType then ".generated" else "Module").toList, Free c :=
    free_iff_all.2 (by cases ofType <;> decide)
  have tail (staged : Bool) : ∀ c ∈ (if staged then ".tmp" else "").toList, Free c :=
    free_iff_all.2 (by cases staged <;> decide)
  rw [String.toList_append, Path.bytesOf_append_eq_some fun last =>
    (unmarked (middle ofType) last).elim, bytesOf_of_free (middle ofType)] at bytes
  obtain ⟨_, rest, ⟨⟩, bytes, rfl⟩ := bytes
  rw [String.toList_append, Path.bytesOf_append_eq_some fun _ d hd =>
    tail staged d (List.mem_of_head? hd), bytesOf_of_free (tail staged)] at bytes
  obtain ⟨e, _, he, ⟨⟩, rfl⟩ := bytes
  exact ⟨e, he, by cases ofType <;> cases staged <;> rfl⟩

/-- Such names are listed alike only if they are of one sort and start with the same word. -/
theorem unitName_inj {ofType ofType' staged staged' : Bool} {a b extension : String}
    (ha : IsWord a) (hb : IsWord b)
    (h : Path.listed (unitName ofType staged a extension) =
      Path.listed (unitName ofType' staged' b extension)) :
    a = b ∧ ofType = ofType' ∧ staged = staged' := by
  obtain same | ⟨z, first, second⟩ := Path.listed_inj h
  · have chars := congrArg String.toList same
    have inner : ∀ c : Bool, (if c then ".generated" else "Module").toList =
        if c then ".generated".toList else "Module".toList := by decide
    have ending : ∀ c : Bool, (if c then ".tmp" else "").toList =
        if c then ".tmp".toList else [] := by decide
    simp only [unitName, String.toList_append, inner, ending] at chars
    obtain ⟨word, rest⟩ := eq_of_marked '.' rfl (by decide) rfl (by decide) ha.dot hb.dot
      chars
    exact ⟨String.toList_injective word, rest⟩
  · obtain ⟨e, he, whole⟩ := bytes?_unitName ha first
    obtain ⟨e', he', whole'⟩ := bytes?_unitName hb second
    cases he.symm.trans he'
    have dotless {word : String} (h : IsWord word) :
        (46 : UInt8) ∉ word.toList.flatMap String.utf8EncodeChar := by
      intro mem
      obtain ⟨c, hc, mem⟩ := List.mem_flatMap.1 mem
      have value := mem_utf8EncodeChar mem (by decide)
      exact h.dot (Char.toNat_inj.1 (value.trans (by decide : _ = '.'.toNat)) ▸ hc)
    obtain ⟨word, rest⟩ := eq_of_marked (46 : UInt8) (by decide) (by decide) (by decide)
      (by decide) (dotless ha) (dotless hb) (whole.symm.trans whole')
    exact ⟨String.toList_injective (utf8EncodeChar_flatMap_injective word), rest⟩

end ScriptGlue
