import ScriptGlue.Text.CodePoint

/-! # Paths

Paths as texts: joining and splitting them, their components, their bytes, and whether they ask for
a directory.
-/

namespace ScriptGlue.Path

def longestName : Nat := 255

def longestPath : Nat := 4096

def isAbsolute (path : String) : Bool := path.startsWith "/"

def endsInSlash (path : String) : Bool := path.endsWith "/"

/-- A path below a directory; an absolute path stays what it is. -/
def join (directory path : String) : String :=
  if isAbsolute path then path
  else if directory = "" ∨ endsInSlash directory then directory ++ path
  else directory ++ "/" ++ path

def splitSlashes : List Char → List (List Char)
  | [] => [[]]
  | c :: rest =>
    if c = '/' then [] :: splitSlashes rest
    else
      match splitSlashes rest with
      | [] => [[c]]
      | part :: parts => (c :: part) :: parts

def parts (path : String) : List String :=
  ((splitSlashes path.toList).filter fun p => !p.isEmpty).map String.ofList

/-- Bytes of a code point in a path; half a pair stands for a byte or for nothing. -/
def pointBytes? (n : Nat) : Option (List UInt8) :=
  if 0xDC80 ≤ n ∧ n < 0xDD00 then some [UInt8.ofNat (n - 0xDC00)]
  else if Text.isHalf n then none
  else some (String.utf8EncodeChar (Char.ofNat n))

def bytes? (path : String) : Option (List UInt8) :=
  ((Text.codePoints path.toList).mapM pointBytes?).map List.flatten

def firstCharacter? (bytes : List UInt8) : Option (Char × Nat) :=
  [1, 2, 3, 4].findSome? fun n =>
    match (String.fromUTF8? ⟨(bytes.take n).toArray⟩).map String.toList with
    | some [c] => some (c, n)
    | _ => none

/-- Code points of bytes; a byte that belongs to no character is a half. -/
def pointsWithin : Nat → List UInt8 → List Nat
  | 0, _ => []
  | _ + 1, [] => []
  | fuel + 1, b :: rest =>
    match firstCharacter? (b :: rest) with
    | some (c, n) => c.toNat :: pointsWithin fuel ((b :: rest).drop n)
    | none => (0xDC00 + b.toNat) :: pointsWithin fuel rest

def nameOfBytes (bytes : List UInt8) : String := Text.ofCodePoints (pointsWithin bytes.length bytes)

/-- A name as a directory lists it: halves that spell a character are that character. -/
def listed (name : String) : String :=
  if (Text.codePoints name.toList).any Text.isHalf then ((bytes? name).map nameOfBytes).getD name
  else name

def size (name : String) : Nat := ((bytes? name).getD []).length

def ofParts (absolute : Bool) (parts : List String) : String :=
  (if absolute then "/" else "") ++ String.intercalate "/" parts

/-- What stands before the last slash and after it; what stands before loses the slashes at its end
unless it has nothing else. -/
def splitLast (path : List Char) : List Char × List Char :=
  let reversed := path.reverse
  let head := reversed.dropWhile (· ≠ '/')
  let bare := head.dropWhile (· = '/')
  ((if bare.isEmpty then head else bare).reverse, (reversed.takeWhile (· ≠ '/')).reverse)

theorem length_splitLast (path : List Char) :
    (splitLast path).1.length + (splitLast path).2.length ≤ path.length := by
  have parts := congrArg List.length
    (List.takeWhile_append_dropWhile (p := (· ≠ '/')) (l := path.reverse))
  have bare := (List.dropWhile_suffix (l := path.reverse.dropWhile (· ≠ '/')) (· = '/')).length_le
  simp only [List.length_append, List.length_reverse] at parts
  simp only [splitLast, List.length_reverse]
  split <;> omega

/-- The directory of a path and the name in it, where slashes at the end of the path count for
nothing; none for a name by itself and for the top. -/
def above? (path : String) : Option (String × String) :=
  let first := splitLast path.toList
  let (head, name) := if first.2.isEmpty then splitLast first.1 else first
  if head.isEmpty || name.isEmpty then none else some (String.ofList head, String.ofList name)

theorem length_above? {path head name : String} (h : above? path = some (head, name)) :
    head.length < path.length := by
  have outer := length_splitLast path.toList
  have inner := length_splitLast (splitLast path.toList).1
  unfold above? at h
  simp only at h
  split at h <;> split at h
  · cases h
  · next none_empty =>
    simp only [Option.some.injEq, Prod.mk.injEq] at h
    simp only [Bool.or_eq_true, List.isEmpty_iff, not_or] at none_empty
    have := List.length_pos_iff.2 none_empty.2
    rw [← h.1, String.length_ofList, ← String.length_toList]
    omega
  · cases h
  · next none_empty =>
    simp only [Option.some.injEq, Prod.mk.injEq] at h
    simp only [Bool.or_eq_true, List.isEmpty_iff, not_or] at none_empty
    have := List.length_pos_iff.2 none_empty.2
    rw [← h.1, String.length_ofList, ← String.length_toList]
    omega

def passed (path : String) : List String :=
  (List.range (parts path).length).map fun n =>
    ofParts (isAbsolute path) ((parts path).take (n + 1))

end ScriptGlue.Path
