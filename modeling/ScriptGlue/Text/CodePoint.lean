import ScriptGlue.Text.Hexadecimal

/-! # Texts with halves of pairs

A document may hold half of a pair of code units that stands alone. It is a code point and no
character, so a text keeps it as a stand-in, a character of a block without letters; a character
that could be taken for a stand-in is kept behind a mark. `codePoints` reads a kept text back
(`codePoints_flatMap_keep`). All texts of the program are kept so; a file holds characters, and
`characters?` and `ofCharacters` lead there and back.
-/

namespace ScriptGlue.Text

def isHalf (n : Nat) : Bool := 0xD800 ≤ n && n < 0xE000

def standInDistance : Nat := 0xD0000

def isStandIn (n : Nat) : Bool := 0xDD800 ≤ n && n < 0xDE000

/-- Stands before a character that could be taken for a stand-in, and before itself. -/
def mark : Char := Char.ofNat 0xDD7FF

def keep (n : Nat) : List Char :=
  if isHalf n then [Char.ofNat (n + standInDistance)]
  else if isStandIn n || n = mark.toNat then [mark, Char.ofNat n]
  else [Char.ofNat n]

def pointOf (c : Char) : Nat := if isStandIn c.toNat then c.toNat - standInDistance else c.toNat

/-- Code points of a kept text. A mark that stands before no character that needs one is itself. -/
def codePoints : List Char → List Nat
  | [] => []
  | [c] => [pointOf c]
  | c :: d :: rest =>
    if c = mark ∧ (isStandIn d.toNat ∨ d = mark) then d.toNat :: codePoints rest
    else pointOf c :: codePoints (d :: rest)

theorem codePoints_cons {c : Char} (h : c ≠ mark) (rest : List Char) :
    codePoints (c :: rest) = pointOf c :: codePoints rest := by
  cases rest with
  | nil => rfl
  | cons d rest => rw [codePoints, if_neg fun marked => h marked.1]

theorem toNat_ofNat_of_valid {n : Nat} (h : n.isValidChar) : (Char.ofNat n).toNat = n := by
  have made : Char.ofNat n = Char.ofNatAux n h := dif_pos h
  rw [made]
  rfl

theorem codePoints_keep {n : Nat} (h : n.isValidChar ∨ isHalf n) (rest : List Char) :
    codePoints (keep n ++ rest) = n :: codePoints rest := by
  have hmark : mark.toNat = 0xDD7FF := by decide
  unfold keep
  split
  · next half =>
    simp only [isHalf, Bool.and_eq_true, decide_eq_true_eq] at half
    have valid : (n + standInDistance).isValidChar := by
      right; unfold standInDistance; omega
    have value := toNat_ofNat_of_valid valid
    have other : Char.ofNat (n + standInDistance) ≠ mark := fun e => by
      rw [e, hmark] at value; unfold standInDistance at value; omega
    have standIn : isStandIn (n + standInDistance) = true := by
      unfold standInDistance isStandIn; simp; omega
    rw [List.singleton_append, codePoints_cons other, pointOf, value, if_pos standIn,
      Nat.add_sub_cancel]
  · next notHalf =>
    have valid : n.isValidChar := h.resolve_right notHalf
    have value := toNat_ofNat_of_valid valid
    split
    · next marked =>
      have needed : isStandIn (Char.ofNat n).toNat ∨ Char.ofNat n = mark := by
        rw [value]
        obtain marked | marked := Bool.or_eq_true_iff.1 marked
        · exact .inl marked
        · exact .inr (by rw [of_decide_eq_true marked, Char.ofNat_toNat])
      show codePoints (mark :: Char.ofNat n :: rest) = _
      rw [codePoints, if_pos ⟨rfl, needed⟩, value]
    · next plain =>
      simp only [Bool.or_eq_true, decide_eq_true_eq, not_or] at plain
      have other : Char.ofNat n ≠ mark := fun e => plain.2 (by rw [← value, e])
      rw [List.singleton_append, codePoints_cons other, pointOf, value, if_neg plain.1]

theorem codePoints_flatMap_keep {ns : List Nat} (h : ∀ n ∈ ns, n.isValidChar ∨ isHalf n) :
    codePoints (ns.flatMap keep) = ns := by
  induction ns with
  | nil => rfl
  | cons n rest ih =>
    rw [List.flatMap_cons, codePoints_keep (h n List.mem_cons_self),
      ih fun m hm => h m (List.mem_cons_of_mem _ hm)]

def ofCodePoints (ns : List Nat) : String := String.ofList (ns.flatMap keep)

def ofCharacters (s : String) : String := ofCodePoints (s.toList.map Char.toNat)

/-- The characters of a text; none if it holds a half. -/
def characters? (s : String) : Option String :=
  let ns := codePoints s.toList
  if ns.any isHalf then none else some (String.ofList (ns.map Char.ofNat))

def pieces (s : String) : List String := (codePoints s.toList).map fun n => ofCodePoints [n]

/-- A code point that a console can show: a half is shown as its escape. -/
def shownPoint (n : Nat) : List Char := if isHalf n then '\\' :: 'u' :: hex 4 n else [Char.ofNat n]

def onConsole (s : String) : String :=
  String.ofList ((codePoints s.toList).flatMap shownPoint)

def inOrder : List Nat → List Nat → Bool
  | [], _ => true
  | _ :: _, [] => false
  | a :: as, b :: bs => a < b || (a == b && inOrder as bs)

def sorted (texts : List String) : List String :=
  texts.mergeSort fun a b => inOrder (codePoints a.toList) (codePoints b.toList)

example : characters? (ofCodePoints [0x41, 0xD800]) = none := by decide

end ScriptGlue.Text
