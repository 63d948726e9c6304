import ScriptGlue.Fault

/-! # Order of values

Numbers and truth values are ordered by amount, texts by code points. Values of different kinds have
no order, nor have two of any other kind, so a list that holds such values cannot be sorted. One
value alone always can.
-/

namespace ScriptGlue.Value

/-- Amount of a number or a truth value as a fraction with a positive denominator, after the side
on which it lies beyond all fractions, if it does. NaN is put on the far side. -/
def magnitude? : Value → Option (Int × Int × Nat)
  | .bool b => some (0, if b then 1 else 0, 1)
  | .int n => some (0, n, 1)
  | .real x =>
    let sign : Int := if x.negative then -1 else 1
    match x.fraction? with
    | some (num, den) => some (0, sign * num, den)
    | none => some (if x.isNaN then 2 else sign, 0, 1)
  | _ => none

def isNumber (v : Value) : Bool := v.magnitude?.isSome

def inOrder (a b : Value) : Bool :=
  match a.magnitude?, b.magnitude? with
  | some (side, num, den), some (side', num', den') =>
    side < side' || (side == side' && num * den' ≤ num' * den)
  | _, _ => Text.inOrder (Text.codePoints a.plain.toList) (Text.codePoints b.plain.toList)

def areComparable (vs : List Value) : Bool :=
  vs.length ≤ 1 || vs.all isNumber || vs.all isText

def sorted (vs : List Value) : Except Fault (List Value) :=
  if areComparable vs then .ok (vs.mergeSort inOrder) else .error .wrongType

/-- Pairs in the order of their first values, which are texts, and of their second values where
those are the same. -/
def sortedPairs (ps : List (Value × Value)) : Except Fault (List (Value × Value)) :=
  let group (first : Value) := (ps.filter fun p => p.1 = first).map Prod.snd
  if ps.all fun p => areComparable (group p.1) then
    .ok (ps.mergeSort fun a b => if a.1 = b.1 then inOrder a.2 b.2 else inOrder a.1 b.1)
  else .error .wrongType

example : areComparable [.int 1, .bool true] ∧ !areComparable [.int 1, .text "a"] := by decide

example : inOrder (.bool true) (.real ⟨0x3FF8000000000000⟩) ∧
    !inOrder (.real ⟨0x3FF8000000000000⟩) (.bool true) := by decide

end ScriptGlue.Value
