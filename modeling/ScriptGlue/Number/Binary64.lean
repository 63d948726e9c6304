/-! # Binary floating point of 64 bits

A number is kept as its bits, so equality of data is decidable. `decode?` gives it as an integer
times a power of two; comparison with integers, truncation and the shortest decimal digits all work
on that form in exact arithmetic.
-/

namespace ScriptGlue

/-- A floating-point number by its sign, exponent and fraction bits. -/
structure Binary64 where
  bits : UInt64
  deriving DecidableEq, Inhabited, Repr

namespace Binary64

def negative (x : Binary64) : Bool := x.bits >>> 63 == 1

def exponentBits (x : Binary64) : Nat := ((x.bits >>> 52) &&& 0x7FF).toNat

def fractionBits (x : Binary64) : Nat := (x.bits &&& 0xFFFFFFFFFFFFF).toNat

def isNaN (x : Binary64) : Bool := x.exponentBits == 0x7FF && x.fractionBits != 0

def isInfinite (x : Binary64) : Bool := x.exponentBits == 0x7FF && x.fractionBits == 0

def twoTo (n : Nat) : Nat := Nat.pow 2 n

def tenTo (n : Nat) : Nat := Nat.pow 10 n

/-- Magnitude of a finite number as `m * 2 ^ q`; none for infinities and NaN. -/
def decode? (x : Binary64) : Option (Nat × Int) :=
  if x.exponentBits = 0x7FF then none
  else if x.exponentBits = 0 then some (x.fractionBits, -1074)
  else some (twoTo 52 + x.fractionBits, (x.exponentBits : Int) - 1075)

def fraction? (x : Binary64) : Option (Nat × Nat) :=
  x.decode?.map fun (m, q) => (m * twoTo q.toNat, twoTo (-q).toNat)

def truncate? (x : Binary64) : Option Int :=
  x.fraction?.map fun (num, den) =>
    if x.negative then -((num / den : Nat) : Int) else ((num / den : Nat) : Int)

def toInt? (x : Binary64) : Option Int :=
  match x.fraction? with
  | some (num, den) => if num % den = 0 then x.truncate? else none
  | none => none

def isZero (x : Binary64) : Bool := x.exponentBits == 0 && x.fractionBits == 0

/-- Equality of numbers: NaN equals nothing and the two zeros are equal. -/
def same (x y : Binary64) : Bool :=
  !x.isNaN && !y.isNaN && (x.bits == y.bits || (x.isZero && y.isZero))

def ofDecimal (isNegative : Bool) (m : Nat) (e : Int) : Binary64 :=
  let magnitude : Float :=
    if m = 0 then 0.0
    else if e > 400 then 1.0 / 0.0
    else if e + (Nat.log2 m : Int) < -1200 then 0.0
    else if e ≥ 0 then Float.ofScientific m false e.toNat
    else Float.ofScientific m true (-e).toNat
  ⟨(if isNegative then -magnitude else magnitude).toBits⟩

def decimalExponent (num den : Nat) : Nat → Int → Int
  | 0, e => e
  | steps + 1, e =>
    let below := e - 1
    if num * tenTo (-below).toNat < den * tenTo below.toNat then decimalExponent num den steps below
    else e

/-- Of the two neighbours of the value on the grid of `n` digits, the nearest that reads back.

The value is `num / den`, the numbers that round to it lie between `low / den` and `high / den`,
ends included iff `closed`, and the grid step is `10 ^ (e - n)`. -/
def nearestOnGrid (num low high den : Nat) (closed : Bool) (e : Int) (n : Nat) : Option Nat :=
  let step := e - n
  let up := tenTo (-step).toNat
  let down := tenTo step.toNat
  let floor := (num * up) / (den * down)
  let inside (d : Nat) : Bool :=
    let here := d * den * down
    if closed then low * up ≤ here && here ≤ high * up else low * up < here && here < high * up
  let below := num * up - floor * den * down
  let above := (floor + 1) * den * down - num * up
  match inside floor, inside (floor + 1) with
  | true, true =>
    some (if above < below || (above == below && floor % 2 == 1) then floor + 1 else floor)
  | true, false => some floor
  | false, true => some (floor + 1)
  | false, false => none

/-- Fewest digits `d` with an exponent `e` such that `d * 10 ^ e` reads back as the magnitude. -/
def shortest? (x : Binary64) : Option (Nat × Int) :=
  x.decode?.map fun (m, q) =>
    if m = 0 then (0, 0)
    else
      let num := 4 * m * twoTo (q - 2).toNat
      let den := twoTo (2 - q).toNat
      let half := twoTo (q - 2).toNat
      let low := if x.fractionBits = 0 && 1 < x.exponentBits then num - half else num - 2 * half
      let e := decimalExponent num den 650 310
      let candidates := (List.range' 1 17).filterMap fun n =>
        (nearestOnGrid num low (num + 2 * half) den (m % 2 == 0) e n).map (·, e - n)
      candidates.headD (m, q)

def stripZeros : Nat → Nat → Int → Nat × Int
  | 0, d, e => (d, e)
  | fuel + 1, d, e => if d ≠ 0 ∧ d % 10 = 0 then stripZeros fuel (d / 10) (e + 1) else (d, e)

/-- Text of the number: the fewest digits that read back, positional from 1e-4 up to 1e16. -/
def toText (x : Binary64) : String :=
  let sign := if x.negative then "-" else ""
  match x.shortest? with
  | none => if x.isNaN then "nan" else sign ++ "inf"
  | some (d, e) =>
    let (d, e) := stripZeros 20 d e
    let digits := toString d
    let point : Int := if d = 0 then 1 else (digits.length : Int) + e
    sign ++
      if -4 < point ∧ point ≤ 16 then
        if point ≤ 0 then "0." ++ "".pushn '0' (-point).toNat ++ digits
        else if digits.length ≤ point.toNat then
          digits ++ "".pushn '0' (point.toNat - digits.length) ++ ".0"
        else (digits.take point.toNat).toString ++ "." ++ (digits.drop point.toNat).toString
      else
        let exponent := point - 1
        let mantissa :=
          (digits.take 1).toString ++
            (if digits.length = 1 then "" else "." ++ (digits.drop 1).toString)
        let width := toString exponent.natAbs
        mantissa ++ "e" ++ (if exponent < 0 then "-" else "+") ++
          (if width.length < 2 then "0" ++ width else width)

end Binary64

end ScriptGlue
