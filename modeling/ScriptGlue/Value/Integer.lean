import ScriptGlue.Text.Digit
import ScriptGlue.Value.Basic

/-! # Whole numbers from values

An array dimension may be given as a number, which loses its fraction, as a truth value, or as a
text: a sign and decimal digits of any script, single underscores between them, blanks around. No
integer is written with more than `Integer.longest` digits, zeros in front included.
-/

namespace ScriptGlue.Value

inductive NotWhole where
  | notNumber
  | notDecimal
  | infinite
  deriving DecidableEq, Repr

namespace Integer

def longest : Nat := 4300

def digitsFrom : Nat → List Char → Option Nat
  | n, [] => some n
  | n, '_' :: c :: rest =>
    match Text.digitValue? c with
    | some d => digitsFrom (n * 10 + d) rest
    | none => none
  | n, c :: rest =>
    match Text.digitValue? c with
    | some d => digitsFrom (n * 10 + d) rest
    | none => none

def digits? : List Char → Option Nat
  | [] => none
  | c :: rest =>
    match Text.digitValue? c with
    | some d => digitsFrom d rest
    | none => none

def isShort (cs : List Char) : Bool := (cs.filter (· ≠ '_')).length ≤ longest

def natural? (cs : List Char) : Option Nat := if isShort cs then digits? cs else none

def signed? : List Char → Option Int
  | '-' :: rest => (natural? rest).map fun n => -(n : Int)
  | '+' :: rest => (natural? rest).map fun n => (n : Int)
  | cs => (natural? cs).map fun n => (n : Int)

def trim (cs : List Char) : List Char :=
  ((cs.dropWhile Text.isBlank).reverse.dropWhile Text.isBlank).reverse

end Integer

def toWhole : Value → Except NotWhole Int
  | .int n => .ok n
  | .bool b => .ok (if b then 1 else 0)
  | .real x =>
    match x.truncate? with
    | some n => .ok n
    | none => .error (if x.isNaN then .notDecimal else .infinite)
  | .text s =>
    match Integer.signed? (Integer.trim s.toList) with
    | some n => .ok n
    | none => .error .notDecimal
  | _ => .error .notNumber

end ScriptGlue.Value
