import ScriptGlue.Text.CodePoint
import ScriptGlue.Value.Integer

/-! # Reading a document

The text of a document as a value: objects, lists, quoted texts, numbers and the words `null`,
`true`, `false`, `NaN` and `Infinity`. Blanks are space, tab and the two line breaks. A number with
neither fraction nor exponent is an integer, of any size that the digits it may have allow. Every
reader takes the rest of the text and gives what it read with what remains; the first thing amiss
ends the reading.
-/

namespace ScriptGlue.Value

inductive Malformation where
  | grammar
  /-- An integer has more digits than any may have. -/
  | digits
  /-- Lists and objects lie deeper in one another than any may. -/
  | depth
  deriving DecidableEq, Repr

namespace Reader

def deepest : Nat := 985

def skipBlanks : List Char → List Char
  | c :: rest => if c = ' ' ∨ c = '\t' ∨ c = '\n' ∨ c = '\r' then skipBlanks rest else c :: rest
  | [] => []

def hexDigit? (c : Char) : Option Nat :=
  if '0' ≤ c ∧ c ≤ '9' then some (c.toNat - 48)
  else if 'a' ≤ c ∧ c ≤ 'f' then some (c.toNat - 87)
  else if 'A' ≤ c ∧ c ≤ 'F' then some (c.toNat - 55)
  else none

def codeUnit? : List Char → Option (Nat × List Char)
  | a :: b :: c :: d :: rest => do
    let a ← hexDigit? a
    let b ← hexDigit? b
    let c ← hexDigit? c
    let d ← hexDigit? d
    return (((a * 16 + b) * 16 + c) * 16 + d, rest)
  | _ => none

def isHighHalf (n : Nat) : Bool := 0xD800 ≤ n && n < 0xDC00

def isLowHalf (n : Nat) : Bool := 0xDC00 ≤ n && n < 0xE000

/-- The code point an escape stands for, after the backslash; half a pair may stand alone. -/
def escape? : List Char → Option (Nat × List Char)
  | '"' :: rest => some (0x22, rest)
  | '\\' :: rest => some (0x5C, rest)
  | '/' :: rest => some (0x2F, rest)
  | 'b' :: rest => some (0x08, rest)
  | 'f' :: rest => some (0x0C, rest)
  | 'n' :: rest => some (0x0A, rest)
  | 'r' :: rest => some (0x0D, rest)
  | 't' :: rest => some (0x09, rest)
  | 'u' :: rest =>
    match codeUnit? rest with
    | none => none
    | some (high, rest) =>
      match isHighHalf high, rest with
      | true, '\\' :: 'u' :: more =>
        match codeUnit? more with
        | none => none
        | some (low, after) =>
          if isLowHalf low then some (0x10000 + (high - 0xD800) * 1024 + (low - 0xDC00), after)
          else some (high, rest)
      | _, _ => some (high, rest)
  | _ => none

/-- The rest of a quoted text, after its opening quote; what is read comes last code point first. -/
def quoted? : Nat → List Nat → List Char → Option (String × List Char)
  | 0, _, _ => none
  | fuel + 1, read, rest =>
    match rest with
    | [] => none
    | '"' :: rest => some (Text.ofCodePoints read.reverse, rest)
    | '\\' :: rest =>
      match escape? rest with
      | none => none
      | some (n, rest) => quoted? fuel (n :: read) rest
    | c :: rest => if c.toNat < 32 then none else quoted? fuel (c.toNat :: read) rest

def isDigit (c : Char) : Bool := '0' ≤ c && c ≤ '9'

def digits (cs : List Char) : List Char × List Char := cs.span isDigit

def digitsValue (cs : List Char) : Nat := cs.foldl (fun n c => n * 10 + (c.toNat - 48)) 0

/-- Fraction digits after a point; no point, or a point without digits, is no fraction. -/
def fraction : List Char → Option (List Char) × List Char
  | '.' :: rest =>
    match digits rest with
    | ([], _) => (none, '.' :: rest)
    | (ds, rest) => (some ds, rest)
  | cs => (none, cs)

/-- Exponent with its sign; a letter without digits is no exponent. -/
def exponent (cs : List Char) : Option Int × List Char :=
  match cs with
  | [] => (none, cs)
  | e :: rest =>
    if e = 'e' ∨ e = 'E' then
      let (isNegative, rest) :=
        match rest with
        | '-' :: rest => (true, rest)
        | '+' :: rest => (false, rest)
        | rest => (false, rest)
      match digits rest with
      | ([], _) => (none, cs)
      | (ds, rest) =>
        let n : Int := digitsValue ds
        (some (if isNegative then -n else n), rest)
    else (none, cs)

def unsigned (isNegative : Bool) (cs : List Char) : Except Malformation (Value × List Char) :=
  let (whole, rest) :=
    match cs with
    | '0' :: rest => (['0'], rest)
    | cs => digits cs
  if whole.isEmpty then .error .grammar
  else
    let (part, rest) := fraction rest
    let (power, rest) := exponent rest
    match part, power with
    | none, none =>
      if whole.length > Integer.longest then .error .digits
      else
        let n : Int := digitsValue whole
        .ok (.int (if isNegative then -n else n), rest)
    | part, power =>
      let ds := part.getD []
      .ok (.real (Binary64.ofDecimal isNegative (digitsValue (whole ++ ds))
        (power.getD 0 - ds.length)), rest)

def infinity (isNegative : Bool) : Binary64 :=
  ⟨if isNegative then 0xFFF0000000000000 else 0x7FF0000000000000⟩

def nan : Binary64 := ⟨0x7FF8000000000000⟩

def scalar : List Char → Except Malformation (Value × List Char)
  | 'n' :: 'u' :: 'l' :: 'l' :: rest => .ok (.null, rest)
  | 't' :: 'r' :: 'u' :: 'e' :: rest => .ok (.bool true, rest)
  | 'f' :: 'a' :: 'l' :: 's' :: 'e' :: rest => .ok (.bool false, rest)
  | 'N' :: 'a' :: 'N' :: rest => .ok (.real nan, rest)
  | 'I' :: 'n' :: 'f' :: 'i' :: 'n' :: 'i' :: 't' :: 'y' :: rest =>
    .ok (.real (infinity false), rest)
  | '-' :: 'I' :: 'n' :: 'f' :: 'i' :: 'n' :: 'i' :: 't' :: 'y' :: rest =>
    .ok (.real (infinity true), rest)
  | '-' :: rest => unsigned true rest
  | cs => unsigned false cs

def quoted (cs : List Char) : Except Malformation (String × List Char) :=
  match quoted? (cs.length + 1) [] cs with
  | some read => .ok read
  | none => .error .grammar

mutual

/-- A value that may hold some depth of lists and objects; the fuel bounds how many readers may
follow one another. -/
def value : Nat → Nat → List Char → Except Malformation (Value × List Char)
  | 0, _, _ => .error .grammar
  | fuel + 1, depth, cs =>
    match cs, depth with
    | '"' :: rest, _ => do
      let (s, rest) ← quoted rest
      return (.text s, rest)
    | '[' :: _, 0 => .error .depth
    | '[' :: rest, depth + 1 =>
      match skipBlanks rest with
      | ']' :: rest => .ok (.list [], rest)
      | rest => do
        let (vs, rest) ← items fuel depth rest
        return (.list vs, rest)
    | '{' :: _, 0 => .error .depth
    | '{' :: rest, depth + 1 =>
      match skipBlanks rest with
      | '}' :: rest => .ok (.object [], rest)
      | rest => do
        let (fs, rest) ← fields fuel depth rest
        return (ofFields fs, rest)
    | cs, _ => scalar cs

def items : Nat → Nat → List Char → Except Malformation (List Value × List Char)
  | 0, _, _ => .error .grammar
  | fuel + 1, depth, cs => do
    let (v, rest) ← value fuel depth cs
    match skipBlanks rest with
    | ']' :: rest => return ([v], rest)
    | ',' :: rest => do
      let (vs, rest) ← items fuel depth (skipBlanks rest)
      return (v :: vs, rest)
    | _ => throw .grammar

def fields : Nat → Nat → List Char → Except Malformation (List (String × Value) × List Char)
  | 0, _, _ => .error .grammar
  | fuel + 1, depth, cs =>
    match cs with
    | '"' :: rest => do
      let (key, rest) ← quoted rest
      match skipBlanks rest with
      | ':' :: rest => do
        let (v, rest) ← value fuel depth (skipBlanks rest)
        match skipBlanks rest with
        | '}' :: rest => return ([(key, v)], rest)
        | ',' :: rest => do
          let (fs, rest) ← fields fuel depth (skipBlanks rest)
          return ((key, v) :: fs, rest)
        | _ => throw .grammar
      | _ => throw .grammar
    | _ => .error .grammar

end

end Reader

/-- The value that characters stand for; nothing but blanks may surround it. -/
def parse (characters : String) : Except Malformation Value := do
  let cs := characters.toList
  let (v, rest) ← Reader.value (2 * (cs.length + 1)) Reader.deepest (Reader.skipBlanks cs)
  if (Reader.skipBlanks rest).isEmpty then return v else throw .grammar

end ScriptGlue.Value
