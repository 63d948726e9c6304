import ScriptGlue.Text.CodePoint
import ScriptGlue.Value.Basic

/-! # Writing a document

The compact text of a value, which reads back as the value: no blanks, keys in order, and all
beyond ASCII as escaped code units.
-/

namespace ScriptGlue.Value

namespace Writer

def escapedUnit (n : Nat) : List Char := '\\' :: 'u' :: Text.hex 4 n

def escaped (n : Nat) : List Char :=
  if n = 0x22 ∨ n = 0x5C then ['\\', Char.ofNat n]
  else if n = 0x0A then ['\\', 'n']
  else if n = 0x0D then ['\\', 'r']
  else if n = 0x09 then ['\\', 't']
  else if 32 ≤ n ∧ n < 127 then [Char.ofNat n]
  else if n < 0x10000 then escapedUnit n
  else escapedUnit (0xD800 + (n - 0x10000) / 1024) ++ escapedUnit (0xDC00 + (n - 0x10000) % 1024)

def quoted (s : String) : String :=
  String.ofList ('"' :: (Text.codePoints s.toList).flatMap escaped ++ ['"'])

def real (x : Binary64) : String :=
  if x.isNaN then "NaN"
  else if x.isInfinite then (if x.negative then "-Infinity" else "Infinity")
  else x.toText

mutual

def write : Value → String
  | .null => "null"
  | .bool b => if b then "true" else "false"
  | .int n => toString n
  | .real x => real x
  | .text s => quoted s
  | .list items => "[" ++ String.intercalate "," (writeItems items) ++ "]"
  | .object fields => "\x7b" ++ String.intercalate "," (writeFields fields) ++ "\x7d"

def writeItems : List Value → List String
  | [] => []
  | v :: rest => write v :: writeItems rest

def writeFields : List (String × Value) → List String
  | [] => []
  | (k, v) :: rest => (quoted k ++ ":" ++ write v) :: writeFields rest

end

end Writer

def toDocument (v : Value) : String := Writer.write v

end ScriptGlue.Value
