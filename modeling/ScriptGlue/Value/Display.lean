import ScriptGlue.Text.CodePoint
import ScriptGlue.Text.Printable
import ScriptGlue.Value.Basic

/-! # Values in messages and generated text

`plain` is how a name stands in running text: a text is itself. `shown` is how a value stands in an
error message: texts are quoted, lists and objects are written out.
-/

namespace ScriptGlue.Value

namespace Display

def escaped (quote n : Nat) : List Char :=
  if n = quote ∨ n = 0x5C then ['\\', Char.ofNat n]
  else if n = 0x0A then ['\\', 'n']
  else if n = 0x0D then ['\\', 'r']
  else if n = 0x09 then ['\\', 't']
  else if Text.isPrintable n then [Char.ofNat n]
  else if n < 0x100 then '\\' :: 'x' :: Text.hex 2 n
  else if n < 0x10000 then '\\' :: 'u' :: Text.hex 4 n
  else '\\' :: 'U' :: Text.hex 8 n

def quoted (s : String) : String :=
  let quote := if s.toList.contains '\'' && !s.toList.contains '"' then '"' else '\''
  String.ofList (quote :: (Text.codePoints s.toList).flatMap (escaped quote.toNat) ++ [quote])

end Display

mutual

def shown : Value → String
  | .null => "None"
  | .bool b => if b then "True" else "False"
  | .int n => toString n
  | .real x => x.toText
  | .text s => Display.quoted s
  | .list items => "[" ++ String.intercalate ", " (shownItems items) ++ "]"
  | .object fields => "\x7b" ++ String.intercalate ", " (shownFields fields) ++ "\x7d"

def shownItems : List Value → List String
  | [] => []
  | v :: rest => shown v :: shownItems rest

def shownFields : List (String × Value) → List String
  | [] => []
  | (k, v) :: rest => (Display.quoted k ++ ": " ++ shown v) :: shownFields rest

end

def plain : Value → String
  | .text s => s
  | v => shown v

@[simp] theorem plain_text (s : String) : plain (.text s) = s := rfl

end ScriptGlue.Value
