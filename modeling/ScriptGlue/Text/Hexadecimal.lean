/-! # Hexadecimal digits

Numbers written with a fixed count of hexadecimal digits, as escapes have them.
-/

namespace ScriptGlue.Text

def hexDigit (n : Nat) : Char :=
  if n < 10 then Char.ofNat (48 + n) else Char.ofNat (87 + n)

def hex : Nat → Nat → List Char
  | 0, _ => []
  | width + 1, n => hex width (n / 16) ++ [hexDigit (n % 16)]

example : hex 4 0xD83D = ['d', '8', '3', 'd'] := by decide

end ScriptGlue.Text
