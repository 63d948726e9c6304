/-! # File contents

What a file holds: characters if its bytes are UTF-8, and bytes otherwise.
-/

namespace ScriptGlue

/-- Contents of a file; `binary` holds what is no UTF-8. -/
inductive Content where
  | text (characters : String)
  | binary (bytes : List UInt8)
  deriving DecidableEq, Inhabited

namespace Content

def ofBytes (bytes : List UInt8) : Content :=
  match String.fromUTF8? ⟨bytes.toArray⟩ with
  | some s => .text s
  | none => .binary bytes

def toBytes : Content → List UInt8
  | .text s => s.toUTF8.data.toList
  | .binary bytes => bytes

def text? : Content → Option String
  | .text s => some s
  | .binary _ => none

def append (c : Content) (s : String) : Content :=
  match c with
  | .text t => .text (t ++ s)
  | .binary bytes => ofBytes (bytes ++ s.toUTF8.data.toList)

end Content

end ScriptGlue
