import ScriptGlue.Files.Tree
import ScriptGlue.Value.Reader

/-! # Documents in files

The value a file holds, or why it holds none.
-/

namespace ScriptGlue

def readDocumentFile (t : FileTree) (role : DocumentRole) (path : String) : Except Fault Value :=
  match t.read path with
  | .error fault => .error (.unreadable role path (.file fault))
  | .ok characters =>
    match Value.parse characters with
    | .ok v => .ok v
    | .error .grammar => .error (.unreadable role path .malformed)
    | .error .digits => .error (.unreadable role path .tooManyDigits)
    | .error .depth => .error .tooDeep

/-- Value of the document in a file that any value may name: a number names an open file, and none
is open. -/
def readNamedFile (t : FileTree) (role : DocumentRole) (path : Value) : Except Fault Value :=
  match path with
  | .text path => readDocumentFile t role path
  | .int _ | .bool _ => .error (.unreadable role path.plain (.file .notOpen))
  | _ => .error .wrongType

end ScriptGlue
