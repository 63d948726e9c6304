import ScriptGlue.Code.Layout
import ScriptGlue.Unit.Marshaller

/-! # Statements

The statements in the bodies of generated members. A transfer moves one value between native memory
and the script; everything a body reads from a handle is found by `Statement.reads`.
-/

namespace ScriptGlue

inductive Displacement where
  | handle (h : Handle)
  | literal (text : String)
  deriving DecidableEq, Repr

namespace Displacement

def text : Displacement → String
  | .handle h => h.text
  | .literal text => text

def reads : Displacement → List Handle
  | .handle h => [h]
  | .literal _ => []

end Displacement

structure Transfer where
  marshaller : Marshaller
  /-- Object the value belongs to, as an expression. -/
  owner : String
  buffer : String
  displacement : Displacement
  /-- Length of a fixed-size array. -/
  length : Option Handle := none
  deriving Repr

namespace Transfer

def address (t : Transfer) : String :=
  "IntPtr.Add(" ++ t.buffer ++ ", " ++ t.displacement.text ++ ")"

def reads (t : Transfer) : List Handle :=
  t.length.toList ++ t.marshaller.reads ++ t.displacement.reads

def loopHeader (length : Handle) : String := "for (int i = 0; i < " ++ length.text ++ "; ++i)"

def assigned (assignment : String) : String :=
  String.ofList (assignment.toList.reverse.dropWhile fun c => c = ' ' ∨ c = '=').reverse

/-- Reads the value; an array of `elementType` is made first and filled. -/
def readCode (t : Transfer) (assignment elementType : String) : Code :=
  let m := t.marshaller.expression
  match t.length with
  | none =>
    [.line (assignment ++ " " ++ m ++ ".FromNative(" ++ t.address ++ ", 0, " ++ t.owner ++ ");")]
  | some length =>
    let target := assigned assignment
    .line (target ++ " = new " ++ elementType ++ "[" ++ length.text ++ "];") ::
      Code.block (loopHeader length)
        [.line
          (target ++ "[i] = " ++ m ++ ".FromNative(" ++ t.address ++ ", i, " ++ t.owner ++ ");")]

def writeCode (t : Transfer) (source : String) : Code :=
  let m := t.marshaller.expression
  match t.length with
  | none =>
    [.line (m ++ ".ToNative(" ++ t.address ++ ", 0, " ++ t.owner ++ ", " ++ source ++ ");")]
  | some length =>
    Code.block (loopHeader length)
      [.line (m ++ ".ToNative(" ++ t.address ++ ", i, " ++ t.owner ++ ", " ++ source ++ "[i]);")]

end Transfer

inductive Statement where
  /-- Reads a value of native memory into the target of an assignment. -/
  | read (t : Transfer) (assignment elementType : String)
  /-- Writes an expression to native memory. -/
  | write (t : Transfer) (source : String)
  | declare (type name : String)
  | assign (name value : String)
  | giveBack (value : String)
  deriving Repr

namespace Statement

def code : Statement → Code
  | .read t assignment elementType => t.readCode assignment elementType
  | .write t source => t.writeCode source
  | .declare type name => [.line (type ++ " " ++ name ++ ";")]
  | .assign name value => [.line (name ++ " = " ++ value ++ ";")]
  | .giveBack value => [.line ("return " ++ value ++ ";")]

def reads : Statement → List Handle
  | .read t _ _ => t.reads
  | .write t _ => t.reads
  | _ => []

end Statement

end ScriptGlue
