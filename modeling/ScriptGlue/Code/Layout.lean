/-! # Laid-out code

Generated text as a list of layout steps: a line, one level in, one level out. `Code.lines` gives
each nonempty line four spaces per level; a step out of level zero stays there.
-/

namespace ScriptGlue

inductive Layout where
  | line (text : String)
  | indent
  | dedent
  deriving DecidableEq, Repr

abbrev Code := List Layout

namespace Code

def indentation (level : Nat) : String := "".pushn ' ' (4 * level)

/-- A line at a level; an empty line carries no blanks. -/
def lineAt (level : Nat) (text : String) : String :=
  if text = "" then "" else indentation level ++ text

def lines : Nat → Code → List String
  | _, [] => []
  | level, .line text :: rest => lineAt level text :: lines level rest
  | level, .indent :: rest => lines (level + 1) rest
  | level, .dedent :: rest => lines (level - 1) rest

def levelAfter : Nat → Code → Nat
  | level, [] => level
  | level, .line _ :: rest => levelAfter level rest
  | level, .indent :: rest => levelAfter (level + 1) rest
  | level, .dedent :: rest => levelAfter (level - 1) rest

/-- Text of the code: its lines, the last one ended too. -/
def text (code : Code) : String := String.intercalate "\n" (code.lines 0) ++ "\n"

def isEmpty (code : Code) : Bool := (code.lines 0).isEmpty

theorem lines_append (level : Nat) (a b : Code) :
    lines level (a ++ b) = lines level a ++ lines (levelAfter level a) b := by
  fun_induction lines level a <;> simp_all [lines, levelAfter]

theorem levelAfter_append (level : Nat) (a b : Code) :
    levelAfter level (a ++ b) = levelAfter (levelAfter level a) b := by
  fun_induction levelAfter level a <;> simp_all [levelAfter]

def blank : Code := [.line ""]

def openBrace : Code := [.line "\x7b", .indent]

def closeBrace (suffix : String) : Code := [.dedent, .line ("\x7d" ++ suffix)]

def blockWith (header footer : String) (body : Code) : Code :=
  .line header :: openBrace ++ body ++ [.dedent, .line footer]

def block (header : String) (body : Code) : Code := blockWith header "\x7d" body

def unsafeHeader : String := "unsafe"

def rawMemory (body : Code) : Code := block unsafeHeader body

def standardImports : List String :=
  ["System", "UnrealSharp", "System.Runtime.InteropServices", "UnrealSharp.Attributes",
    "UnrealSharp.Interop"]

def importLine (space : String) : Layout := .line ("using " ++ space ++ ";")

def skeleton (space : String) : Code :=
  standardImports.map importLine ++ [.line "", .line ("namespace " ++ space ++ ";"), .line ""]

structure TypeHeader where
  kind : String
  name : String
  base : String := ""
  isAbstract : Bool := false
  isPartial : Bool := true
  interfaces : List String := []

def TypeHeader.text (h : TypeHeader) : String :=
  let modifiers :=
    "public" :: (if h.isAbstract then ["abstract"] else []) ++
      (if h.isPartial then ["partial"] else [])
  let bases := (if h.base = "" then [] else [h.base]) ++ h.interfaces
  String.intercalate " " modifiers ++ " " ++ h.kind ++ " " ++ h.name ++
    (if bases.isEmpty then "" else " : " ++ String.intercalate ", " bases)

def declareType (h : TypeHeader) : Code := .line h.text :: openBrace

end Code

end ScriptGlue
