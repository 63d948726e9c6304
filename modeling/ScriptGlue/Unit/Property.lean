import ScriptGlue.Unit.Statement

/-! # Generated properties

A class property reads and writes the native object; a struct field mirrors the native field.
-/

namespace ScriptGlue

/-- Access of a member; a protected property is public when its protection is relaxed. -/
def accessText (isProtected : Bool) : String := if isProtected then "protected" else "public"

/-- A class property that reads and writes the native object. -/
structure WrapperProperty where
  native : String
  name : String
  type : String
  isProtected : Bool
  isSettable : Bool
  /-- An array of fixed size, which is read through a view and never replaced. -/
  isFixedArray : Bool
  marshaller : Marshaller
  fields : List Field
  deriving Repr

namespace WrapperProperty

def validityCheck : Layout := .line "CheckObjectForValidity();"

def address (p : WrapperProperty) : String :=
  "IntPtr.Add(NativeObject, " ++ (Handle.offset p.native).text ++ ")"

def viewType (p : WrapperProperty) : String := "FixedSizeArrayReadWrite<" ++ p.type ++ ">"

def getter (p : WrapperProperty) : Code :=
  let m := p.marshaller.expression
  let result :=
    if p.isFixedArray then
      "new " ++ p.viewType ++ "(this, " ++ p.address ++ ", " ++ (Handle.length p.native).text ++
        ", " ++ Marshaller.functions m ++ ")"
    else m ++ ".FromNative(" ++ p.address ++ ", 0, this)"
  Code.block "get" [validityCheck, .line ("return " ++ result ++ ";")]

def setter (p : WrapperProperty) : Code :=
  Code.block "set"
    [validityCheck,
      .line (p.marshaller.expression ++ ".ToNative(" ++ p.address ++ ", 0, this, value);")]

def code (p : WrapperProperty) : Code :=
  let type := if p.isFixedArray then p.viewType else p.type
  Code.blank ++ p.fields.map (fun f => .line f.text) ++
    Code.block (accessText p.isProtected ++ " " ++ type ++ " " ++ p.name)
      (p.getter ++ if p.isSettable && !p.isFixedArray then p.setter else [])

def reads (p : WrapperProperty) : List Handle :=
  .offset p.native :: (if p.isFixedArray then [.length p.native] else []) ++ p.marshaller.reads

end WrapperProperty

structure MirrorField where
  name : String
  type : String
  isProtected : Bool
  deriving DecidableEq, Repr

def MirrorField.text (f : MirrorField) : String :=
  accessText f.isProtected ++ " " ++ f.type ++ " " ++ f.name ++ ";"

end ScriptGlue
