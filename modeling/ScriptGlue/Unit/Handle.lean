/-! # Native handles

The names under which generated code keeps what it looked up once: the native type, offsets,
properties, functions and sizes. A slot is a property's native name, or a function's and a
parameter's joined by an underscore.
-/

namespace ScriptGlue

/-- A name that generated code keeps a looked-up native value under. -/
inductive Handle where
  | nativeType
  | dataSize
  | offset (slot : String)
  | property (slot : String)
  | length (slot : String)
  | function (name : String)
  | paramsSize (name : String)
  deriving DecidableEq, Repr

namespace Handle

def text : Handle → String
  | .nativeType => "NativeClassPtr"
  | .dataSize => "NativeDataSize"
  | .offset slot => slot ++ "_Offset"
  | .property slot => slot ++ "_NativeProperty"
  | .length slot => slot ++ "_Length"
  | .function name => name ++ "_NativeFunction"
  | .paramsSize name => name ++ "_ParamsSize"

def scriptType : Handle → String
  | .nativeType => "IntPtr"
  | .property _ => "IntPtr"
  | .function _ => "IntPtr"
  | _ => "int"

end Handle

def parameterSlot (function parameter : String) : String := function ++ "_" ++ parameter

inductive FieldModifier where
  | static
  | staticReadonly
  | publicStaticReadonly
  | constant (value : Int)
  deriving DecidableEq, Repr

structure Field where
  modifier : FieldModifier
  handle : Handle
  deriving DecidableEq, Repr

def Field.text (f : Field) : String :=
  let typed := f.handle.scriptType ++ " " ++ f.handle.text
  match f.modifier with
  | .static => "static " ++ typed ++ ";"
  | .staticReadonly => "static readonly " ++ typed ++ ";"
  | .publicStaticReadonly => "public static readonly " ++ typed ++ ";"
  | .constant value => "const " ++ typed ++ " = " ++ toString value ++ ";"

end ScriptGlue
