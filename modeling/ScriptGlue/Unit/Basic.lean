import ScriptGlue.Naming
import ScriptGlue.Unit.Function
import ScriptGlue.Unit.Lookup
import ScriptGlue.Unit.Property

/-! # Generated units

The parts of each sort of unit and the code they make: classes, interfaces, structs, enums, and the
extension methods of a module.
-/

namespace ScriptGlue

def banner : Layout := .line "// This file is automatically generated"

structure ClassUnit where
  /-- Namespaces of interfaces that live elsewhere. -/
  imports : List String
  space : String
  header : Code.TypeHeader
  construction : Option StaticConstructor
  properties : List WrapperProperty
  functions : List Wrapper
  events : List EventStub

namespace ClassUnit

def name (u : ClassUnit) : String := u.header.name

def constructor (u : ClassUnit) : Code :=
  Code.block ("protected " ++ u.name ++ "(IntPtr nativeObject) : base(nativeObject)") []

def body (u : ClassUnit) : Code :=
  (u.construction.map StaticConstructor.code).getD [] ++ Code.blank ++ u.constructor ++
    u.properties.flatMap WrapperProperty.code ++ u.functions.flatMap Wrapper.code ++
    u.events.flatMap EventStub.code

def code (u : ClassUnit) : Code :=
  banner :: u.imports.map Code.importLine ++ Code.skeleton u.space ++
    [.line "[UClass]"] ++ Code.block u.header.text u.body

end ClassUnit

structure InterfaceUnit where
  space : String
  name : String
  methods : List InterfaceMethod

def InterfaceUnit.code (u : InterfaceUnit) : Code :=
  banner :: Code.skeleton u.space ++ [.line "[UInterface]"] ++
    Code.block (Code.TypeHeader.text { kind := "interface", name := u.name })
      (u.methods.flatMap InterfaceMethod.code)

/-- Members of a mirror struct: handles, and fields unless their name is taken. -/
inductive StructMember where
  | handles (fields : List Field)
  | mirror (field : MirrorField)
  deriving Repr

def StructMember.code : StructMember → Code
  | .handles fields => fields.map fun f => .line f.text
  | .mirror field => [.line field.text]

/-- What a struct needs whose layout is not the native one. -/
structure Mirroring where
  construction : Option StaticConstructor
  /-- Reads of the constructor from a native buffer. -/
  inputs : List Statement
  /-- Writes to a native buffer. -/
  outputs : List Statement
  deriving Repr

structure StructUnit where
  space : String
  name : String
  members : List StructMember
  /-- None when the layout is the native one. -/
  mirroring : Option Mirroring

namespace StructUnit

def sourceBuffer : String := "InNativeStruct"

def targetBuffer : String := "Buffer"

def marshalling (u : StructUnit) (m : Mirroring) : Code :=
  Code.blank ++ [.line "// Construct by marshalling from a native buffer."] ++
    Code.block ("public " ++ u.name ++ "(IntPtr " ++ sourceBuffer ++ ")")
      (Code.rawMemory (m.inputs.flatMap Statement.code)) ++
    Code.blank ++ [.line "// Marshal into a preallocated native buffer."] ++
    Code.block ("public void ToNative(IntPtr " ++ targetBuffer ++ ")")
      (Code.rawMemory (m.outputs.flatMap Statement.code))

def marshaller (u : StructUnit) : Code :=
  let location := "nativeBuffer + arrayIndex * GetNativeDataSize()"
  Code.blank ++
    Code.block ("public static class " ++ Marshaller.mirrorName u.name)
      (Code.block ("public static " ++ u.name ++
          " FromNative(IntPtr nativeBuffer, int arrayIndex, UnrealSharpObject owner)")
        [.line ("return new " ++ u.name ++ "(" ++ location ++ ");")] ++
      Code.blank ++
      Code.block ("public static void ToNative(IntPtr nativeBuffer, int arrayIndex, " ++
          "UnrealSharpObject owner, " ++ u.name ++ " obj)")
        [.line ("obj.ToNative(" ++ location ++ ");")] ++
      Code.blank ++
      Code.block "public static int GetNativeDataSize()"
        [.line ("return " ++ u.name ++ "." ++ Handle.dataSize.text ++ ";")])

def attributes (u : StructUnit) : Code :=
  if u.mirroring.isNone then
    [.line "[UStruct(IsBlittable = true)]", .line "[StructLayout(LayoutKind.Sequential)]"]
  else [.line "[UStruct]"]

def body (u : StructUnit) : Code :=
  u.members.flatMap StructMember.code ++
    match u.mirroring with
    | none => []
    | some m =>
      Code.blank ++ (m.construction.map StaticConstructor.code).getD [] ++ Code.blank ++
        u.marshalling m

def code (u : StructUnit) : Code :=
  banner :: Code.skeleton u.space ++ u.attributes ++
    Code.block (Code.TypeHeader.text { kind := "struct", name := u.name }) u.body ++
    if u.mirroring.isNone then [] else u.marshaller

end StructUnit

structure EnumUnit where
  space : String
  name : String
  underlying : String
  values : List (String × Nat)

def EnumUnit.code (u : EnumUnit) : Code :=
  banner :: Code.skeleton u.space ++ [.line "[UEnum]"] ++
    Code.block
      (Code.TypeHeader.text {
        kind := "enum", name := u.name, base := u.underlying, isPartial := false })
      (u.values.map fun (name, ordinal) => .line (name ++ "=" ++ toString ordinal ++ ","))

/-- An extension method: it forwards to the wrapper of a library function. -/
structure Forwarder where
  name : String
  returnType : String
  returnsValue : Bool
  receiverType : String
  /-- Parameters after the receiver. -/
  parameters : List Parameter
  /-- Qualified name of the library. -/
  library : String
  /-- What is passed to the wrapper, in the order of its parameters. -/
  arguments : List String
  deriving Repr

namespace Forwarder

def receiverName : String := "self"

def header (f : Forwarder) : String :=
  let receiver := "this " ++ f.receiverType ++ " " ++ receiverName
  "public static " ++ f.returnType ++ " " ++ f.name ++ "(" ++
    String.intercalate ", " (receiver :: f.parameters.map Parameter.declaration) ++ ")"

def call (f : Forwarder) : String :=
  f.library ++ "." ++ f.name ++ "(" ++ String.intercalate ", " f.arguments ++ ");"

def code (f : Forwarder) : Code :=
  Code.block f.header [.line (if f.returnsValue then "return " ++ f.call else f.call)]

end Forwarder

structure ExtensionUnit where
  module : String
  space : String
  forwarders : List Forwarder

def Code.separated (pieces : List Code) : Code := List.intercalate Code.blank pieces

def ExtensionUnit.code (u : ExtensionUnit) : Code :=
  banner :: Code.skeleton u.space ++
    Code.block ("public static partial class " ++ u.module ++ "Extensions")
      (Code.separated (u.forwarders.map Forwarder.code))

end ScriptGlue
