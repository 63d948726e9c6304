import ScriptGlue.Unit.Basic

/-! # Printed lines

The lines of members and of whole units, spelled out: a theorem about the parts of a member says by
these what is written of them.
-/
namespace ScriptGlue

namespace Code

def braced (header : String) (body : Code) : Code :=
  [Layout.line header, .line "\x7b", .indent] ++ body ++ [Layout.dedent, .line "\x7d"]

def opening (space : String) : Code :=
  [Layout.line "// This file is automatically generated", .line "using System;",
    .line "using UnrealSharp;", .line "using System.Runtime.InteropServices;",
    .line "using UnrealSharp.Attributes;", .line "using UnrealSharp.Interop;", .line "",
    .line ("namespace " ++ space ++ ";"), .line ""]

theorem opening_printed (space : String) : banner :: skeleton space = opening space := by
  simp [skeleton, standardImports, importLine, opening, banner]

end Code

/-- The parameters in the header of a member, with their modifiers and types. -/
def Parameter.printed (ps : List Parameter) : String :=
  String.intercalate ", " (ps.map fun q => q.passing.text ++ q.type ++ " " ++ q.name)

theorem Parameter.declarations_printed (ps : List Parameter) : declarations ps = printed ps := rfl

theorem Wrapper.code_printed (w : Wrapper) : ∃ before, w.code = before ++
    Code.braced ((if w.isStatic then "public static " else "public ") ++ w.returnType ++ " " ++
      w.name ++ "(" ++ Parameter.printed w.parameters ++ ")") w.body := by
  refine ⟨_, congrArg (_ ++ Code.block · w.body) ?_⟩
  unfold Wrapper.header
  rw [Parameter.declarations_printed]
  split <;> simp

theorem EventStub.call_printed (e : EventStub) : e.call =
    [.line ((if e.returnsValue then e.returnType ++ " returnValue = " else "") ++ e.name ++
      "_Implementation(" ++
        String.intercalate ", " (e.parameters.map fun q => q.passing.text ++ q.name) ++ ");")] := by
  have arguments : Parameter.arguments e.parameters =
      String.intercalate ", " (e.parameters.map fun q => q.passing.text ++ q.name) := rfl
  unfold EventStub.call
  rw [arguments]
  cases e.returnsValue <;> simp [← String.toList_inj, implementation, returnValue]

theorem EventStub.code_printed (e : EventStub) : ∃ before, e.code = before ++
    Code.braced ("protected virtual " ++ e.returnType ++ " " ++ e.name ++ "_Implementation(" ++
      Parameter.printed e.parameters ++ ")") (e.defaults.flatMap Statement.code) ++
    [Layout.line ""] ++
    Code.braced ("void Invoke_" ++ e.native ++ "(IntPtr buffer, IntPtr returnBuffer)")
      (Code.braced "unsafe" (e.inputs.flatMap Statement.code ++ e.call ++
        e.outputs.flatMap Statement.code)) := by
  have header : e.header = "protected virtual " ++ e.returnType ++ " " ++ e.name ++
      "_Implementation(" ++ Parameter.printed e.parameters ++ ")" := by
    unfold EventStub.header implementation
    rw [Parameter.declarations_printed]
    simp [← String.toList_inj]
  have invoker : e.invokerHeader =
      "void Invoke_" ++ e.native ++ "(IntPtr buffer, IntPtr returnBuffer)" := by
    unfold invokerHeader buffer returnBuffer
    simp [← String.toList_inj]
  refine ⟨Code.blank ++ e.fields.map (fun f => .line f.text) ++
    [.line "[UFunction(FunctionFlags.BlueprintEvent)]"], ?_⟩
  rw [← header, ← invoker]
  rfl

theorem InterfaceMethod.code_printed (m : InterfaceMethod) : m.code =
    [.line (m.returnType ++ " " ++ m.name ++ "(" ++ Parameter.printed m.parameters ++ ");")] := rfl

theorem Forwarder.code_printed (f : Forwarder) : f.code =
    Code.braced ("public static " ++ f.returnType ++ " " ++ f.name ++ "(" ++
        String.intercalate ", " (("this " ++ f.receiverType ++ " self") ::
          f.parameters.map fun q => q.passing.text ++ q.type ++ " " ++ q.name) ++ ")")
      [.line ((if f.returnsValue then "return " else "") ++ f.library ++ "." ++ f.name ++ "(" ++
        String.intercalate ", " f.arguments ++ ");")] := by
  have receiver : "this " ++ f.receiverType ++ " " ++ receiverName =
      "this " ++ f.receiverType ++ " self" := by
    unfold receiverName
    simp [← String.toList_inj]
  have call : (if f.returnsValue then "return " ++ f.call else f.call) =
      (if f.returnsValue then "return " else "") ++ f.library ++ "." ++ f.name ++ "(" ++
        String.intercalate ", " f.arguments ++ ");" := by
    unfold Forwarder.call
    cases f.returnsValue <;> simp [String.append_assoc]
  unfold Forwarder.code Forwarder.header
  rw [call, receiver]
  rfl

theorem EnumUnit.code_printed {u : EnumUnit} (typed : u.underlying ≠ "") : u.code =
    Code.opening u.space ++ [Layout.line "[UEnum]"] ++
      Code.braced ("public enum " ++ u.name ++ " : " ++ u.underlying)
        (u.values.map fun (name, ordinal) => .line (name ++ "=" ++ toString ordinal ++ ",")) := by
  have header : Code.TypeHeader.text
      { kind := "enum", name := u.name, base := u.underlying, isPartial := false } =
        "public enum " ++ u.name ++ " : " ++ u.underlying := by
    unfold Code.TypeHeader.text
    simp [typed, ← String.toList_inj]
  unfold EnumUnit.code
  rw [header, ← Code.opening_printed]
  rfl

theorem ExtensionUnit.code_printed (u : ExtensionUnit) : u.code = Code.opening u.space ++
    Code.braced ("public static partial class " ++ u.module ++ "Extensions")
      (List.intercalate [Layout.line ""] (u.forwarders.map Forwarder.code)) := by
  unfold ExtensionUnit.code
  rw [← Code.opening_printed]
  rfl

end ScriptGlue
