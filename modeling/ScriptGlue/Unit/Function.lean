import ScriptGlue.Unit.Statement

/-! # Generated functions

A wrapper calls a native function: it writes its inputs to a parameter buffer, invokes, and reads
back its outputs. An event is called from native code: its invoker reads the inputs, calls the
script's implementation, and writes the outputs. An interface only declares a method.
-/

namespace ScriptGlue

inductive Passing where
  | value
  | out
  | byReference
  deriving DecidableEq, Repr

def Passing.text : Passing → String
  | .value => ""
  | .out => "out "
  | .byReference => "ref "

structure Parameter where
  passing : Passing
  type : String
  name : String
  deriving DecidableEq, Repr

namespace Parameter

def declaration (p : Parameter) : String := p.passing.text ++ p.type ++ " " ++ p.name

def argument (p : Parameter) : String := p.passing.text ++ p.name

def declarations (ps : List Parameter) : String := String.intercalate ", " (ps.map declaration)

def arguments (ps : List Parameter) : String := String.intercalate ", " (ps.map argument)

end Parameter

structure Exchange where
  inputs : List Statement
  outputs : List Statement
  deriving Repr

structure Wrapper where
  native : String
  isStatic : Bool
  name : String
  returnType : String
  parameters : List Parameter
  fields : List Field
  /-- What is transferred; a function without parameters transfers nothing. -/
  exchange : Option Exchange
  deriving Repr

namespace Wrapper

def handle (w : Wrapper) : Handle := .function w.native

def header (w : Wrapper) : String :=
  (if w.isStatic then "public static" else "public") ++ " " ++ w.returnType ++ " " ++ w.name ++
    "(" ++ Parameter.declarations w.parameters ++ ")"

def buffer : String := "ParamsBuffer"

def owner (isStatic : Bool) : String := if isStatic then "null" else "this"

def invocation (w : Wrapper) (argument : String) : Code :=
  let target :=
    if w.isStatic then "InvokeNativeStaticFunction(" ++ Handle.nativeType.text
    else "InvokeNativeFunction(NativeObject"
  [.line (target ++ ", " ++ w.handle.text ++ ", " ++ argument ++ ");")]

def allocation (w : Wrapper) : Code :=
  [.line ("byte* ParamsBufferAllocation = stackalloc byte[" ++
      (Handle.paramsSize w.native).text ++ "];"),
    .line ("IntPtr " ++ buffer ++ " = (IntPtr) ParamsBufferAllocation;"),
    .line ("UFunctionExporter.CallInitializeFunctionParams(" ++ w.handle.text ++ ", " ++ buffer ++
      ");")]

def body (w : Wrapper) : Code :=
  match w.exchange with
  | none => w.invocation "IntPtr.Zero"
  | some x =>
    Code.rawMemory
      (w.allocation ++ Code.blank ++ x.inputs.flatMap Statement.code ++ Code.blank ++
        w.invocation buffer ++ Code.blank ++ x.outputs.flatMap Statement.code)

def code (w : Wrapper) : Code :=
  Code.blank ++ w.fields.map (fun f => .line f.text) ++ Code.block w.header w.body

def reads (w : Wrapper) : List Handle :=
  (if w.isStatic then [.nativeType] else []) ++ [w.handle] ++
    match w.exchange with
    | none => []
    | some x =>
      .paramsSize w.native ::
        (x.inputs.flatMap Statement.reads ++ x.outputs.flatMap Statement.reads)

end Wrapper

/-- A member that native code calls: an implementation to override, and its invoker. -/
structure EventStub where
  native : String
  name : String
  returnType : String
  returnsValue : Bool
  parameters : List Parameter
  fields : List Field
  /-- What the implementation does unless overridden. -/
  defaults : List Statement
  /-- Reads and declarations before the call. -/
  inputs : List Statement
  outputs : List Statement
  deriving Repr

namespace EventStub

def buffer : String := "buffer"

def returnBuffer : String := "returnBuffer"

def returnValue : String := "returnValue"

def implementation (e : EventStub) : String := e.name ++ "_Implementation"

def header (e : EventStub) : String :=
  "protected virtual " ++ e.returnType ++ " " ++ e.implementation ++ "(" ++
    Parameter.declarations e.parameters ++ ")"

def invokerHeader (e : EventStub) : String :=
  "void Invoke_" ++ e.native ++ "(IntPtr " ++ buffer ++ ", IntPtr " ++ returnBuffer ++ ")"

def call (e : EventStub) : Code :=
  let called := e.implementation ++ "(" ++ Parameter.arguments e.parameters ++ ");"
  [.line (if e.returnsValue then e.returnType ++ " " ++ returnValue ++ " = " ++ called else called)]

def code (e : EventStub) : Code :=
  Code.blank ++ e.fields.map (fun f => .line f.text) ++
    [.line "[UFunction(FunctionFlags.BlueprintEvent)]"] ++
    Code.block e.header (e.defaults.flatMap Statement.code) ++ Code.blank ++
    Code.block e.invokerHeader
      (Code.rawMemory
        (e.inputs.flatMap Statement.code ++ e.call ++ e.outputs.flatMap Statement.code))

def reads (e : EventStub) : List Handle :=
  e.defaults.flatMap Statement.reads ++
    (e.inputs.flatMap Statement.reads ++ e.outputs.flatMap Statement.reads)

end EventStub

structure InterfaceMethod where
  name : String
  returnType : String
  parameters : List Parameter
  deriving Repr

def InterfaceMethod.code (m : InterfaceMethod) : Code :=
  [.line (m.returnType ++ " " ++ m.name ++ "(" ++ Parameter.declarations m.parameters ++ ");")]

end ScriptGlue
