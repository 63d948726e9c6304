import ScriptGlue.Code.Layout
import ScriptGlue.Unit.Handle

/-! # Static construction

The native lookups a static constructor makes, each of which gives one handle its value, and the
constructor that makes them in order.
-/

namespace ScriptGlue

inductive Query where
  | classNamed (name : String)
  | structNamed (name : String)
  | offset (owner : Handle) (name : String)
  | property (owner : Handle) (name : String)
  | function (name : String)
  | paramsSize (owner : Handle)
  | structSize
  deriving DecidableEq, Repr

namespace Query

def expression : Query → String
  | .classNamed name => "UCoreUObjectExporter.CallGetNativeClassFromName(\"" ++ name ++ "\")"
  | .structNamed name => "UCoreUObjectExporter.CallGetNativeStructFromName(\"" ++ name ++ "\")"
  | .offset owner name =>
    "FPropertyExporter.CallGetPropertyOffsetFromName(" ++ owner.text ++ ", \"" ++ name ++ "\")"
  | .property owner name =>
    "FPropertyExporter.CallGetNativePropertyFromName(" ++ owner.text ++ ", \"" ++ name ++ "\")"
  | .function name =>
    "UClassExporter.CallGetNativeFunctionFromClassAndName(" ++ Handle.nativeType.text ++ ", \"" ++
      name ++ "\")"
  | .paramsSize owner =>
    "UFunctionExporter.CallGetNativeFunctionParamsSize(" ++ owner.text ++ ")"
  | .structSize =>
    "UScriptStructExporter.CallGetNativeStructSize(" ++ Handle.nativeType.text ++ ")"

def reads : Query → List Handle
  | .classNamed _ => []
  | .structNamed _ => []
  | .offset owner _ => [owner]
  | .property owner _ => [owner]
  | .function _ => [.nativeType]
  | .paramsSize owner => [owner]
  | .structSize => [.nativeType]

end Query

/-- Gives a handle its value; a local one is declared there and then. -/
structure Lookup where
  isLocal : Bool := false
  target : Handle
  query : Query
  deriving DecidableEq, Repr

def Lookup.text (l : Lookup) : String :=
  (if l.isLocal then l.target.scriptType ++ " " else "") ++ l.target.text ++ " = " ++
    l.query.expression ++ ";"

def Lookup.code (l : Lookup) : Code := [.line l.text]

/-- What a static constructor looks up after the properties. -/
inductive Construction where
  /-- Functions of a class, then its events, each with the lookups it needs. -/
  | ofClass (functions events : List (List Lookup))
  /-- Size of a struct. -/
  | ofStruct (size : Lookup)
  deriving Repr

/-- The static constructor of a type, with the handles declared before it. -/
structure StaticConstructor where
  fields : List Field
  typeName : String
  type : Lookup
  properties : List Lookup
  rest : Construction
  deriving Repr

namespace Construction

def eventCode (lookups : List Lookup) : Code :=
  if lookups.isEmpty then [] else lookups.flatMap Lookup.code ++ Code.blank

def code : Construction → Code
  | .ofClass functions events =>
    Code.blank ++ functions.flatten.flatMap Lookup.code ++ Code.blank ++
      events.flatMap eventCode ++ Code.blank
  | .ofStruct size => Code.blank ++ size.code

def lookups : Construction → List Lookup
  | .ofClass functions events => functions.flatten ++ events.flatten
  | .ofStruct size => [size]

end Construction

namespace StaticConstructor

def lookups (c : StaticConstructor) : List Lookup := c.type :: c.properties ++ c.rest.lookups

def code (c : StaticConstructor) : Code :=
  c.fields.map (fun f => .line f.text) ++
    Code.block ("static " ++ c.typeName ++ "()")
      (c.type.code ++ Code.blank ++ c.properties.flatMap Lookup.code ++ c.rest.code)

end StaticConstructor

end ScriptGlue
