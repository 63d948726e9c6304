import ScriptGlue.Unit.Handle

/-! # Marshallers

The expressions that read values from native memory and write them there. Structs whose layout is
the native one go through the blittable marshaller, others through the one their unit defines;
containers take the marshallers of their elements.
-/

namespace ScriptGlue

/-- A marshaller expression; the texts are script types. -/
inductive Marshaller where
  | blittable (type : String)
  | truthValue
  | enumeration (type : String)
  | string
  | text
  | object (type : String)
  | subclass (type : String)
  | softObject (type : String)
  | weakObject (type : String)
  /-- The marshaller that the unit of a struct defines. -/
  | mirror (type : String)
  | array (type : String) (handle : Handle) (element : Marshaller)
  | set (type : String) (handle : Handle) (element : Marshaller)
  | map (types : String) (handle : Handle) (key value : Marshaller)
  | interface (type : String)
  | delegate (type : String)
  | multicastDelegate (type : String)
  deriving DecidableEq, Repr, Inhabited

namespace Marshaller

def functions (element : String) : String := element ++ ".ToNative, " ++ element ++ ".FromNative"

def mirrorName (type : String) : String := type ++ "Marshaler"

def expression : Marshaller → String
  | .blittable type => "BlittableMarshaller<" ++ type ++ ">"
  | .truthValue => "BoolMarshaller"
  | .enumeration type => "EnumMarshaller<" ++ type ++ ">"
  | .string => "StringMarshaller"
  | .text => "TextMarshaller"
  | .object type => "ObjectMarshaller<" ++ type ++ ">"
  | .subclass type => "SubclassOfMarshaller<" ++ type ++ ">"
  | .softObject type => "SoftObjectMarshaller<" ++ type ++ ">"
  | .weakObject type => "WeakObjectMarshaller<" ++ type ++ ">"
  | .mirror type => mirrorName type
  | .array type handle element =>
    "new ArrayMarshaller<" ++ type ++ ">(" ++ handle.text ++ ", " ++
      functions element.expression ++ ")"
  | .set type handle element =>
    "new SetMarshaller<" ++ type ++ ">(" ++ handle.text ++ ", " ++
      functions element.expression ++ ")"
  | .map types handle key value =>
    "new MapMarshaller<" ++ types ++ ">(" ++ handle.text ++ ", " ++
      functions key.expression ++ ", " ++ functions value.expression ++ ")"
  | .interface type => "ScriptInterfaceMarshaller<" ++ type ++ ">"
  | .delegate type => "DelegateMarshaller<" ++ type ++ ">"
  | .multicastDelegate type => "MulticastDelegateMarshaller<" ++ type ++ ">"

def reads : Marshaller → List Handle
  | .array _ handle element => handle :: (element.reads ++ element.reads)
  | .set _ handle element => handle :: (element.reads ++ element.reads)
  | .map _ handle key value =>
    handle :: (key.reads ++ key.reads ++ (value.reads ++ value.reads))
  | _ => []

end Marshaller

end ScriptGlue
