import ScriptGlue.Session.Gate
import ScriptGlue.Unit.Marshaller

/-! # Script types of properties

The script type and the marshaller of a property. Naming a type registers its module; choosing the
marshaller of a struct finds out whether the struct has the native layout. A reference that is not
there, or a container element that is not there, faults. The type of a delegate is the value that
the document gives, which is a text in every sound document.
-/

namespace ScriptGlue.Session

def wrapReference (kind : PropertyKind) (name : String) : String :=
  match kind with
  | .subclass => "SubclassOf<" ++ name ++ ">"
  | .softObject => "TSoftObjectPtr<" ++ name ++ ">"
  | .weakObject => "TWeakObjectPtr<" ++ name ++ ">"
  | _ => name

def simpleType (kind : PropertyKind) (refName : Value) (ref : Option TypeId) : Generation Name :=
  match kind with
  | .bool => return .text "bool"
  | .name => return .text "Name"
  | .string => return .text "string"
  | .text => return .text "Text"
  | .delegate => return refName
  | .multicastDelegate => return refName
  | .enum | .struct | .interface | .object | .subclass | .softObject | .weakObject => do
    return .text (wrapReference kind (← qualifiedRef ref))
  | kind => return .text (kind.numeric?.getD "")

def typeArguments (types : List Name) : Generation String :=
  match types.mapM Value.text? with
  | some texts => return String.intercalate ", " texts
  | none => throw .wrongType

mutual

def typeName : Property → Generation Name
  | ⟨_, kind, _, refName, ref, inner, value, _, _, _⟩ =>
    match kind with
    | .array => do
      let element ← elementTypeName inner
      return .text ("System.Collections.Generic.IList<" ++ (← typeArguments [element]) ++ ">")
    | .set => do
      let element ← elementTypeName inner
      return .text ("System.Collections.Generic.ISet<" ++ (← typeArguments [element]) ++ ">")
    | .map => do
      let key ← elementTypeName inner
      let value ← elementTypeName value
      return .text
        ("System.Collections.Generic.IDictionary<" ++ (← typeArguments [key, value]) ++ ">")
    | kind => simpleType kind refName ref

def elementTypeName : Option Property → Generation Name
  | some p => typeName p
  | none => throw .missingPart

end

def scriptType (p : Property) : Generation String := return (← typeName p).plain

def simpleMarshaller (kind : PropertyKind) (refName : Value) (ref : Option TypeId) :
    Generation Marshaller :=
  match kind with
  | .bool => return .truthValue
  | .enum => return .enumeration (← qualifiedRef ref)
  | .name => return .blittable "Name"
  | .string => return .string
  | .text => return .text
  | .object => return .object (← qualifiedRef ref)
  | .subclass => return .subclass (← qualifiedRef ref)
  | .softObject => return .softObject (← qualifiedRef ref)
  | .weakObject => return .weakObject (← qualifiedRef ref)
  | .struct => do
    let blittable ← isStructBlittable ref
    let type ← qualifiedRef ref
    return if blittable then .blittable type else .mirror type
  | .interface => return .interface (← qualifiedRef ref)
  | .delegate => return .delegate refName.plain
  | .multicastDelegate => return .multicastDelegate refName.plain
  | kind => return .blittable (kind.numeric?.getD "")

def elementTypes (elements : List (Option Property)) : Generation String := do
  typeArguments (← elements.mapM elementTypeName)

mutual

def marshallerAt : Property → String → Generation Marshaller
  | ⟨_, kind, _, refName, ref, inner, value, _, _, _⟩, slot =>
    match kind with
    | .array => do
      let element ← elementMarshaller inner
      return .array (← elementTypes [inner]) (.property slot) element
    | .set => do
      let element ← elementMarshaller inner
      return .set (← elementTypes [inner]) (.property slot) element
    | .map => do
      let key ← elementMarshaller inner
      let val ← elementMarshaller value
      return .map (← elementTypes [inner, value]) (.property slot) key val
    | kind => simpleMarshaller kind refName ref

def elementMarshaller : Option Property → Generation Marshaller
  | some p => marshallerAt p p.name.plain
  | none => throw .missingPart

end

/-- Marshaller of a property; without a slot its handles are kept under its own name. -/
def marshaller (p : Property) (slot : String) : Generation Marshaller :=
  marshallerAt p (if slot = "" then p.label else slot)

end ScriptGlue.Session
