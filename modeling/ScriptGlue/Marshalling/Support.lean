import ScriptGlue.Graph.Basic
import ScriptGlue.Policy.Basic

/-! # What each kind supports

The roles a property of a kind may take, and the constraints a concrete property must meet: what it
refers to is there, is of the right variant, and is not excluded.
-/

namespace ScriptGlue

/-- The roles a kind may take in generated code. -/
inductive Role where
  | property
  | structProperty
  | parameter
  | returnValue
  | overridableParameter
  | overridableReturnValue
  | fixedArray
  | element
  deriving DecidableEq, Repr

namespace PropertyKind

def inFixedArray : PropertyKind → Bool
  | bool => true
  | enum => true
  | name => true
  | object => true
  | struct => true
  | kind => kind.numeric?.isSome

def isDelegate : PropertyKind → Bool
  | delegate => true
  | multicastDelegate => true
  | _ => false

def supports (kind : PropertyKind) : Role → Bool
  | .property => kind != delegate
  | .structProperty => !kind.isDelegate && kind != set && kind != map && kind != interface
  | .parameter => kind != multicastDelegate
  | .returnValue => !kind.isDelegate
  | .overridableParameter => !kind.isDelegate && kind != text && kind != set && kind != map
  | .overridableReturnValue => !kind.isDelegate && kind != text && !kind.isContainer
  | .fixedArray => kind.inFixedArray
  | .element => !kind.isDelegate && !kind.isContainer

def defaultValue : PropertyKind → String
  | bool => "false"
  | string => "string.Empty"
  | object => "null"
  | interface => "null"
  | delegate => "null"
  | multicastDelegate => "null"
  | _ => "default"

end PropertyKind

namespace Property

def refSatisfies (store : TypeStore) (p : Property) (test : TypeNode → Bool) : Bool :=
  p.ref.any fun id => test (store.type id)

def isHandledAlone (policy : Policy) (store : TypeStore) (p : Property) : Bool :=
  match p.kind with
  | .enum => p.refSatisfies store fun t => t.isEnum && policy.allowsEnum t.name
  | .struct => p.refSatisfies store fun t => t.isPlainStruct && policy.allowsStruct t.name
  | .object | .subclass | .softObject | .weakObject =>
    p.refSatisfies store fun t => t.isClass && policy.allowsClass t.name
  | .interface => p.refSatisfies store TypeNode.isClass
  | .delegate | .multicastDelegate => p.refName.truthy
  | _ => true

/-- An element that is there, is no container, and meets the constraints of its kind. -/
def isHandledElement (policy : Policy) (store : TypeStore) : Option Property → Bool
  | some e => !e.kind.isContainer && e.kind.supports .element && e.isHandledAlone policy store
  | none => false

def isHandled (policy : Policy) (store : TypeStore) (p : Property) : Bool :=
  if p.kind.isContainer then p.elements.all (isHandledElement policy store)
  else p.isHandledAlone policy store

end Property

end ScriptGlue
