import ScriptGlue.Graph.Basic

/-! # Class hierarchies

The supers of a class, nearest first. A chain of supers may loop; the walk ends at the first class
it meets again.
-/

namespace ScriptGlue

def superChain (store : TypeStore) : Nat → List TypeId → Option TypeId → List TypeId
  | 0, _, _ => []
  | _ + 1, _, none => []
  | fuel + 1, seen, some id =>
    if seen.contains id then []
    else id :: superChain store fuel (id :: seen) (store.type id).super

def ancestors (store : TypeStore) (id : TypeId) : List TypeId :=
  superChain store (store.size + 1) [] (store.type id).super

def isChildOf (store : TypeStore) (id : TypeId) (name : Name) : Bool :=
  (store.type id).name.same name ||
    (ancestors store id).any fun a => (store.type a).name.same name

def objectClass : Name := .text "Object"

def interfaceClass : Name := .text "Interface"

def subsystemClass : Name := .text "Subsystem"

def functionLibraryClass : Name := .text "BlueprintFunctionLibrary"

def isInterface (store : TypeStore) (id : TypeId) : Bool :=
  (store.type id).variant == .interface || isChildOf store id interfaceClass

end ScriptGlue
