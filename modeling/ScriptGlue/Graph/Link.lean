import ScriptGlue.Graph.Reader

/-! # Linking

The types of a document join the store with their names resolved: supers and interfaces to
classes, property types to any type, each to the newest declaration of its name. Types read before
are not touched.
-/

namespace ScriptGlue

mutual

def Property.link (find : Name → Option TypeId) : Property → Property
  | ⟨name, kind, dim, refName, ref, inner, value, flags, metadata, owner⟩ =>
    ⟨name, kind, dim, refName, if refName.truthy then find refName else ref,
      linkElement find inner, linkElement find value, flags, metadata, owner⟩

def linkElement (find : Name → Option TypeId) : Option Property → Option Property
  | some p => some (Property.link find p)
  | none => none

end

mutual

def Property.refNames : Property → List Name
  | ⟨_, _, _, refName, _, inner, value, _, _, _⟩ =>
    (if refName.truthy then [refName] else []) ++ elementRefNames inner ++ elementRefNames value

def elementRefNames : Option Property → List Name
  | some p => Property.refNames p
  | none => []

end

def Function.link (find : Name → Option TypeId) (f : Function) : Function :=
  { f with params := f.params.map (Property.link find) }

/-- Resolves the names of a class; names of other variants are no classes and drop out. -/
def ClassBody.link (find : Name → Option TypeId) (isClass : TypeId → Bool) (c : ClassBody) :
    ClassBody :=
  { c with
    super := (find c.superName).filter isClass
    interfaces := c.interfaceNames.filterMap fun n => (find n).filter isClass
    functions := c.functions.map (Function.link find)
    properties := c.properties.map (Property.link find) }

def TypeBody.link (find : Name → Option TypeId) (isClass : TypeId → Bool) : TypeBody → TypeBody
  | .plainClass c => .plainClass (c.link find isClass)
  | .interface c => .interface (c.link find isClass)
  | .struct properties => .struct (properties.map (Property.link find))
  | .enum entries underlying => .enum entries underlying

def TypeNode.link (find : Name → Option TypeId) (isClass : TypeId → Bool) (t : TypeNode) :
    TypeNode :=
  { t with body := t.body.link find isClass }

def TypeNode.linkNames (t : TypeNode) : List Name :=
  match t.classBody? with
  | some c =>
    c.superName :: c.interfaceNames ++
      (c.functions.flatMap fun f => f.params.flatMap Property.refNames) ++
      c.properties.flatMap Property.refNames
  | none => (t.properties?.getD []).flatMap Property.refNames

namespace Graph

structure Extension where
  store : TypeStore
  graph : Graph
  /-- Positions of the types the document declares. -/
  added : List TypeId
  deriving Inhabited

def extend (store : TypeStore) (known : Graph) (data : Value) : Except Fault Extension := do
  let (modules, nodes) ← readDocument known.modules data
  let added := List.range' store.size nodes.length
  let members := known.members ++ added
  let joined : TypeStore := store ++ nodes.toArray
  let _ ← (nodes.map TypeNode.name).mapM Value.keyed
  let _ ← (nodes.flatMap TypeNode.linkNames).mapM Value.keyed
  let find := newest? joined members
  let linked := nodes.map (TypeNode.link find fun id => (joined.type id).isClass)
  return { store := store ++ linked.toArray, graph := { modules, members }, added }

def ofDocument (store : TypeStore) (data : Value) : Except Fault Extension :=
  extend store {} data

end Graph

end ScriptGlue
