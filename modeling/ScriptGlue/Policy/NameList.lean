import ScriptGlue.Action

/-! # Name lists

One list of a policy: sets of type names, and sets of pairs of a type and one of its members. A
document adds to a list field by field, so a malformed field leaves the fields before it added. A
document holds texts only; a single entry may be any name, as long as it can be looked up by.
-/

namespace ScriptGlue

structure NameList where
  classes : List Name := []
  structs : List Name := []
  enums : List Name := []
  enumEntries : List (Name × Name) := []
  functions : List (Name × Name) := []
  properties : List (Name × Name) := []
  functionCategories : List (Name × Name) := []
  deriving DecidableEq, Inhabited

namespace NameList

inductive TypeField where
  | classes
  | structs
  | enums
  deriving DecidableEq, Repr

inductive MemberField where
  | enumEntries
  | functions
  | properties
  | functionCategories
  deriving DecidableEq, Repr

def TypeField.all : List TypeField := [.classes, .structs, .enums]

def MemberField.all : List MemberField :=
  [.enumEntries, .functions, .properties, .functionCategories]

def TypeField.key : TypeField → String
  | .classes => "classes"
  | .structs => "structs"
  | .enums => "enums"

def MemberField.key : MemberField → String
  | .enumEntries => "enum_entries"
  | .functions => "functions"
  | .properties => "properties"
  | .functionCategories => "function_categories"

def types (l : NameList) : TypeField → List Name
  | .classes => l.classes
  | .structs => l.structs
  | .enums => l.enums

def members (l : NameList) : MemberField → List (Name × Name)
  | .enumEntries => l.enumEntries
  | .functions => l.functions
  | .properties => l.properties
  | .functionCategories => l.functionCategories

def pairAlike (a b : Name × Name) : Bool := a.1.alike b.1 && a.2.alike b.2

def hasPair (pairs : List (Name × Name)) (pair : Name × Name) : Bool :=
  pairs.any fun known => pairAlike known pair

def addPair (pairs : List (Name × Name)) (pair : Name × Name) : List (Name × Name) :=
  if hasPair pairs pair then pairs else pairs ++ [pair]

def addTypes (l : NameList) (field : TypeField) (names : List Name) : NameList :=
  match field with
  | .classes => { l with classes := names.foldl Value.addName l.classes }
  | .structs => { l with structs := names.foldl Value.addName l.structs }
  | .enums => { l with enums := names.foldl Value.addName l.enums }

def addMembers (l : NameList) (field : MemberField) (pairs : List (Name × Name)) : NameList :=
  match field with
  | .enumEntries => { l with enumEntries := pairs.foldl addPair l.enumEntries }
  | .functions => { l with functions := pairs.foldl addPair l.functions }
  | .properties => { l with properties := pairs.foldl addPair l.properties }
  | .functionCategories => { l with functionCategories := pairs.foldl addPair l.functionCategories }

def hasType (l : NameList) (field : TypeField) (name : Name) : Bool := name.memberOf (l.types field)

def hasMember (l : NameList) (field : MemberField) (owner member : Name) : Bool :=
  hasPair (l.members field) (owner, member)

def hasCategory (l : NameList) (owner category : Name) : Bool :=
  category.truthy && l.hasMember .functionCategories owner category

def addType (field : TypeField) (name : Value) : Action NameList Unit := do
  let name ← Action.ofExcept name.named
  modify fun l => l.addTypes field [name]

def addMember (field : MemberField) (owner member : Value) : Action NameList Unit := do
  let owner ← Action.ofExcept owner.named
  let member ← Action.ofExcept member.keyed
  modify fun l => l.addMembers field [(owner, member)]

def asksType (l : NameList) (field : TypeField) (name : Value) : Except Fault Bool := do
  return l.hasType field (← name.named)

/-- Functions and properties are asked for by name, entries and categories by any key. -/
def memberKey (field : MemberField) (member : Value) : Except Fault Name :=
  match field with
  | .functions | .properties => member.named
  | .enumEntries | .functionCategories => member.keyed

/-- Whether a member is in a set; a function without a category is not looked up. -/
def asksMember (l : NameList) (field : MemberField) (owner member : Value) : Except Fault Bool :=
  if field = .functionCategories && !member.truthy then .ok false
  else do
    let owner ← owner.named
    return l.hasMember field owner (← memberKey field member)

def size (l : NameList) : Nat :=
  (TypeField.all.flatMap l.types).length + (MemberField.all.flatMap l.members).length

def names? : Value → Option (List Name)
  | .list items => if items.all Value.isText then some items else none
  | _ => none

def pair? : Value → Option (Name × Name)
  | .list [.text a, .text b] => some (.text a, .text b)
  | _ => none

def pairs? : Value → Option (List (Name × Name))
  | .list items => items.mapM pair?
  | _ => none

/-- Adds one set of type names; an absent set adds nothing. -/
def readTypes (fields : List (String × Value)) (field : TypeField) : Action NameList Unit :=
  match names? ((fields.lookup field.key).getD (.list [])) with
  | some names => modify fun l => l.addTypes field names
  | none => throw (.policy (.notNames field.key))

/-- Adds one set of members; an absent set adds nothing. -/
def readMembers (fields : List (String × Value)) (field : MemberField) : Action NameList Unit :=
  match pairs? ((fields.lookup field.key).getD (.list [])) with
  | some pairs => modify fun l => l.addMembers field pairs
  | none => throw (.policy (.notPairs field.key))

def update : Value → Action NameList Unit
  | .object fields => do
    TypeField.all.forM (readTypes fields)
    MemberField.all.forM (readMembers fields)
  | _ => throw (.policy .listNotMapping)

end NameList

end ScriptGlue
