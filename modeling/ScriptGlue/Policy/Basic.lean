import ScriptGlue.Policy.NameList

/-! # Filter policy

Which types and members are excluded, admitted in spite of an exclusion, or given relaxed access.
The predicates are the only questions the generator asks of a policy.

Names are added one by one, so those before a value that is no name stay.
-/

namespace ScriptGlue

structure Policy where
  blacklist : NameList := {}
  whitelist : NameList := {}
  greylist : NameList := {}
  /-- Latent and internal functions that are exported all the same. -/
  internalWhitelist : NameList := {}
  deriving DecidableEq, Inhabited

namespace Policy

inductive ListName where
  | blacklist
  | whitelist
  | greylist
  | internalWhitelist
  deriving DecidableEq, Repr

def ListName.all : List ListName := [.blacklist, .whitelist, .greylist, .internalWhitelist]

def ListName.key : ListName → String
  | .blacklist => "blacklist"
  | .whitelist => "whitelist"
  | .greylist => "greylist"
  | .internalWhitelist => "internal_whitelist"

def list (p : Policy) : ListName → NameList
  | .blacklist => p.blacklist
  | .whitelist => p.whitelist
  | .greylist => p.greylist
  | .internalWhitelist => p.internalWhitelist

def setList (p : Policy) (name : ListName) (l : NameList) : Policy :=
  match name with
  | .blacklist => { p with blacklist := l }
  | .whitelist => { p with whitelist := l }
  | .greylist => { p with greylist := l }
  | .internalWhitelist => { p with internalWhitelist := l }

def onList {α : Type} (name : ListName) (a : Action NameList α) : Action Policy α :=
  a.within (fun p => p.list name) fun l p => p.setList name l

def unknownKeys (fields : List (String × Value)) : List String :=
  let known := ListName.all.map ListName.key
  Text.sorted ((fields.map Prod.fst).filter fun k => !known.contains k)

def readList (fields : List (String × Value)) (name : ListName) : Action Policy Unit :=
  match fields.lookup name.key with
  | some data => onList name (NameList.update data)
  | none => pure ()

def update : Value → Action Policy Unit
  | .object fields =>
    match unknownKeys fields with
    | [] => ListName.all.forM (readList fields)
    | unknown => throw (.policy (.unknownLists unknown))
  | _ => throw (.policy .notMapping)

def ofDocument (data : Value) : Except Fault Policy :=
  match (update data).run {} with
  | (.ok (), p) => .ok p
  | (.error e, _) => .error e

def allowsClass (p : Policy) (name : Name) : Bool := !p.blacklist.hasType .classes name

def allowsStruct (p : Policy) (name : Name) : Bool := !p.blacklist.hasType .structs name

def allowsEnum (p : Policy) (name : Name) : Bool :=
  p.whitelist.hasType .enums name || !p.blacklist.hasType .enums name

def allowsEnumEntry (p : Policy) (enum entry : Name) : Bool :=
  p.whitelist.hasMember .enumEntries enum entry || !p.blacklist.hasMember .enumEntries enum entry

def allowsProperty (p : Policy) (owner name : Name) : Bool :=
  p.whitelist.hasMember .properties owner name || !p.blacklist.hasMember .properties owner name

/-- Admits a property whatever its flags: one by name, or all of a struct. -/
def forcesProperty (p : Policy) (owner name : Name) : Bool :=
  p.whitelist.hasMember .properties owner name || p.whitelist.hasType .structs owner

def relaxesProperty (p : Policy) (owner name : Name) : Bool :=
  p.greylist.hasMember .properties owner name

def allowsFunction (p : Policy) (owner name category : Name) : Bool :=
  (!p.blacklist.hasMember .functions owner name || p.whitelist.hasMember .functions owner name) &&
    !p.blacklist.hasCategory owner category

def allowsInternalFunction (p : Policy) (owner name : Name) : Bool :=
  p.internalWhitelist.hasMember .functions owner name

/-- Whether the function question has an answer: names are looked up, and so is the category of a
function that is not excluded by its own name. -/
def canAskFunction (p : Policy) (owner name category : Name) : Bool :=
  name.isKey &&
    (category.isKey || !category.truthy ||
      (p.blacklist.hasMember .functions owner name &&
        !p.whitelist.hasMember .functions owner name))

def asksFunction (p : Policy) (owner name category : Value) : Except Fault Bool := do
  let owner ← owner.named
  if p.canAskFunction owner name category then return p.allowsFunction owner name category
  else throw .wrongType

def addTypes (list : ListName) (field : NameList.TypeField) (names : List Value) :
    Action Policy Unit :=
  onList list (names.forM (NameList.addType field))

def addMembers (list : ListName) (field : NameList.MemberField) (owner : Value)
    (names : List Value) : Action Policy Unit :=
  onList list (names.forM (NameList.addMember field owner))

def ignoreClasses : List Value → Action Policy Unit := addTypes .blacklist .classes

def ignoreStructs : List Value → Action Policy Unit := addTypes .blacklist .structs

def ignoreFunctions : Value → List Value → Action Policy Unit := addMembers .blacklist .functions

def ignoreCategories : Value → List Value → Action Policy Unit :=
  addMembers .blacklist .functionCategories

def forceClasses : List Value → Action Policy Unit := addTypes .whitelist .classes

def allowInternal : Value → List Value → Action Policy Unit :=
  addMembers .internalWhitelist .functions

def relaxProperties : Value → List Value → Action Policy Unit := addMembers .greylist .properties

/-- The engine's own rules: what the script runtime replaces, components exported although not
blueprintable, and the internal hook that script classes override. -/
def engineRules : Action Policy Unit := do
  ignoreClasses [.text "AnimationBlueprintLibrary"]
  ignoreStructs [.text "SolverIterations"]
  ignoreCategories (.text "KismetMathLibrary") [.text "Math|Vector4"]
  forceClasses [.text "SpringArmComponent", .text "FloatingPawnMovement"]
  allowInternal (.text "Actor") [.text "UserConstructionScript"]

def withEngineRules (p : Policy) : Policy := (engineRules.run p).2

end Policy

end ScriptGlue
