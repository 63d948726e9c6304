import ScriptGlue.Graph.Basic

/-! # Receivers of extension methods

A static function of a library can be offered as a call on one of its parameters. The marker for
script methods chooses the first argument; after it come the parameter that defaults to self, the
one hinted as the world context, and the first argument with a conventional name of a world context.
The first rule that names a parameter decides, and a result parameter is no receiver.
-/

namespace ScriptGlue

structure Receiver where
  /-- Position among the parameters. -/
  position : Nat
  /-- Class it is called on in place of the parameter's type. -/
  override : Option Name
  deriving DecidableEq, Inhabited

def Function.positioned (f : Function) : List (Property × Nat) :=
  f.params.zipIdx.filter fun (p, _) => !p.isReturn

def Function.namedParam? (f : Function) (name : Name) : Option (Property × Nat) :=
  f.params.zipIdx.find? fun (p, _) => p.name.same name

namespace Receiver

def isConventional (name : Name) : Bool :=
  name = .text "WorldContext" || name = .text "WorldContextObject"

/-- Receiver of a function, if it has one; `world` is the class that world contexts are called
on. -/
def resolve (world : Option Name) (f : Function) : Option Receiver := Id.run do
  let mut chosen := if f.metadata.has "ScriptMethod" then f.positioned.head? else none
  let mut onWorld := false
  if chosen.isNone then
    chosen := (f.metadata.get? "DefaultToSelf").bind f.namedParam?
  if let some hint := f.metadata.get? "WorldContext" then
    if let some (p, _) := chosen then
      onWorld := p.name.same hint
    else
      chosen := f.namedParam? hint
      onWorld := chosen.isSome
  if chosen.isNone then
    chosen := f.positioned.find? fun (p, _) => isConventional p.name
    onWorld := chosen.isSome
  let some (p, position) := chosen | return none
  if p.isReturn then return none
  -- Some world contexts have no hint.
  if !onWorld then
    onWorld := isConventional p.name
  return some { position, override := if onWorld then world else none }

def worldClass : Name := .text "World"

/-- What a message names it by: the class in place of the parameter's type, or the parameter. -/
def label (r : Receiver) (f : Function) : String :=
  match r.override with
  | some name => name.plain
  | none => ((f.params[r.position]?).map Property.label).getD ""

end Receiver

def Function.argumentsBut (f : Function) (position : Nat) : List Property :=
  (f.positioned.filter fun (_, i) => i != position).map Prod.fst

structure ExtensionMethod where
  function : Function
  receiver : Receiver
  library : TypeId
  deriving Inhabited

end ScriptGlue
