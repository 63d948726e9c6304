import ScriptGlue.Proofs.Graph.Relocation
import ScriptGlue.Session.Unit

/-! # Parts of moved types

The parts of a unit that are read off a declaration alone do not change when the types that it
refers to lie elsewhere.
-/
namespace ScriptGlue

namespace Function
variable (f : TypeId → TypeId) (g : Function)

@[simp] theorem relocate_arguments :
    (g.relocate f).arguments = g.arguments.map (Property.relocate f) := by
  simp [arguments, List.filter_map, Function.comp_def]

@[simp] theorem relocate_returned? :
    (g.relocate f).returned? = g.returned?.map (Property.relocate f) := by
  have same : Property.isReturn ∘ Property.relocate f = Property.isReturn := by
    funext p
    simp
  rw [returned?, relocate_params, List.find?_map, same]
  rfl

theorem relocate_positioned :
    (g.relocate f).positioned = g.positioned.map (Prod.map (Property.relocate f) id) := by
  simp [positioned, List.zipIdx_map, List.filter_map, Function.comp_def]

theorem relocate_argumentsBut (position : Nat) :
    (g.relocate f).argumentsBut position = (g.argumentsBut position).map (Property.relocate f) := by
  simp [argumentsBut, relocate_positioned, List.filter_map, Function.comp_def]

end Function

namespace Session
variable (f : TypeId → TypeId) (p : Property) (g : Function)

@[simp] theorem propertyName_relocate (owner : Name) :
    propertyName (p.relocate f) owner = propertyName p owner := by simp [propertyName]

@[simp] theorem propertyText_relocate (owner : Name) :
    propertyText (p.relocate f) owner = propertyText p owner := by simp [propertyText]

@[simp] theorem parameterName_relocate : parameterName (p.relocate f) = parameterName p := by
  simp [parameterName]

@[simp] theorem parameterText_relocate : parameterText (p.relocate f) = parameterText p := by
  simp [parameterText]

@[simp] theorem passing_relocate : passing (p.relocate f) = passing p := by simp [passing]

@[simp] theorem slotOf_relocate (function : String) :
    slotOf function (p.relocate f) = slotOf function p := by simp [slotOf]

@[simp] theorem parameterOffset_relocate :
    parameterOffset (g.relocate f) (p.relocate f) = parameterOffset g p := by
  simp [parameterOffset]

@[simp] theorem propertyFields_relocate (isReadonly : Bool) :
    propertyFields (p.relocate f) isReadonly = propertyFields p isReadonly := by
  simp [propertyFields, handleFields]

@[simp] theorem parameterFields_relocate (function : String) :
    parameterFields function (p.relocate f) = parameterFields function p := by
  simp [parameterFields]

@[simp] theorem parameterLookups_relocate (function : String) :
    parameterLookups function (p.relocate f) = parameterLookups function p := by
  simp [parameterLookups]

@[simp] theorem functionName_relocate (owner : Name) :
    functionName (g.relocate f) owner = functionName g owner := rfl

theorem inputsOf_relocate : inputsOf (g.relocate f) = (inputsOf g).map (Property.relocate f) := by
  simp [inputsOf, List.filter_map, Function.comp_def]

theorem outputsOf_relocate : outputsOf (g.relocate f) = (outputsOf g).map (Property.relocate f) := by
  simp [outputsOf, List.filter_map, Function.comp_def]

@[simp] theorem blockFields_relocate : blockFields (g.relocate f) = blockFields g := by
  simp [blockFields, List.flatMap_map]

@[simp] theorem blockLookups_relocate : blockLookups (g.relocate f) = blockLookups g := by
  simp [blockLookups, List.flatMap_map]

@[simp] theorem functionLookups_relocate : functionLookups (g.relocate f) = functionLookups g := by
  simp [functionLookups, functionLookup]

@[simp] theorem eventLookups_relocate : eventLookups (g.relocate f) = eventLookups g := by
  simp [eventLookups, functionLookup]

@[simp] theorem defaultStatements_relocate :
    defaultStatements (g.relocate f) = defaultStatements g := by
  simp only [defaultStatements, Function.relocate_arguments, Function.relocate_returned?,
    List.filter_map, List.map_map, Option.toList_map]
  simp [Function.comp_def]

theorem distinctLookups_relocate (owner : Name) (taken : List Name) (ps : List Property) :
    distinctLookups owner taken (ps.map (Property.relocate f)) = distinctLookups owner taken ps := by
  induction ps generalizing taken with
  | nil => rfl
  | cons p rest ih =>
    simp only [List.map_cons, distinctLookups, propertyName_relocate, ih]
    simp [propertyLookups]

theorem staticConstructor_relocate (t : TypeNode) (ps : List Property) (gs es : List Function) :
    staticConstructor (t.relocate f) (ps.map (Property.relocate f)) (gs.map (Function.relocate f))
        (es.map (Function.relocate f)) = staticConstructor t ps gs es := by
  simp [staticConstructor, distinctLookups_relocate, scriptLabel, scriptName, Function.comp_def]

end Session

end ScriptGlue
