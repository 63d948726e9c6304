import Mathlib.Data.List.Flatten
import ScriptGlue.Proofs.Session.MemberNames
import ScriptGlue.Proofs.Session.MirrorFields
import ScriptGlue.Proofs.Session.ProvidedHandles

/-! # Names of class members

The body of a class declares handles, properties, wrappers, and for each event an implementation and
its invoker. Each sort is named by a rule of its own from the native names, and only the properties
are kept apart from each other. So different native names can end as one name: with the mark of a
truth value off, with an underscore that tells a member from its class or joins a function and its
parameter, or as a keyword that is escaped. It is said here just when no two members of a class have
one name.
-/
namespace ScriptGlue
open ScriptGlue.Action

namespace EventStub

def invoker (e : EventStub) : String := "Invoke_" ++ e.native

theorem invokerHeader_eq (e : EventStub) :
    e.invokerHeader = "void " ++ e.invoker ++ "(IntPtr " ++ buffer ++ ", IntPtr " ++ returnBuffer ++
      ")" := by
  have word : "void Invoke_" = "void " ++ "Invoke_" := rfl
  unfold invokerHeader invoker
  simp only [word, String.append_assoc]

end EventStub

/-- Names that the body of a class declares, but for the constructors: the handles, the properties
and wrappers, the invokers of the events and their implementations. -/
def ClassUnit.memberNames (u : ClassUnit) : List String :=
  (u.fields.map fun f => f.handle.text) ++
    (u.properties.map WrapperProperty.name ++ u.functions.map Wrapper.name) ++
    u.events.map EventStub.invoker ++ u.events.map EventStub.implementation

namespace Session

variable {s u v w x : Session} {t : TypeNode} {f : Function} {p : Property} {ps : List Property}
  {fs es : List Function} {owner : Name} {unit : ClassUnit}

def functionText (f : Function) (owner : Name) : String := textOf (functionName f owner)

def invokerText (f : Function) : String := "Invoke_" ++ f.label

def implementationText (f : Function) (owner : Name) : String :=
  functionText f owner ++ "_Implementation"

def parameterSlots (f : Function) : List String := f.params.map (slotOf f.label)

def blockHandles (f : Function) : List Handle := (blockFields f).map Field.handle

/-- Handles that a class keeps: the type if a function is static, those of the properties it shows,
and those of its functions and events. -/
def classHandles (owner : Name) (ps : List Property) (fs es : List Function) : List Handle :=
  (if fs.any fun f => f.has .static then [.nativeType] else []) ++
    ((firstNamed owner [] ps).flatMap (fun p => keptHandles p.label p) ++
      (fs.flatMap (fun f => .function f.label :: blockHandles f) ++ es.flatMap blockHandles))

def classSlots (owner : Name) (ps : List Property) (fs es : List Function) : List String :=
  (firstNamed owner [] ps).map Property.label ++
    (fs.flatMap parameterSlots ++ es.flatMap parameterSlots)

/-- Names under which a class is used from a script: of the properties it shows and of its
wrappers. -/
def calledNames (owner : Name) (ps : List Property) (fs : List Function) : List String :=
  (firstNamed owner [] ps).map (propertyText · owner) ++ fs.map (functionText · owner)

/-- Each handle is there at most as often as its slot, its function or its parameter block. -/
def Covered (hs : List Handle) (slots functions blocks : List String) : Prop :=
  ∀ h, hs.count h ≤ match h with
    | .nativeType | .dataSize => 0
    | .offset slot | .property slot | .length slot => slots.count slot
    | .function name => functions.count name
    | .paramsSize name => blocks.count name

theorem Covered.append {hs ks : List Handle} {slots slots' functions functions' blocks blocks' :
    List String} (h : Covered hs slots functions blocks)
    (g : Covered ks slots' functions' blocks') :
    Covered (hs ++ ks) (slots ++ slots') (functions ++ functions') (blocks ++ blocks') := by
  intro handle
  have both := Nat.add_le_add (h handle) (g handle)
  cases handle <;> simpa only [List.count_append] using both

theorem Covered.flatMap {α : Type} {hs : α → List Handle} {slots functions blocks : α → List String}
    (xs : List α) (h : ∀ x ∈ xs, Covered (hs x) (slots x) (functions x) (blocks x)) :
    Covered (xs.flatMap hs) (xs.flatMap slots) (xs.flatMap functions) (xs.flatMap blocks) := by
  induction xs with
  | nil =>
    intro handle
    exact Nat.zero_le _
  | cons x xs ih =>
    obtain ⟨here, others⟩ := List.forall_mem_cons.1 h
    exact here.append (ih others)

theorem covered_kept (slot : String) (p : Property) :
    Covered (keptHandles slot p) [slot] [] [] := by
  intro handle
  unfold keptHandles
  cases handle <;> split <;> split <;> simp [List.count_cons]

theorem covered_parameter (function : String) (p : Property) :
    Covered ((parameterFields function p).map Field.handle) [slotOf function p] [] [] := by
  intro handle
  unfold parameterFields
  cases handle <;> split <;> simp [List.count_cons]

theorem covered_block (f : Function) :
    Covered (blockHandles f) (parameterSlots f) [] [f.label] := by
  have size : Covered ((if f.params.isEmpty then [] else [⟨.static, .paramsSize f.label⟩] :
      List Field).map Field.handle) [] [] [f.label] := by
    intro handle
    cases handle <;> split <;> simp [List.count_cons]
  have both := size.append (Covered.flatMap f.params fun p _ => covered_parameter f.label p)
  have none : f.params.flatMap (fun _ => ([] : List String)) = [] :=
    List.flatMap_eq_nil_iff.2 fun _ _ => rfl
  rw [← List.map_flatMap, ← List.map_append, ← List.map_eq_flatMap, none] at both
  exact both

theorem covered_function (f : Function) :
    Covered (.function f.label :: blockHandles f) (parameterSlots f) [f.label] [f.label] := by
  have function : Covered [.function f.label] [] [f.label] [] := by
    intro handle
    cases handle <;> simp [List.count_cons]
  exact function.append (covered_block f)

theorem covered_members (owner : Name) (ps : List Property) (fs es : List Function) :
    Covered ((firstNamed owner [] ps).flatMap (fun p => keptHandles p.label p) ++
      (fs.flatMap (fun f => .function f.label :: blockHandles f) ++ es.flatMap blockHandles))
      (classSlots owner ps fs es) (fs.map Function.label) ((fs ++ es).map Function.label) := by
  have none {α : Type} (xs : List α) : xs.flatMap (fun _ => ([] : List String)) = [] :=
    List.flatMap_eq_nil_iff.2 fun _ _ => rfl
  have all := (Covered.flatMap (firstNamed owner [] ps) fun p _ => covered_kept p.label p).append
    ((Covered.flatMap fs fun f _ => covered_function f).append
      (Covered.flatMap es fun f _ => covered_block f))
  rw [none, none, List.nil_append, List.append_nil, List.nil_append] at all
  rw [← List.map_eq_flatMap, ← List.map_eq_flatMap, ← List.map_eq_flatMap, ← List.map_append] at all
  exact all

theorem offsets_sublist (owner : Name) (ps : List Property) (fs es : List Function) :
    ((classSlots owner ps fs es).map Handle.offset).Sublist (classHandles owner ps fs es) := by
  have block (f : Function) : ((parameterSlots f).map Handle.offset).Sublist (blockHandles f) := by
    unfold parameterSlots blockHandles blockFields
    rw [List.map_append, List.map_flatMap, List.map_map, List.map_eq_flatMap]
    refine (List.Sublist.flatMap_right _ fun p _ => ?_).trans (List.sublist_append_right _ _)
    exact List.singleton_sublist.2 List.mem_cons_self
  refine List.Sublist.trans ?_ (List.sublist_append_right _ _)
  unfold classSlots
  rw [List.map_append, List.map_append, List.map_flatMap, List.map_flatMap, List.map_map,
    List.map_eq_flatMap]
  refine (List.Sublist.flatMap_right _ fun p _ => ?_).append
    ((List.Sublist.flatMap_right _ fun f _ => ?_).append
      (List.Sublist.flatMap_right _ fun f _ => block f))
  · exact List.singleton_sublist.2 List.mem_cons_self
  · exact (block f).cons _

/-- The handles of a class are distinct just if their slots are, its functions and events having
names of their own in native code. -/
theorem nodup_classHandles_iff (natives : ((fs ++ es).map Function.label).Nodup) :
    (classHandles owner ps fs es).Nodup ↔ (classSlots owner ps fs es).Nodup := by
  constructor
  · exact fun distinct => (distinct.sublist (offsets_sublist owner ps fs es)).of_map _
  · intro distinct
    have functions : (fs.map Function.label).Nodup := by
      rw [List.map_append] at natives
      exact natives.of_append_left
    rw [List.nodup_iff_count_le_one]
    intro handle
    have members := covered_members owner ps fs es handle
    rw [classHandles, List.count_append]
    cases handle with
    | nativeType =>
      have type : (if fs.any fun f => f.has .static then [Handle.nativeType] else []).count
          .nativeType ≤ 1 := by split <;> simp
      exact Nat.add_le_add type members
    | _ =>
      rw [List.count_eq_zero_of_not_mem (by split <;> simp), Nat.zero_add]
      first
      | exact members.trans (Nat.zero_le 1)
      | exact members.trans (List.nodup_iff_count_le_one.1 distinct _)
      | exact members.trans (List.nodup_iff_count_le_one.1 functions _)
      | exact members.trans (List.nodup_iff_count_le_one.1 natives _)

theorem handle_ne_implementation (h : Handle) (word : String) :
    h.text ≠ word ++ "_Implementation" := by
  intro same
  have ends := congrArg (fun word : String => word.toList.reverse.take 5) same
  cases h <;> simp [Handle.text] at ends

theorem nodup_implementations_iff :
    (es.map (implementationText · owner)).Nodup ↔ (es.map (functionText · owner)).Nodup := by
  have marked : es.map (implementationText · owner) =
      (es.map (functionText · owner)).map (· ++ "_Implementation") := by
    rw [List.map_map]
    rfl
  rw [marked, List.nodup_map_iff fun _ _ same => String.append_left_inj _ |>.1 same]

theorem nodup_invokers (natives : (es.map Function.label).Nodup) : (es.map invokerText).Nodup := by
  have marked : es.map invokerText = (es.map Function.label).map ("Invoke_" ++ ·) := by
    rw [List.map_map]
    rfl
  rw [marked, List.nodup_map_iff fun _ _ same => String.append_right_inj _ |>.1 same]
  exact natives

def declaredNames (owner : Name) (ps : List Property) (fs es : List Function) : List String :=
  (classHandles owner ps fs es).map Handle.text ++ calledNames owner ps fs ++ es.map invokerText ++
    es.map (implementationText · owner)

/-- Nothing that is called or overridden in a class is named like another such thing, or like one of
its handles or invokers; and no two handles have one slot. -/
structure MembersApart (owner : Name) (ps : List Property) (fs es : List Function) : Prop where
  slots : (classSlots owner ps fs es).Nodup
  called : (calledNames owner ps fs).Nodup
  overridden : (es.map (functionText · owner)).Nodup
  handles : ∀ h ∈ classHandles owner ps fs es,
    h.text ∉ calledNames owner ps fs ∧ h.text ∉ es.map invokerText
  invokers : ∀ e ∈ es, invokerText e ∉ calledNames owner ps fs
  implementations : ∀ e ∈ es, implementationText e owner ∉ calledNames owner ps fs ∧
    implementationText e owner ∉ es.map invokerText

instance : Decidable (MembersApart owner ps fs es) :=
  decidable_of_iff ((classSlots owner ps fs es).Nodup ∧ (calledNames owner ps fs).Nodup ∧
      (es.map (functionText · owner)).Nodup ∧
      (∀ h ∈ classHandles owner ps fs es,
        h.text ∉ calledNames owner ps fs ∧ h.text ∉ es.map invokerText) ∧
      (∀ e ∈ es, invokerText e ∉ calledNames owner ps fs) ∧
      ∀ e ∈ es, implementationText e owner ∉ calledNames owner ps fs ∧
        implementationText e owner ∉ es.map invokerText)
    ⟨fun ⟨slots, called, overridden, handles, invokers, implementations⟩ =>
        ⟨slots, called, overridden, handles, invokers, implementations⟩,
      fun ⟨slots, called, overridden, handles, invokers, implementations⟩ =>
        ⟨slots, called, overridden, handles, invokers, implementations⟩⟩

theorem nodup_declaredNames_iff (natives : ((fs ++ es).map Function.label).Nodup) :
    (declaredNames owner ps fs es).Nodup ↔ MembersApart owner ps fs es := by
  have events : (es.map Function.label).Nodup := by
    rw [List.map_append] at natives
    exact natives.of_append_right
  have handles : ((classHandles owner ps fs es).map Handle.text).Nodup ↔
      (classSlots owner ps fs es).Nodup := by
    rw [List.nodup_map_iff fun _ _ same => Handle.eq_of_text same, nodup_classHandles_iff natives]
  have apart {xs ys : List String} :
      (xs ++ ys).Nodup ↔ xs.Nodup ∧ ys.Nodup ∧ ∀ y ∈ ys, y ∉ xs := by
    rw [List.nodup_append', List.disjoint_right]
  rw [declaredNames, apart, apart, apart, handles, nodup_implementations_iff]
  simp only [nodup_invokers events, List.forall_mem_map, List.mem_append, not_or, true_and]
  constructor
  · rintro ⟨⟨⟨slots, called, own⟩, invokers⟩, overridden, implementations⟩
    exact {
      slots, called, overridden
      handles := fun h kept => ⟨fun among => own _ among (List.mem_map_of_mem kept), fun among => by
        obtain ⟨e, he, same⟩ := List.mem_map.1 among
        exact (invokers e he).1 (same ▸ List.mem_map_of_mem kept)⟩
      invokers := fun e he => (invokers e he).2
      implementations := fun e he => ⟨(implementations e he).1.2, (implementations e he).2⟩ }
  · intro apart
    refine ⟨⟨⟨apart.slots, apart.called, fun word among kept => ?_⟩, fun e he => ⟨fun kept => ?_,
      apart.invokers e he⟩⟩, apart.overridden, fun e he => ⟨⟨fun kept => ?_,
        (apart.implementations e he).1⟩, (apart.implementations e he).2⟩⟩
    · obtain ⟨h, there, rfl⟩ := List.mem_map.1 kept
      exact (apart.handles h there).1 among
    · obtain ⟨h, there, same⟩ := List.mem_map.1 kept
      exact (apart.handles h there).2 (same ▸ List.mem_map_of_mem he)
    · obtain ⟨h, -, same⟩ := List.mem_map.1 kept
      exact handle_ne_implementation h _ same

/-- The members of the unit are named by their properties, functions and events. -/
structure NamesMembers (owner : Name) (ps : List Property) (fs es : List Function)
    (unit : ClassUnit) : Prop where
  construction : (unit.construction.map StaticConstructor.fields).getD [] =
    if fs.any fun f => f.has .static then [⟨.staticReadonly, .nativeType⟩] else []
  properties : unit.properties.map (fun w => (w.name, w.fields)) =
    (firstNamed owner [] ps).map fun p => (propertyText p owner, propertyFields p false)
  functions : unit.functions.map (fun w => (w.name, w.fields)) =
    fs.map fun f => (functionText f owner, ⟨.static, .function f.label⟩ :: blockFields f)
  events : unit.events.map (fun e => (e.native, e.name, e.fields)) =
    es.map fun f => (f.label, functionText f owner, blockFields f)

theorem handles_of_blockFields (f : Function) :
    (blockFields f).map Field.handle = blockHandles f := rfl

theorem NamesMembers.handles_eq (h : NamesMembers owner ps fs es unit) :
    unit.fields.map Field.handle = classHandles owner ps fs es := by
  have kept : unit.properties.map WrapperProperty.fields =
      (firstNamed owner [] ps).map (propertyFields · false) := by
    simpa [Function.comp_def] using congrArg (List.map Prod.snd) h.properties
  have wrapped : unit.functions.map Wrapper.fields =
      fs.map fun f => ⟨.static, .function f.label⟩ :: blockFields f := by
    simpa [Function.comp_def] using congrArg (List.map Prod.snd) h.functions
  have stubbed : unit.events.map EventStub.fields = es.map blockFields := by
    simpa [Function.comp_def] using congrArg (List.map fun e => e.2.2) h.events
  unfold ClassUnit.fields classHandles
  rw [h.construction, List.flatMap_def, List.flatMap_def, List.flatMap_def, kept, wrapped, stubbed]
  simp only [← List.flatMap_def, List.map_append, List.map_flatMap, handles_of_propertyFields,
    List.map_cons, handles_of_blockFields, List.append_assoc]
  split <;> rfl

theorem NamesMembers.shown_eq (h : NamesMembers owner ps fs es unit) :
    unit.properties.map WrapperProperty.name =
      (firstNamed owner [] ps).map (propertyText · owner) := by
  simpa [Function.comp_def] using congrArg (List.map Prod.fst) h.properties

theorem NamesMembers.memberNames_eq (h : NamesMembers owner ps fs es unit) :
    unit.memberNames = declaredNames owner ps fs es := by
  have called : unit.functions.map Wrapper.name = fs.map (functionText · owner) := by
    simpa [Function.comp_def] using congrArg (List.map Prod.fst) h.functions
  have invokers : unit.events.map EventStub.invoker = es.map invokerText := by
    have marked := congrArg (List.map fun e => "Invoke_" ++ e.1) h.events
    rw [List.map_map, List.map_map] at marked
    exact marked
  have implementations : unit.events.map EventStub.implementation =
      es.map (implementationText · owner) := by
    have marked := congrArg (List.map fun e => e.2.1 ++ "_Implementation") h.events
    rw [List.map_map, List.map_map] at marked
    exact marked
  have kept : (unit.fields.map fun f => f.handle.text) =
      (classHandles owner ps fs es).map Handle.text := by
    rw [← h.handles_eq, List.map_map]
    rfl
  rw [ClassUnit.memberNames, kept, h.shown_eq, called, invokers, implementations]
  rfl

theorem wrapperProperties_named {taken : List Name} {ws : List WrapperProperty}
    (h : wrapperProperties t taken ps s = (.ok ws, u)) :
    ws.map (fun w => (w.name, w.fields)) =
      (firstNamed (scriptName t) taken ps).map fun p =>
        (propertyText p (scriptName t), propertyFields p false) := by
  induction ps generalizing taken s ws with
  | nil =>
    obtain ⟨rfl, -⟩ := pure_eq_ok.1 h
    rfl
  | cons p rest ih =>
    obtain ⟨name, _, hname, h⟩ := bind_eq_ok.1 h
    obtain ⟨named, rfl⟩ := ofExcept_eq_ok.1 hname
    split at h
    · next known =>
      obtain ⟨_, _, -, h⟩ := bind_eq_ok.1 h
      rw [firstNamed_cons_taken named known]
      exact ih h
    · next new =>
      obtain ⟨_, _, -, h⟩ := bind_eq_ok.1 h
      obtain ⟨w, _, shown, h⟩ := bind_eq_ok.1 h
      obtain ⟨others, _, later, h⟩ := bind_eq_ok.1 h
      obtain ⟨rfl, rfl⟩ := pure_eq_ok.1 h
      obtain ⟨type, _, -, shown⟩ := bind_eq_ok.1 shown
      obtain ⟨m, _, -, shown⟩ := bind_eq_ok.1 shown
      obtain ⟨rfl, -⟩ := pure_eq_ok.1 shown
      rw [firstNamed_cons_new named new, List.map_cons, List.map_cons, ih later, propertyText,
        named]
      rfl

theorem wrapper_named {w : Wrapper} (h : wrapper f owner s = (.ok w, u)) :
    (w.name, w.fields) = (functionText f owner, ⟨.static, .function f.label⟩ :: blockFields f) := by
  obtain ⟨name, _, hname, h⟩ := bind_eq_ok.1 h
  obtain ⟨named, rfl⟩ := ofExcept_eq_ok.1 hname
  obtain ⟨returns, _, -, h⟩ := bind_eq_ok.1 h
  obtain ⟨parameters, _, -, h⟩ := bind_eq_ok.1 h
  rw [functionText, named]
  split at h
  all_goals
    obtain ⟨exchange, _, -, h⟩ := bind_eq_ok.1 h
    obtain ⟨rfl, -⟩ := pure_eq_ok.1 h
    rfl

theorem wrappers_named {id : TypeId} {isLibrary : Bool} {ws : List Wrapper}
    (h : wrappers id owner isLibrary fs s = (.ok ws, u)) :
    ws.map (fun w => (w.name, w.fields)) =
      fs.map fun f => (functionText f owner, ⟨.static, .function f.label⟩ :: blockFields f) := by
  induction fs generalizing s ws with
  | nil =>
    obtain ⟨rfl, -⟩ := pure_eq_ok.1 h
    rfl
  | cons f rest ih =>
    obtain ⟨w, _, made, h⟩ := bind_eq_ok.1 h
    have finish {v : Session} (h : (do
        let others ← wrappers id owner isLibrary rest
        return w :: others : Generation (List Wrapper)) v = (.ok ws, u)) :
        ws.map (fun w => (w.name, w.fields)) = (f :: rest).map fun f =>
          (functionText f owner, ⟨.static, .function f.label⟩ :: blockFields f) := by
      obtain ⟨ws, _, later, h⟩ := bind_eq_ok.1 h
      obtain ⟨rfl, rfl⟩ := pure_eq_ok.1 h
      rw [List.map_cons, List.map_cons, ih later, wrapper_named made]
    split at h
    · obtain ⟨_, _, -, h⟩ := bind_eq_ok.1 h
      exact finish h
    · exact finish h

theorem eventStub_named {e : EventStub} (h : eventStub f owner s = (.ok e, u)) :
    (e.native, e.name, e.fields) = (f.label, functionText f owner, blockFields f) := by
  have fields : (if f.params.isEmpty then [] else blockFields f) = blockFields f := by
    split
    · next none => simp [blockFields, List.isEmpty_iff.1 none]
    · rfl
  obtain ⟨name, _, hname, h⟩ := bind_eq_ok.1 h
  obtain ⟨named, rfl⟩ := ofExcept_eq_ok.1 hname
  obtain ⟨returns, _, -, h⟩ := bind_eq_ok.1 h
  obtain ⟨parameters, _, -, h⟩ := bind_eq_ok.1 h
  obtain ⟨inputs, _, -, h⟩ := bind_eq_ok.1 h
  obtain ⟨back, _, -, h⟩ := bind_eq_ok.1 h
  obtain ⟨result, _, -, h⟩ := bind_eq_ok.1 h
  obtain ⟨rfl, -⟩ := pure_eq_ok.1 h
  rw [functionText, named, fields]
  rfl

theorem eventStubs_named {stubs : List EventStub}
    (h : es.mapM (eventStub · owner) s = (.ok stubs, u)) :
    stubs.map (fun e => (e.native, e.name, e.fields)) =
      es.map fun f => (f.label, functionText f owner, blockFields f) := by
  have each : List.Forall₂ (fun f e => (f.label, functionText f owner, blockFields f) =
      (e.native, e.name, e.fields)) es stubs :=
    (mapM_eq_ok h).imp fun f e ⟨_, _, made⟩ => (eventStub_named made).symm
  rw [← List.forall₂_eq_eq_eq, List.forall₂_map_left_iff, List.forall₂_map_right_iff]
  exact each.flip.imp fun _ _ same => same.symm

theorem classMembers_named {id : TypeId} (isClass : t.isClass)
    {members : Option StaticConstructor × List WrapperProperty × List Wrapper × List EventStub}
    (h : classMembers id t ps fs es s = (.ok members, u))
    (parts : members = (unit.construction, unit.properties, unit.functions, unit.events)) :
    NamesMembers (scriptName t) ps fs es unit := by
  obtain ⟨_, _, -, h⟩ := bind_eq_ok.1 h
  obtain ⟨shown, _, properties, h⟩ := bind_eq_ok.1 h
  obtain ⟨_, _, -, h⟩ := bind_eq_ok.1 h
  obtain ⟨called, _, functions, h⟩ := bind_eq_ok.1 h
  obtain ⟨stubs, _, events, h⟩ := bind_eq_ok.1 h
  obtain ⟨rfl, -⟩ := pure_eq_ok.1 h
  obtain ⟨construction, rfl, rfl, rfl⟩ : staticConstructor t ps fs es = unit.construction ∧
      shown = unit.properties ∧ called = unit.functions ∧ stubs = unit.events := by
    simpa using parts
  refine ⟨?_, wrapperProperties_named properties, wrappers_named functions,
    eventStubs_named events⟩
  rw [← construction]
  obtain ⟨none, -, empty, -⟩ | ⟨c, known, fields, -⟩ := staticConstructor_class ps fs es isClass
  · rw [none, empty]
    rfl
  · rw [known]
    exact fields

theorem lasting_rules (s : Session) : Lasting (SameRules s) (SameRules s) where
  toSteady := Inert.steady
    { faulted := fun _ h => h
      refused := fun _ _ h => h
      accepted := fun _ _ _ _ h => h
      recorded := fun _ _ h => h
      registered := fun _ _ _ _ _ h => h
      measured := fun _ _ _ h => h }
  extended _ _ h := h
  saved := keeps_saveUnit (fun _ h => h) fun _ _ h => h
  marked _ _ h := h
  passedOver _ _ h := h

/-- The members of a class are named by its exported properties, which are remembered, and by the
functions and events that pass. -/
theorem classUnit_named {fuel : Nat} {id : TypeId} (isClass : t.isClass)
    (h : classUnit (visitWithin fuel) id t s = (.ok unit, u)) :
    ∃ ps, u.acceptedProperties.lookup id = some ps ∧
      NamesMembers (scriptName t) ps (s.passedFunctions t) (s.passedEvents t) unit := by
  have rules := lasting_rules s
  have visits := rules.visitWithin fuel
  obtain ⟨_, s₁, step, h⟩ := bind_eq_ok.1 h
  have same := (keeps_visitSome visits _).result (.refl s) step
  obtain ⟨space, s₂, step, h⟩ := bind_eq_ok.1 h
  have same := (rules.spaceOf trivial).result same step
  obtain ⟨_, _, step, h⟩ := bind_eq_ok.1 h
  obtain ⟨rfl, rfl⟩ := get_eq_ok.1 step
  obtain ⟨imports, s₃, step, h⟩ := bind_eq_ok.1 h
  have same := (rules.exportInterfaces visits _ _ _).result same step
  obtain ⟨base, s₄, step, h⟩ := bind_eq_ok.1 h
  have same := (rules.superClassName t).result same step
  obtain ⟨bases, s₅, step, h⟩ := bind_eq_ok.1 h
  have same := (Keeps.mapM fun d _ => rules.qualifiedName d).result same step
  obtain ⟨ps, s₆, properties, h⟩ := bind_eq_ok.1 h
  have same := (rules.exportedProperties id).result same properties
  -- from here on the properties stay remembered
  have lasting := lastingLater s₆
  have visited := lasting.visitWithin fuel
  obtain ⟨split, s₇, functions, h⟩ := bind_eq_ok.1 h
  have later := (lasting.exportedFunctions t).result .refl functions
  obtain ⟨rfl, -⟩ := exportedFunctions_ok functions
  rw [same.passedFunctions, same.passedEvents] at h
  obtain ⟨_, s₈, step, h⟩ := bind_eq_ok.1 h
  have later := (Keeps.forM fun p _ => keeps_exportDependencies visited p).result later step
  obtain ⟨_, s₉, step, h⟩ := bind_eq_ok.1 h
  have later := (Keeps.forM fun _ _ => .forM fun p _ => keeps_exportDependencies visited p).result
    later step
  obtain ⟨members, s₁₀, made, h⟩ := bind_eq_ok.1 h
  have later := ((lasting.collecting id).classMembers _ _ _ _).result later made
  obtain ⟨rfl, rfl⟩ := pure_eq_ok.1 h
  exact ⟨ps, later.retains.properties _ _ (exportedProperties_remembered properties),
    classMembers_named isClass made rfl⟩

theorem nodup_shown {type : String} {taken : List Name} (texts : ∀ p ∈ ps, p.name.isText) :
    ((firstNamed (.text type) taken ps).map (propertyText · (.text type))).Nodup ∧
      ∀ word ∈ (firstNamed (.text type) taken ps).map (propertyText · (.text type)),
        ¬(Value.text word).memberOf taken := by
  induction ps generalizing taken with
  | nil => exact ⟨.nil, by simp [firstNamed]⟩
  | cons p rest ih =>
    obtain ⟨text, others⟩ := List.forall_mem_cons.1 texts
    obtain ⟨native, hnative⟩ := Value.eq_text_of_isText text
    obtain ⟨word, named⟩ : ∃ word, propertyName p (.text type) = .ok (.text word) :=
      ⟨_, by rw [propertyName, hnative, Naming.property_text]⟩
    by_cases known : (Value.text word).memberOf taken
    · rw [firstNamed_cons_taken named known]
      exact ih others
    · rw [firstNamed_cons_new named known]
      obtain ⟨distinct, new⟩ := @ih (.text word :: taken) others
      have shown : propertyText p (.text type) = word := by rw [propertyText, named]; rfl
      rw [List.map_cons, shown]
      refine ⟨List.nodup_cons.2 ⟨fun again => new word again ?_, distinct⟩,
        List.forall_mem_cons.2 ⟨known, fun other hother among => new other hother ?_⟩⟩
      · exact List.any_eq_true.2 ⟨_, List.mem_cons_self, (Value.alike_text_left _ _).2 rfl⟩
      · obtain ⟨k, hk, same⟩ := List.any_eq_true.1 among
        exact List.any_eq_true.2 ⟨k, List.mem_cons_of_mem _ hk, same⟩

/-- The members of a class whose functions and events have different native names are declared under
different names just if nothing that is called or overridden in it is named like another such thing,
a handle or an invoker, and no two handles have one slot. Its properties are always told apart. -/
theorem class_members_nodup_iff {fuel : Nat} {id : TypeId} (isClass : (s.store.type id).isClass)
    (made : classUnit (visitWithin fuel) id (s.store.type id) s = (.ok unit, u))
    (natives : ((s.passedFunctions (s.store.type id) ++ s.passedEvents (s.store.type id)).map
      Function.label).Nodup) :
    ∃ ps, u.acceptedProperties.lookup id = some ps ∧
      (unit.memberNames.Nodup ↔ MembersApart (scriptName (s.store.type id)) ps
        (s.passedFunctions (s.store.type id)) (s.passedEvents (s.store.type id))) ∧
      ((s.store.type id).name.isText → (∀ p ∈ ps, p.name.isText) →
        (unit.properties.map WrapperProperty.name).Nodup) := by
  obtain ⟨ps, remembered, names⟩ := classUnit_named isClass made
  refine ⟨ps, remembered, ?_, fun type texts => ?_⟩
  · rw [names.memberNames_eq]
    exact nodup_declaredNames_iff natives
  · obtain ⟨type, owner⟩ := Value.eq_text_of_isText (isText_scriptName type)
    have shown := names.shown_eq
    rw [owner] at shown
    rw [shown]
    exact (nodup_shown texts).1

theorem handledSession_named :
    (classUnit (visitWithin 4) 0 (handledSession.store.type 0)).gives handledSession fun unit u =>
      (u.acceptedProperties.lookup 0).any fun ps => (handledSession.store.type 0).isClass &&
        unit.memberNames.length == 16 &&
        decide ((handledSession.passedFunctions (handledSession.store.type 0) ++
          handledSession.passedEvents (handledSession.store.type 0)).map Function.label).Nodup &&
        decide (MembersApart (scriptName (handledSession.store.type 0)) ps
          (handledSession.passedFunctions (handledSession.store.type 0))
          (handledSession.passedEvents (handledSession.store.type 0))) := by
  decide +kernel

/-- The handles of a container and of an array, two properties, a wrapper and an event. -/
theorem class_members_nodup_iff_of_handled : ∃ unit u,
    classUnit (visitWithin 4) 0 (handledSession.store.type 0) handledSession = (.ok unit, u) ∧
      (handledSession.store.type 0).isClass ∧
      ((handledSession.passedFunctions (handledSession.store.type 0) ++
        handledSession.passedEvents (handledSession.store.type 0)).map Function.label).Nodup ∧
      unit.memberNames.length = 16 ∧ unit.memberNames.Nodup := by
  obtain ⟨unit, u, made, names⟩ := exists_of_gives handledSession_named
  obtain ⟨ps, remembered, names⟩ := (Option.any_eq_true _ _).1 names
  simp only [Bool.and_eq_true, beq_iff_eq, decide_eq_true_eq] at names
  obtain ⟨⟨⟨isClass, many⟩, natives⟩, apart⟩ := names
  obtain ⟨qs, known, told, -⟩ := class_members_nodup_iff isClass made natives
  cases remembered.symm.trans known
  exact ⟨unit, u, made, isClass, natives, many, told.2 apart⟩

/-- A class with a truth value and a function of other native names, which are called alike. -/
def hiddenDocument : Value :=
  .object [("types", .list [
    .object [("kind", .text "class"), ("name", .text "C"), ("module", .text "M"),
      ("properties", .list [.object [("name", .text "bHidden"), ("kind", .text "bool"),
        ("flags", .list [.text "blueprint_visible"])]]),
      ("functions", .list [.object [("name", .text "Hidden"),
        ("flags", .list [.text "blueprint_callable"])]])]])]

def hiddenSession : Session :=
  ({ packaging := { scriptsDir := .text "out" } } : Session).course [.run (.adopt hiddenDocument)]

theorem hiddenSession_makes :
    (classUnit (visitWithin 4) 0 (hiddenSession.store.type 0)).gives hiddenSession fun unit u =>
      (u.acceptedProperties.lookup 0).any fun ps => (hiddenSession.store.type 0).isClass &&
        ps.map Property.label == ["bHidden"] &&
        (hiddenSession.passedFunctions (hiddenSession.store.type 0)).map Function.label ==
          ["Hidden"] &&
        (hiddenSession.passedEvents (hiddenSession.store.type 0)).isEmpty &&
        unit.memberNames == ["bHidden_Offset", "Hidden_NativeFunction", "Hidden", "Hidden"] := by
  decide +kernel

/-- The native names of what a class exports are different, and two of its members have one name. -/
theorem class_members_clash : ∃ unit u ps,
    classUnit (visitWithin 4) 0 (hiddenSession.store.type 0) hiddenSession = (.ok unit, u) ∧
      (hiddenSession.store.type 0).isClass ∧ u.acceptedProperties.lookup 0 = some ps ∧
      (ps.map Property.label ++
        (hiddenSession.passedFunctions (hiddenSession.store.type 0)).map Function.label ++
        (hiddenSession.passedEvents (hiddenSession.store.type 0)).map Function.label).Nodup ∧
      ¬unit.memberNames.Nodup := by
  obtain ⟨unit, u, made, makes⟩ := exists_of_gives hiddenSession_makes
  obtain ⟨ps, remembered, makes⟩ := (Option.any_eq_true _ _).1 makes
  simp only [Bool.and_eq_true, beq_iff_eq, List.isEmpty_iff] at makes
  obtain ⟨⟨⟨⟨isClass, properties⟩, functions⟩, events⟩, names⟩ := makes
  refine ⟨unit, u, ps, made, isClass, remembered, ?_, ?_⟩
  · rw [properties, functions, events]
    decide
  · rw [names]
    decide

end Session
end ScriptGlue
