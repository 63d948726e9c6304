import ScriptGlue.Proofs.Session.ClassHandles

/-! # Handles of structs, and of all units

A struct without the native layout keeps handles for all its properties, and both directions of
marshalling read those of each. Its static constructor looks up one property of each script name, so
it provides what is read if the names are apart. Classes need no such condition.
-/
namespace ScriptGlue
open ScriptGlue.Action

namespace Session

variable {σ : TypeStore} {s u : Session} {t : TypeNode} {p : Property} {ps : List Property}

theorem ListsMembers.of_handles {owner : Name} {taken : List Name} {members : List StructMember}
    (h : ListsMembers u owner false taken ps members) {fields : List Field}
    (member : .handles fields ∈ members) : ∃ p ∈ ps, fields = propertyFields p true := by
  induction h with
  | nil => cases member
  | taken _ _ _ ih =>
    obtain same | member := List.mem_cons.1 member
    · exact ⟨_, List.mem_cons_self, StructMember.handles.inj same⟩
    · obtain ⟨p, hp, same⟩ := ih member
      exact ⟨p, List.mem_cons_of_mem _ hp, same⟩
  | first _ _ _ _ ih =>
    obtain same | member := List.mem_cons.1 member
    · exact ⟨_, List.mem_cons_self, StructMember.handles.inj same⟩
    · obtain no | member := List.mem_cons.1 member
      · cases no
      · obtain ⟨p, hp, same⟩ := ih member
        exact ⟨p, List.mem_cons_of_mem _ hp, same⟩

/-- The unit mirrors the properties of a struct and marshals them. -/
structure MakesStruct (t : TypeNode) (ps : List Property) (unit : StructUnit) : Prop where
  members : ∃ u, ListsMembers u (scriptName t) false [] ps unit.members
  construction : unit.construction = staticConstructor t ps [] []
  reads : ∀ r ∈ unit.reads, r = .dataSize ∨ ∃ p ∈ ps, r ∈ keptHandles p.label p

/-- A transfer of a property at its own offset reads what is kept for the property. -/
theorem kept_of_transfer {m : Transfer} {owner buffer : String} (fits : p.Fits σ)
    (h : transfer p p.label owner buffer (.handle (.offset p.label)) s = (.ok m, u)) :
    m.reads ⊆ keptHandles p.label p := by
  intro r hr
  obtain kept | place := mem_reads_of_transfer fits id h hr
  · exact kept
  · rw [List.mem_singleton.1 place]
    exact List.mem_cons_self

theorem transfer_of_readInto {slot owner buffer assignment : String} {place : Displacement}
    {x : Statement} (h : readInto p slot owner buffer place assignment s = (.ok x, u)) :
    ∃ m type v, transfer p slot owner buffer place s = (.ok m, v) ∧
      x = .read m assignment type := by
  obtain ⟨m, v, moved, h⟩ := bind_eq_ok.1 h
  split at h
  all_goals
    obtain ⟨type, _, -, h⟩ := bind_eq_ok.1 h
    obtain ⟨rfl, -⟩ := pure_eq_ok.1 h
    exact ⟨m, type, v, moved, rfl⟩

theorem kept_of_statements {xs : List Statement} {make : Property → Generation Statement}
    (made : ∀ p ∈ ps, ∀ s u x, make p s = (.ok x, u) → x.reads ⊆ keptHandles p.label p)
    (h : ps.mapM make s = (.ok xs, u)) {r : Handle} (hr : r ∈ xs.flatMap Statement.reads) :
    ∃ p ∈ ps, r ∈ keptHandles p.label p := by
  obtain ⟨x, hx, hr⟩ := List.mem_flatMap.1 hr
  obtain ⟨p, hp, _, _, h⟩ := exists_of_forall₂ (mapM_eq_ok h).flip hx
  exact ⟨p, hp, made p hp _ _ x h hr⟩

theorem kept_of_mirroring {m : Mirroring} (fits : ∀ p ∈ ps, p.Fits σ)
    (h : mirroring t ps s = (.ok m, u)) {r : Handle}
    (hr : r ∈ m.inputs.flatMap Statement.reads ++ m.outputs.flatMap Statement.reads) :
    ∃ p ∈ ps, r ∈ keptHandles p.label p := by
  obtain ⟨inputs, v, read, h⟩ := bind_eq_ok.1 h
  obtain ⟨outputs, w, written, h⟩ := bind_eq_ok.1 h
  obtain ⟨rfl, -⟩ := pure_eq_ok.1 h
  obtain hr | hr := List.mem_append.1 hr
  · refine kept_of_statements (fun p hp s u x h => ?_) read hr
    obtain ⟨m, type, _, moved, rfl⟩ := transfer_of_readInto h
    exact kept_of_transfer (fits p hp) moved
  · refine kept_of_statements (fun p hp s u x h => ?_) written hr
    obtain ⟨m, _, moved, h⟩ := bind_eq_ok.1 h
    obtain ⟨rfl, -⟩ := pure_eq_ok.1 h
    exact kept_of_transfer (fits p hp) moved

theorem makesStruct {id : TypeId} {unit : StructUnit} (fits : ∀ p ∈ ps, p.Fits σ)
    (mirrored : unit.mirroring.isSome) (h : structUnit id t ps s = (.ok unit, u)) :
    MakesStruct t ps unit := by
  obtain ⟨space, _, -, h⟩ := bind_eq_ok.1 h
  obtain ⟨blittable, _, -, h⟩ := bind_eq_ok.1 h
  obtain ⟨members, _, listed, h⟩ := bind_eq_ok.1 h
  cases blittable with
  | true =>
    obtain ⟨rfl, -⟩ := pure_eq_ok.1 h
    cases mirrored
  | false =>
    obtain ⟨mirrored, _, hmirrored, h⟩ := bind_eq_ok.1 h
    obtain ⟨rfl, -⟩ := pure_eq_ok.1 h
    obtain ⟨m, _, hm, hmirrored⟩ := bind_eq_ok.1 hmirrored
    obtain ⟨rfl, -⟩ := pure_eq_ok.1 hmirrored
    refine ⟨⟨_, structMembers_ok listed⟩, ?_, fun r hr => ?_⟩
    · obtain ⟨_, _, -, hm⟩ := bind_eq_ok.1 hm
      obtain ⟨_, _, -, hm⟩ := bind_eq_ok.1 hm
      obtain ⟨rfl, -⟩ := pure_eq_ok.1 hm
      rfl
    · exact (List.mem_cons.1 hr).imp_right (kept_of_mirroring fits hm)

namespace MakesStruct
variable {unit : StructUnit} (made : MakesStruct t ps unit) (isStruct : t.isClass = false)
include made

theorem property_declared (hp : p ∈ ps) : propertyFields p true ⊆ unit.fields := by
  obtain ⟨u, members⟩ := made.members
  intro g hg
  exact List.mem_append_left _ (List.mem_flatMap.2 ⟨_, members.handles rfl p hp, hg⟩)

theorem kept_declared (hp : p ∈ ps) {r : Handle} (hr : r ∈ keptHandles p.label p) :
    ∃ g ∈ unit.fields, g.handle = r := by
  rw [← handles_of_propertyFields true] at hr
  obtain ⟨g, hg, same⟩ := List.mem_map.1 hr
  exact ⟨g, made.property_declared hp hg, same⟩

include isStruct

theorem fields_eq : unit.fields =
    unit.members.flatMap StructMember.fields ++ [⟨.publicStaticReadonly, .dataSize⟩] := by
  obtain ⟨c, known, fields, -⟩ := staticConstructor_struct ps isStruct
  rw [StructUnit.fields, made.construction, known, Option.map_some, Option.getD_some, fields]

theorem lookups_eq (apart : NamedApart (scriptName t) ps) :
    unit.lookups = ⟨true, .nativeType, .structNamed t.label⟩ ::
      ((ps.flatMap fun p => propertyLookups p p.label) ++ [⟨false, .dataSize, .structSize⟩]) := by
  obtain ⟨c, known, -, lookups⟩ := staticConstructor_struct ps isStruct
  obtain ⟨u, members⟩ := made.members
  -- handles are kept for all properties, and only with names apart are all looked up
  have all : firstNamed (scriptName t) [] ps = ps := (firstNamed_eq_iff members.named).2 apart
  rw [StructUnit.lookups, made.construction, known, Option.map_some, Option.getD_some, lookups,
    distinctLookups_eq, all]

theorem declared {r : Handle} (hr : r ∈ unit.reads) : ∃ g ∈ unit.fields, g.handle = r := by
  obtain rfl | ⟨p, hp, hr⟩ := made.reads r hr
  · rw [made.fields_eq isStruct]
    exact ⟨_, List.mem_append_right _ (List.mem_singleton_self _), rfl⟩
  · exact made.kept_declared hp hr

theorem lengths {g : Field} (hg : g ∈ unit.fields) {slot : String}
    (same : g.handle = .length slot) :
    ∃ p ∈ ps, p.label = slot ∧ g.modifier = .constant p.arrayDim := by
  rw [made.fields_eq isStruct] at hg
  obtain hg | hg := List.mem_append.1 hg
  · obtain ⟨member, hmember, hg⟩ := List.mem_flatMap.1 hg
    cases member with
    | handles fields =>
      obtain ⟨u, members⟩ := made.members
      obtain ⟨p, hp, rfl⟩ := members.of_handles hmember
      exact ⟨p, hp, length_of_propertyFields hg same⟩
    | mirror => cases hg
  · rw [List.mem_singleton.1 hg] at same
    cases same

variable (apart : NamedApart (scriptName t) ps)
include apart

theorem assigned {r : Handle} (hr : r ∈ unit.reads) (plain : ∀ slot, r ≠ .length slot) :
    ∃ l ∈ unit.lookups, l.target = r := by
  rw [made.lookups_eq isStruct apart]
  obtain rfl | ⟨p, hp, hr⟩ := made.reads r hr
  · exact ⟨_, List.mem_cons_of_mem _ (List.mem_append_right _ (List.mem_singleton_self _)), rfl⟩
  · obtain ⟨l, hl, same⟩ := exists_propertyLookup hr plain
    exact ⟨l, List.mem_cons_of_mem _ (List.mem_append_left _ (List.mem_flatMap.2 ⟨p, hp, hl⟩)), same⟩

theorem inOrder : InOrder [] unit.lookups := by
  rw [made.lookups_eq isStruct apart]
  refine ⟨by simp [Query.reads], InOrder.append (InOrder.flatMap fun p _ => inOrder_property p) ?_⟩
  simp [InOrder, Query.reads]

/-- Only the type is declared in the static constructor, and nothing else reads it. -/
theorem target {l : Lookup} (hl : l ∈ unit.lookups) : (∃ g ∈ unit.fields, g.handle = l.target) ∨
    l.isLocal ∧ ∀ r ∈ unit.reads, r.text ≠ l.target.text := by
  rw [made.lookups_eq isStruct apart, List.mem_cons, List.mem_append, List.mem_singleton] at hl
  obtain rfl | hl | rfl := hl
  · refine .inr ⟨rfl, fun r hr same => ?_⟩
    cases Handle.eq_of_text same
    obtain no | ⟨p, -, hr⟩ := made.reads _ hr
    · cases no
    · simp [keptHandles] at hr
  · obtain ⟨p, hp, hl⟩ := List.mem_flatMap.1 hl
    exact .inl (made.kept_declared hp (targets_of_propertyLookups hl))
  · rw [made.fields_eq isStruct]
    exact .inl ⟨_, List.mem_append_right _ (List.mem_singleton_self _), rfl⟩

theorem provided (declared : ∀ p ∈ ps, p ∈ t.properties?.getD []) :
    Provided t unit.fields unit.lookups unit.reads where
  declared _ hr := made.declared isStruct hr
  lengths g hg slot same := by
    obtain ⟨p, hp, constant⟩ := made.lengths isStruct hg same
    exact ⟨p, declared p hp, constant⟩
  assigned _ hr plain := made.assigned isStruct apart hr plain
  targets _ hl := made.target isStruct apart hl
  ordered before l after split r hr :=
    ((made.inOrder isStruct apart).earlier split hr).resolve_left List.not_mem_nil

theorem looksUp (held : ∀ p ∈ ps, σ.Holds p) (own : ∃ id, t = σ.type id) :
    ∀ l ∈ unit.lookups, LooksUp σ t l := by
  obtain ⟨id, rfl⟩ := own
  intro l hl
  rw [made.lookups_eq isStruct apart, List.mem_cons, List.mem_append, List.mem_singleton] at hl
  obtain rfl | hl | rfl := hl
  · exact Session.looksUp (.structType isStruct) (List.forall_mem_singleton.2 (.typeLabel id))
  · obtain ⟨p, hp, hl⟩ := List.mem_flatMap.1 hl
    exact looksUp_property (held p hp) l hl
  · exact Session.looksUp .size fun _ hx => absurd hx List.not_mem_nil

theorem provides {id : TypeId} (own : t = σ.type id) (passed : PassedOf σ id ps)
    (mirrored : unit.mirroring.isSome) (texts : ∀ x ∈ unit.texts, Given σ x) :
    Provides σ t unit.fields unit.lookups unit.reads unit.bodies := by
  subst own
  have held := Given.good_passed passed
  obtain ⟨declared, hdeclared, all⟩ := passed
  refine ⟨made.provided isStruct apart fun p hp => ?_, StructUnit.prints (fun x hx => (texts x hx).known)
    (fun h hh => .inr ⟨h, hh, rfl⟩) mirrored fun c hc =>
      Given.constructor_typeName c (made.construction ▸ hc), made.looksUp isStruct apart (fun p hp => (held p hp).1)
      ⟨id, rfl⟩⟩
  rw [hdeclared]
  exact (all p hp).1

end MakesStruct

/-- A class with a container, an array of fixed size, a static function and an event, and a struct
that is marshalled. -/
def handledDocument : Value :=
  .object [("types", .list [
    .object [("kind", .text "class"), ("name", .text "C"), ("module", .text "M"),
      ("properties", .list [
        property "Items" "array" [("inner", element)],
        property "Slots" "int32" [("array_dim", .text "3")]]),
      ("functions", .list [
        .object [("name", .text "F"), ("flags", .list [.text "static", .text "blueprint_callable"]),
          ("params", .list [property "Given" "array" [("inner", element)]])],
        .object [("name", .text "E"), ("flags", .list [.text "blueprint_event"]),
          ("params", .list [property "Given" "int32" []])]])],
    .object [("kind", .text "struct"), ("name", .text "S"), ("module", .text "M"),
      ("properties", .list [
        property "Name" "string" [], property "Items" "array" [("inner", element)]])]])]
where
  property (name kind : String) (more : List (String × Value)) : Value :=
    .object ([("name", .text name), ("kind", .text kind),
      ("flags", .list [.text "blueprint_visible"])] ++ more)
  element : Value := .object [("name", .text "e"), ("kind", .text "int32")]

def handledEvents : List Event := [.run (.adopt handledDocument)]

def handledSession : Session :=
  ({ packaging := { scriptsDir := .text "out" } } : Session).course handledEvents

theorem handledSession_makes :
    (classUnit (visitWithin 4) 0 (handledSession.store.type 0)).gives
      { handledSession with exported := 0 :: handledSession.exported } fun c _ =>
        (exportedProperties 1).gives
          { handledSession with exported := 1 :: handledSession.exported } fun ps v =>
            (structUnit 1 (handledSession.store.type 1) ps).gives v fun unit _ =>
              (handledSession.store.type 0).isClass && !(handledSession.store.type 1).isClass &&
                unit.mirroring.isSome &&
                c.reads == [.offset "Items", .property "Items", .offset "Slots", .length "Slots",
                  .nativeType, .function "F", .paramsSize "F", .property "F_Given",
                  .offset "F_Given", .offset "E_Given"] &&
                unit.reads == [.dataSize, .offset "Name", .property "Items", .offset "Items",
                  .offset "Name", .property "Items", .offset "Items"] &&
                ps.map (propertyName · (scriptName (handledSession.store.type 1))) ==
                  [.ok (.text "Name"), .ok (.text "Items")] &&
                c.body.contains (.line "const int Slots_Length = 3;") &&
                c.body.contains (.line ("F_ParamsSize = " ++
                  "UFunctionExporter.CallGetNativeFunctionParamsSize(F_NativeFunction);")) := by
  decide +kernel

end Session

end ScriptGlue
