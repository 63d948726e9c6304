import ScriptGlue.Proofs.Session.Moments

/-! # Marshalling of structs

A struct that has the native layout goes through the blittable marshaller, any other through the
marshaller that its unit defines. Both the unit of a struct and the units that hold the struct by
value ask the session for its layout, each at a moment of its own; as an answer stays the answer
whatever happens in between, they agree.
-/
namespace ScriptGlue

def Marshaller.elements : Marshaller → List Marshaller
  | .array _ _ element => [element]
  | .set _ _ element => [element]
  | .map _ _ key value => [key, value]
  | _ => []

/-- In the marshaller of a property, the part that marshals the values of a struct that the property
or one of its elements holds. -/
inductive Marshals (id : TypeId) : Property → Marshaller → Marshaller → Prop
  | value {p : Property} {m : Marshaller} (struct : p.kind = .struct) (held : p.ref = some id) :
      Marshals id p m m
  | element {p e : Property} {m n x : Marshaller} (container : p.kind.isContainer)
      (part : (some e, n) ∈ p.elements.zip m.elements) (rest : Marshals id e n x) : Marshals id p m x

namespace StructUnit

/-- A unit without the marshaller that goes with it. -/
def declaration (u : StructUnit) : Code :=
  banner :: Code.skeleton u.space ++ u.attributes ++
    Code.block (Code.TypeHeader.text { kind := "struct", name := u.name }) u.body

def qualified (u : StructUnit) : String := u.space ++ "." ++ u.name

end StructUnit

namespace Session
open ScriptGlue.Action

variable {s t u v z : Session} {id : TypeId}

theorem register_again {m : NativeModule} {known : OutputModule}
    (h : register m s = (.ok known, t)) (later : Later t z) : register m z = (.ok known, z) := by
  have found := find?_grows later.retains.registry (register_ok h)
  rw [register_apply] at h ⊢
  split at h
  · next key => rw [if_pos key, found]
  · cases h

theorem spaceOf_again {n : TypeNode} {space : String} (h : spaceOf n s = (.ok space, t))
    (later : Later t z) : spaceOf n z = (.ok space, z) := by
  obtain ⟨known, u, hknown, h⟩ := bind_eq_ok.1 h
  obtain ⟨rfl, rfl⟩ := pure_eq_ok.1 h
  exact bind_of_ok (register_again hknown later) _

theorem qualifiedName_apply (id : TypeId) (s : Session) :
    qualifiedName id s = (spaceOf (s.store.type id) >>= fun space =>
      Pure.pure (space ++ "." ++ scriptLabel (s.store.type id))) s := rfl

theorem qualifiedName_again {name : String} (here : s.store.type id = z.store.type id)
    (h : qualifiedName id s = (.ok name, t)) (later : Later t z) :
    qualifiedName id z = (.ok name, z) := by
  rw [qualifiedName_apply, here] at h
  obtain ⟨space, u, hspace, h⟩ := bind_eq_ok.1 h
  obtain ⟨rfl, rfl⟩ := pure_eq_ok.1 h
  rw [qualifiedName_apply]
  exact bind_of_ok (spaceOf_again hspace later) _

theorem later_of_keeps {α : Type} {a : Generation α} {x : α}
    (keeps : Keeps (Later s) (Later s) a) (h : a s = (.ok x, t)) : Later s t := keeps.result .refl h

abbrev lastingLater (s : Session) : Lasting (Later s) (Later s) := (stepwise_later s).lasting

theorem elementMarshaller_later {e : Option Property} {m : Marshaller}
    (h : elementMarshaller e s = (.ok m, t)) : Later s t :=
  later_of_keeps ((lastingLater s).elementMarshaller e) h

theorem elementTypes_later {es : List (Option Property)} {types : String}
    (h : elementTypes es s = (.ok types, t)) : Later s t :=
  later_of_keeps ((lastingLater s).elementTypes es) h

/-- The marshallers of the elements are made while that of the container is. -/
theorem marshallerAt_element {p e : Property} {slot : String} {m n : Marshaller}
    (container : p.kind.isContainer) (h : marshallerAt p slot s = (.ok m, t))
    (part : (some e, n) ∈ p.elements.zip m.elements) :
    ∃ u v, Later s u ∧ marshallerAt e e.name.plain u = (.ok n, v) ∧ Later v t := by
  obtain ⟨name, kind, dim, refName, ref, inner, value, flags, metadata, owner⟩ := p
  unfold marshallerAt at h
  split at h
  · obtain ⟨element, u, helement, h⟩ := bind_eq_ok.1 h
    obtain ⟨types, v, htypes, h⟩ := bind_eq_ok.1 h
    obtain ⟨rfl, rfl⟩ := pure_eq_ok.1 h
    simp only [Property.elements, Marshaller.elements, reduceCtorEq, if_false, List.zip_cons_cons,
      List.zip_nil_left, List.mem_singleton, Prod.mk.injEq] at part
    obtain ⟨rfl, rfl⟩ := part
    exact ⟨s, u, .refl, helement, elementTypes_later htypes⟩
  · obtain ⟨element, u, helement, h⟩ := bind_eq_ok.1 h
    obtain ⟨types, v, htypes, h⟩ := bind_eq_ok.1 h
    obtain ⟨rfl, rfl⟩ := pure_eq_ok.1 h
    simp only [Property.elements, Marshaller.elements, reduceCtorEq, if_false, List.zip_cons_cons,
      List.zip_nil_left, List.mem_singleton, Prod.mk.injEq] at part
    obtain ⟨rfl, rfl⟩ := part
    exact ⟨s, u, .refl, helement, elementTypes_later htypes⟩
  · obtain ⟨key, u, hkey, h⟩ := bind_eq_ok.1 h
    obtain ⟨val, v, hval, h⟩ := bind_eq_ok.1 h
    obtain ⟨types, w, htypes, h⟩ := bind_eq_ok.1 h
    obtain ⟨rfl, rfl⟩ := pure_eq_ok.1 h
    simp only [Property.elements, Marshaller.elements, if_true, List.zip_cons_cons,
      List.zip_nil_left, List.mem_cons, Prod.mk.injEq, List.not_mem_nil, or_false] at part
    have typed := elementTypes_later htypes
    obtain ⟨rfl, rfl⟩ | ⟨rfl, rfl⟩ := part
    · exact ⟨s, u, .refl, hkey, (elementMarshaller_later hval).trans typed⟩
    · exact ⟨u, v, elementMarshaller_later hkey, hval, typed⟩
  · next array set map => simp_all [PropertyKind.isContainer]

theorem marshallerAt_struct {p : Property} {slot : String} {m : Marshaller} (struct : p.kind = .struct)
    (held : p.ref = some id) (h : marshallerAt p slot s = (.ok m, t)) :
    ∃ b name u, isStructBlittable (some id) s = (.ok b, u) ∧ qualifiedName id u = (.ok name, t) ∧
      m = if b then .blittable name else .mirror name := by
  obtain ⟨name, kind, dim, refName, ref, inner, value, flags, metadata, owner⟩ := p
  cases struct
  cases held
  obtain ⟨b, u, hb, h⟩ := bind_eq_ok.1 h
  obtain ⟨name, v, hname, h⟩ := bind_eq_ok.1 h
  obtain ⟨rfl, rfl⟩ := pure_eq_ok.1 h
  exact ⟨b, name, u, hb, hname, rfl⟩

theorem isStructBlittable_later {ref : Option TypeId} {b : Bool}
    (h : isStructBlittable ref s = (.ok b, t)) : Later s t :=
  later_of_keeps ((stepwise_later s).measured ref) h

theorem marshals_agree {p : Property} {m x : Marshaller} (part : Marshals id p m x) {slot : String}
    (here : id < s.store.size) (h : marshallerAt p slot s = (.ok m, t)) (later : Later t z) :
    ∃ b name, isStructBlittable (some id) z = (.ok b, z) ∧ qualifiedName id z = (.ok name, z) ∧
      x = if b then .blittable name else .mirror name := by
  induction part generalizing s t slot with
  | value struct held =>
    obtain ⟨b, name, u, hb, hname, rfl⟩ := marshallerAt_struct struct held h
    have named : Later u t := later_of_keeps ((lastingLater u).qualifiedName id) hname
    have asked := (isStructBlittable_later hb).retains
    have same : u.store.type id = z.store.type id :=
      ((named.trans later).retains.types id (Nat.lt_of_lt_of_le here asked.size)).symm
    exact ⟨b, name, isStructBlittable_again hb (named.trans later),
      qualifiedName_again same hname later, rfl⟩
  | element container part _ ih =>
    obtain ⟨u, v, before, hpart, after⟩ := marshallerAt_element container h part
    exact ih (Nat.lt_of_lt_of_le here before.retains.size) hpart (after.trans later)

theorem structUnit_layout {ps : List Property} {unit : StructUnit} (here : id < s.store.size)
    (made : structUnit id (s.store.type id) ps s = (.ok unit, t)) (later : Later t z) :
    isStructBlittable (some id) z = (.ok unit.mirroring.isNone, z) ∧
      qualifiedName id z = (.ok unit.qualified, z) := by
  obtain ⟨space, u, hspace, h⟩ := bind_eq_ok.1 made
  obtain ⟨b, v, hb, h⟩ := bind_eq_ok.1 h
  obtain ⟨members, w, hmembers, h⟩ := bind_eq_ok.1 h
  obtain ⟨finished, rfl, same⟩ :
      Later w t ∧ unit.mirroring.isNone = b ∧
        unit.qualified = space ++ "." ++ scriptLabel (s.store.type id) := by
    cases b with
    | true =>
      obtain ⟨rfl, rfl⟩ := pure_eq_ok.1 h
      exact ⟨.refl, rfl, rfl⟩
    | false =>
      obtain ⟨mirrored, x, hmirrored, h⟩ := bind_eq_ok.1 h
      obtain ⟨rfl, rfl⟩ := pure_eq_ok.1 h
      obtain ⟨m, x', hm, h⟩ := bind_eq_ok.1 hmirrored
      obtain ⟨rfl, rfl⟩ := pure_eq_ok.1 h
      exact ⟨later_of_keeps ((lastingLater w).mirroring _ ps) hm, rfl, rfl⟩
  have member : Later v w := later_of_keeps ((lastingLater v).structMembers _ _ [] ps) hmembers
  have asked : Later v z := (member.trans finished).trans later
  have named : Later u z := (isStructBlittable_later hb).trans asked
  have placed : Later s u := later_of_keeps ((lastingLater s).spaceOf trivial) hspace
  refine ⟨isStructBlittable_again hb asked, ?_⟩
  rw [qualifiedName_apply, (placed.trans named).retains.types id here, same]
  exact bind_of_ok (spaceOf_again hspace named) _

/-- At some moment up to `z`, when the type was there, the property was given the marshaller. -/
def Chosen (z : Session) (id : TypeId) (p : Property) (m : Marshaller) : Prop :=
  ∃ slot u v, id < u.store.size ∧ marshaller p slot u = (.ok m, v) ∧ Later v z

/-- The unit declares the native layout and no marshaller, and all that hold the struct by value use
the blittable one. -/
structure Native (z : Session) (id : TypeId) (unit : StructUnit) : Prop where
  attributes : unit.attributes =
    [.line "[UStruct(IsBlittable = true)]", .line "[StructLayout(LayoutKind.Sequential)]"]
  code : unit.code = unit.declaration
  marshalled : ∀ p m x, Chosen z id p m → Marshals id p m x →
    x.expression = "BlittableMarshaller<" ++ unit.qualified ++ ">"

/-- The unit declares a marshaller, and all that hold the struct by value use that one. -/
structure Mirrored (z : Session) (id : TypeId) (unit : StructUnit) : Prop where
  attributes : unit.attributes = [.line "[UStruct]"]
  code : unit.code = unit.declaration ++ unit.marshaller
  defined : .line ("public static class " ++ unit.name ++ "Marshaler") ∈ unit.marshaller
  marshalled : ∀ p m x, Chosen z id p m → Marshals id p m x →
    x.expression = unit.qualified ++ "Marshaler"

/-- Whatever happens to a session, its policy may be edited too, every answer about a layout stays
the answer, and the unit of a struct agrees with all that hold the struct by value. -/
theorem structUnit_agrees {ps : List Property} {unit : StructUnit} (here : id < s.store.size)
    (made : structUnit id (s.store.type id) ps s = (.ok unit, t)) (later : Later t z) :
    (∀ u events, Linked u → Later u (u.course events)) ∧
    (∀ ref b u v, isStructBlittable ref u = (.ok b, v) → Later v z →
      isStructBlittable ref z = (.ok b, z)) ∧
    (isStructBlittable (some id) z = (.ok true, z) ∧ Native z id unit ∨
      isStructBlittable (some id) z = (.ok false, z) ∧ Mirrored z id unit) := by
  refine ⟨fun u events linked => later_course linked events,
    fun ref b u v h later => isStructBlittable_again h later, ?_⟩
  obtain ⟨answer, name⟩ := structUnit_layout here made later
  have marshalled (p : Property) (m x : Marshaller) (chosen : Chosen z id p m)
      (part : Marshals id p m x) :
      x = if unit.mirroring.isNone then .blittable unit.qualified else .mirror unit.qualified := by
    obtain ⟨slot, u, v, there, hm, upTo⟩ := chosen
    obtain ⟨b, name', hb, hname, rfl⟩ := marshals_agree part there hm upTo
    cases answer.symm.trans hb
    cases name.symm.trans hname
    rfl
  cases native : unit.mirroring.isNone with
  | true =>
    refine .inl ⟨native ▸ answer, ?_, ?_, fun p m x chosen part => ?_⟩
    · rw [StructUnit.attributes, if_pos native]
    · rw [StructUnit.code, if_pos native, List.append_nil]
      rfl
    · rw [marshalled p m x chosen part, if_pos native]
      rfl
  | false =>
    refine .inr ⟨native ▸ answer, ?_, ?_, ?_, fun p m x chosen part => ?_⟩
    · rw [StructUnit.attributes, native]
      rfl
    · rw [StructUnit.code, native]
      rfl
    · simp [StructUnit.marshaller, Code.block, Code.blockWith, Marshaller.mirrorName,
        String.append_assoc]
    · rw [marshalled p m x chosen part, native]
      rfl

def pointDocument : Value :=
  .object [("types", .list [
    .object [("kind", .text "struct"), ("name", .text "Point"), ("module", .text "M"),
      ("properties", .list [
        .object [("name", .text "x"), ("kind", .text "int32"),
          ("flags", .list [.text "blueprint_visible"])]])],
    .object [("kind", .text "struct"), ("name", .text "Line"), ("module", .text "M"),
      ("properties", .list [
        .object [("name", .text "from"), ("kind", .text "struct"), ("type", .text "Point"),
          ("flags", .list [.text "blueprint_visible"])]])]])]

def pointSession : Session :=
  after { packaging := { scriptsDir := .text "out" } } [.adopt pointDocument]

def heldPoint : Property := ((pointSession.store.type 1).properties?.getD []).headD default

/-- The holder is asked for first; then the policy comes to exclude the only field. -/
def editedSession : Session :=
  (marshaller heldPoint "" pointSession).2.course
    [.edit (Policy.addMembers .blacklist .properties (.text "Point") [.text "x"])]

theorem pointSession_runs : 0 < pointSession.store.size ∧ heldPoint.kind = .struct ∧
    heldPoint.ref = some 0 ∧ (marshaller heldPoint "").gives pointSession (fun _ _ => true) ∧
    (exportedProperties 0).gives editedSession fun ps u => ps.map Property.name == [.text "x"] &&
      decide (0 < u.store.size) &&
      (structUnit 0 (u.store.type 0) ps).gives u fun unit _ => unit.mirroring.isNone := by
  decide +kernel

/-- The field stays among the properties that the unit is made of. -/
theorem structUnit_agrees_of_point : ∃ ps u unit z m,
    exportedProperties 0 editedSession = (.ok ps, u) ∧ ps.map Property.name = [.text "x"] ∧
      structUnit 0 (u.store.type 0) ps u = (.ok unit, z) ∧
      Chosen z 0 heldPoint m ∧ Marshals 0 heldPoint m m ∧ Native z 0 unit := by
  obtain ⟨there, struct, held, asked, runs⟩ := pointSession_runs
  obtain ⟨m, v, chosen, -⟩ := exists_of_gives asked
  obtain ⟨ps, u, passed, runs⟩ := exists_of_gives runs
  simp only [Bool.and_eq_true, decide_eq_true_eq, beq_iff_eq] at runs
  obtain ⟨⟨names, here⟩, runs⟩ := runs
  obtain ⟨unit, z, made, isNone⟩ := exists_of_gives runs
  have linked : Linked pointSession := linked_after _ (linked_fresh {} _ (.text ".cs") {})
  have first : Linked v := (stepwise_linked.lasting.marshaller heldPoint "").result linked chosen
  have edited : Later v editedSession := by
    rw [editedSession, chosen]
    exact later_course first _
  have answered : Later editedSession u :=
    later_of_keeps ((lastingLater _).exportedProperties 0) passed
  have kept : Later u z := later_of_keeps ((lastingLater _).structUnit 0 trivial ps) made
  refine ⟨ps, u, unit, z, m, passed, names, made,
    ⟨"", pointSession, v, there, chosen, (edited.trans answered).trans kept⟩, .value struct held, ?_⟩
  obtain ⟨-, -, ⟨-, native⟩ | ⟨-, mirrored⟩⟩ := structUnit_agrees here made .refl
  · exact native
  · have plain := mirrored.attributes
    rw [StructUnit.attributes, if_pos isNone] at plain
    simp at plain

end Session

end ScriptGlue
