import ScriptGlue.Proofs.Code.PrintedHandles
import ScriptGlue.Proofs.Code.PrintedLines

/-! # Handles that units print

The members of a unit declare its handles, the static constructor looks them up, and the bodies read
them. Each line that a unit prints is one of the declarations or of the lookups, or it names no
handle but those that are read.
-/
namespace ScriptGlue
open Text Handle

variable {N : String → Prop}

def StructMember.fields : StructMember → List Field
  | .handles fields => fields
  | .mirror _ => []

namespace ClassUnit

def fields (u : ClassUnit) : List Field :=
  (u.construction.map StaticConstructor.fields).getD [] ++
    u.properties.flatMap WrapperProperty.fields ++ u.functions.flatMap Wrapper.fields ++
    u.events.flatMap EventStub.fields

def lookups (u : ClassUnit) : List Lookup :=
  (u.construction.map StaticConstructor.lookups).getD []

def reads (u : ClassUnit) : List Handle :=
  u.properties.flatMap WrapperProperty.reads ++ u.functions.flatMap Wrapper.reads ++
    u.events.flatMap EventStub.reads

end ClassUnit

namespace StructUnit

def construction (u : StructUnit) : Option StaticConstructor :=
  u.mirroring.bind Mirroring.construction

def fields (u : StructUnit) : List Field :=
  u.members.flatMap StructMember.fields ++ (u.construction.map StaticConstructor.fields).getD []

def lookups (u : StructUnit) : List Lookup :=
  (u.construction.map StaticConstructor.lookups).getD []

/-- Handles that the two directions of marshalling read, and the marshaller of array elements. -/
def reads (u : StructUnit) : List Handle :=
  match u.mirroring with
  | none => []
  | some m =>
    .dataSize :: (m.inputs.flatMap Statement.reads ++ m.outputs.flatMap Statement.reads)

end StructUnit

namespace Query

def names : Query → List String
  | .classNamed name | .structNamed name | .offset _ name | .property _ name | .function name =>
    [name]
  | .paramsSize _ | .structSize => []

theorem namedIn {q : Query} (names : ∀ x ∈ q.names, NamedIn N x) (reads : ∀ h ∈ q.reads, N h.text) :
    NamedIn N q.expression := by
  cases q with
  | classNamed name | structNamed name =>
    exact (NamedIn.opened (by decide) (names _ List.mem_cons_self)).closed (by decide)
  | offset owner name | property owner name =>
    exact ((NamedIn.opened (by decide) (.of_mem (reads _ List.mem_cons_self))).joined (by decide)
      (names _ List.mem_cons_self)).closed (by decide)
  | function name =>
    exact ((NamedIn.opened (by decide) (.of_mem (reads _ List.mem_cons_self))).joined (by decide)
      (names _ List.mem_cons_self)).closed (by decide)
  | paramsSize owner | structSize =>
    exact (NamedIn.opened (by decide) (.of_mem (reads _ List.mem_cons_self))).closed (by decide)

end Query

section
variable {fields : List Field} {lookups : List Lookup}

theorem each_lookups {ls : List Lookup} (sub : ls ⊆ lookups) :
    Code.Each (Showing N fields lookups) (ls.flatMap Lookup.code) :=
  .flatMap fun l hl => .single (.inr (.inl ⟨l, sub hl, rfl⟩))

theorem Construction.each_code {rest : Construction} (sub : rest.lookups ⊆ lookups) :
    rest.code.Each (Showing N fields lookups) := by
  have blank : Code.blank.Each (Showing N fields lookups) := .showing .blank
  cases rest with
  | ofClass functions events =>
    obtain ⟨called, stubs⟩ := List.append_subset.1 sub
    refine (((blank.append (each_lookups called)).append blank).append (.flatMap fun ls hls => ?_))
      |>.append blank
    unfold eventCode
    split
    · exact .nil
    · exact (each_lookups fun l hl => stubs (List.mem_flatten.2 ⟨ls, hls, hl⟩)).append blank
  | ofStruct size => exact blank.append (.single (.inr (.inl ⟨size, sub List.mem_cons_self, rfl⟩)))

theorem StaticConstructor.each_code {c : StaticConstructor} (name : NamedIn N c.typeName) :
    c.code.Each (Showing N c.fields c.lookups) := by
  have sub := List.append_subset.1 (List.Subset.refl c.lookups)
  obtain ⟨first, properties⟩ := List.cons_subset.1 sub.1
  have only : [c.type] ⊆ c.lookups := List.cons_subset.2 ⟨first, List.nil_subset _⟩
  refine .append (each_fields fun _ hf => hf) (.member ?_ ?_)
  · exact (NamedIn.opened (by decide) name).closed (by decide)
  · exact ((each_lookups only).append
      (.showing .blank)).append (each_lookups properties) |>.append (Construction.each_code sub.2)

end

def Field.DeclaredBy (f : Field) (text : String) : Prop :=
  match f.modifier with
  | .constant value =>
    text = "const " ++ f.handle.scriptType ++ " " ++ f.handle.text ++ " = " ++ toString value ++ ";"
  | _ => ∃ words ∈ ["static ", "static readonly ", "public static readonly "],
    text = words ++ f.handle.scriptType ++ " " ++ f.handle.text ++ ";"

theorem Field.declaredBy_text (f : Field) : f.DeclaredBy f.text := by
  unfold DeclaredBy text
  cases f.modifier with
  | static => exact ⟨"static ", by simp, by simp [← String.toList_inj]⟩
  | staticReadonly => exact ⟨"static readonly ", by simp, by simp [← String.toList_inj]⟩
  | publicStaticReadonly =>
    exact ⟨"public static readonly ", by simp, by simp [← String.toList_inj]⟩
  | constant value => simp [← String.toList_inj]

def Lookup.assignment (l : Lookup) (value : String) : String :=
  (if l.isLocal then l.target.scriptType ++ " " else "") ++ l.target.text ++ " = " ++ value ++ ";"

/-- The static constructor of the type assigns what is looked up, in this order. -/
def AssignedIn (typeName : String) (lookups : List Lookup) (code : Code) : Prop :=
  lookups = [] ∨ ∃ before body after,
    code = before ++ Code.braced ("static " ++ typeName ++ "()") body ++ after ∧
      (lookups.map fun l => Layout.line (l.assignment l.query.expression)).Sublist body

theorem AssignedIn.around {typeName : String} {lookups : List Lookup} {code : Code}
    (h : AssignedIn typeName lookups code) (before after : Code) :
    AssignedIn typeName lookups (before ++ code ++ after) := by
  obtain none | ⟨first, body, last, rfl, assigned⟩ := h
  · exact .inl none
  · exact .inr ⟨before ++ first, body, last ++ after, by simp only [List.append_assoc], assigned⟩

/-- The code has a declaration of each handle and the assignments of the lookups in their order; no
other line names a handle that is not as told. -/
structure Prints (N : String → Prop) (typeName : String) (fields : List Field)
    (lookups : List Lookup) (code : Code) : Prop where
  declared : ∀ f ∈ fields, ∃ text, f.DeclaredBy text ∧ .line text ∈ code
  assigned : AssignedIn typeName lookups code
  lines : code.Each (Showing N fields lookups)

theorem lookups_lines (ls : List Lookup) :
    ls.flatMap Lookup.code = ls.map fun l => Layout.line l.text :=
  List.map_eq_flatMap.symm

namespace StaticConstructor
variable (c : StaticConstructor)

theorem field_printed {f : Field} (hf : f ∈ c.fields) : .line f.text ∈ c.code :=
  List.mem_append_left _ (List.mem_map.2 ⟨f, hf, rfl⟩)

theorem events_printed (events : List (List Lookup)) :
    (events.flatten.map fun l => Layout.line l.text).Sublist
      (events.flatMap Construction.eventCode) := by
  induction events with
  | nil => exact .slnil
  | cons ls rest ih =>
    rw [List.flatten_cons, List.map_append, List.flatMap_cons]
    refine List.Sublist.append ?_ ih
    unfold Construction.eventCode
    split
    · next empty => simp [List.isEmpty_iff.1 empty]
    · rw [lookups_lines]
      exact List.sublist_append_left _ _

theorem rest_printed (rest : Construction) :
    (rest.lookups.map fun l => Layout.line l.text).Sublist rest.code := by
  cases rest with
  | ofClass functions events =>
    simp only [Construction.lookups, Construction.code, List.map_append, lookups_lines,
      List.append_assoc]
    refine List.Sublist.trans ?_ (List.sublist_append_right _ _)
    refine List.Sublist.append (.refl _) ?_
    refine List.Sublist.trans ?_ (List.sublist_append_right _ _)
    exact (events_printed events).trans (List.sublist_append_left _ _)
  | ofStruct size => exact List.sublist_append_right _ _

theorem assigns : AssignedIn c.typeName c.lookups c.code := by
  refine .inr ⟨c.fields.map fun f => .line f.text, _, [], (List.append_nil _).symm, ?_⟩
  show (c.lookups.map fun l => Layout.line l.text).Sublist
    (c.type.code ++ Code.blank ++ c.properties.flatMap Lookup.code ++ c.rest.code)
  rw [lookups, List.map_append, List.map_cons, lookups_lines]
  refine List.Sublist.append ?_ (rest_printed c.rest)
  exact .cons_cons _ (List.sublist_append_right _ _)

end StaticConstructor

namespace ClassUnit

def texts (u : ClassUnit) : List String :=
  u.name :: (u.construction.map StaticConstructor.typeName).toList ++
    u.properties.flatMap WrapperProperty.texts ++ u.functions.flatMap Wrapper.texts ++
    u.events.flatMap EventStub.texts

variable {u : ClassUnit}

theorem field_printed {f : Field} (hf : f ∈ u.fields) : .line f.text ∈ u.body := by
  unfold body
  simp only [fields, List.mem_append, List.mem_flatMap] at hf ⊢
  obtain ((hf | ⟨w, hw, hf⟩) | ⟨w, hw, hf⟩) | ⟨e, he, hf⟩ := hf
  · cases known : u.construction with
    | none => simp [known] at hf
    | some c =>
      rw [known] at hf
      exact .inl (.inl (.inl (.inl (.inl (c.field_printed hf)))))
  · refine .inl (.inl (.inr ⟨w, hw, ?_⟩))
    simp only [WrapperProperty.code, List.mem_append, List.mem_map]
    exact .inl (.inr ⟨f, hf, rfl⟩)
  · refine .inl (.inr ⟨w, hw, ?_⟩)
    simp only [Wrapper.code, List.mem_append, List.mem_map]
    exact .inl (.inr ⟨f, hf, rfl⟩)
  · refine .inr ⟨e, he, ?_⟩
    simp only [EventStub.code, List.mem_append, List.mem_map]
    exact .inl (.inl (.inl (.inl (.inr ⟨f, hf, rfl⟩))))

theorem assigns {typeName : String} (named : ∀ c ∈ u.construction, c.typeName = typeName) :
    AssignedIn typeName u.lookups u.body := by
  unfold lookups body
  cases construction : u.construction with
  | none => exact .inl rfl
  | some c =>
    obtain rfl := named c construction
    simp only [List.append_assoc]
    exact c.assigns.around [] _

section
variable (texts : ∀ x ∈ u.texts, NamedIn N x) (reads : ∀ h ∈ u.reads, N h.text)
include texts

theorem each_construction :
    Code.Each (Showing N u.fields u.lookups) ((u.construction.map StaticConstructor.code).getD []) := by
  cases known : u.construction with
  | none => exact .nil
  | some c =>
    refine (StaticConstructor.each_code (texts _ (by simp [ClassUnit.texts, known]))).wider ?_ ?_
    · intro f hf
      simp [fields, known, hf]
    · intro l hl
      simp [lookups, known, hl]

include reads

theorem each_members : Code.Each (Showing N u.fields u.lookups)
    (u.properties.flatMap WrapperProperty.code ++ u.functions.flatMap Wrapper.code ++
      u.events.flatMap EventStub.code) := by
  simp only [ClassUnit.texts, List.mem_append, List.mem_flatMap] at texts
  simp only [ClassUnit.reads, List.mem_append, List.mem_flatMap] at reads
  refine .append (.append (.flatMap fun p hp => ?_) (.flatMap fun w hw => ?_))
    (.flatMap fun e he => ?_)
  · refine (WrapperProperty.each_code (fun x hx => texts x (.inl (.inl (.inr ⟨p, hp, hx⟩))))
      fun h hh => reads h (.inl (.inl ⟨p, hp, hh⟩))).wider (fun f hf => ?_) (List.nil_subset _)
    simp only [fields, List.mem_append, List.mem_flatMap]
    exact .inl (.inl (.inr ⟨p, hp, hf⟩))
  · refine (Wrapper.each_code (fun x hx => texts x (.inl (.inr ⟨w, hw, hx⟩)))
      fun h hh => reads h (.inl (.inr ⟨w, hw, hh⟩))).wider (fun f hf => ?_) (List.nil_subset _)
    simp only [fields, List.mem_append, List.mem_flatMap]
    exact .inl (.inr ⟨w, hw, hf⟩)
  · refine (EventStub.each_code (fun x hx => texts x (.inr ⟨e, he, hx⟩))
      fun h hh => reads h (.inr ⟨e, he, hh⟩)).wider (fun f hf => ?_) (List.nil_subset _)
    simp only [fields, List.mem_append, List.mem_flatMap]
    exact .inr ⟨e, he, hf⟩

theorem each_body : u.body.Each (Showing N u.fields u.lookups) := by
  have head : NamedIn N ("protected " ++ u.name ++ "(IntPtr nativeObject) : base(nativeObject)") :=
    (NamedIn.opened (by decide) (texts _ (by simp [ClassUnit.texts]))).closed (by decide)
  have rest := each_members texts reads
  unfold body
  rw [List.append_assoc, List.append_assoc, ← List.append_assoc (u.properties.flatMap _)]
  exact (((each_construction texts).append (.showing .blank)).append (.member head .nil)).append rest

theorem prints {typeName : String} (named : ∀ c ∈ u.construction, c.typeName = typeName) :
    Prints N typeName u.fields u.lookups u.body where
  declared f hf := ⟨f.text, f.declaredBy_text, field_printed hf⟩
  assigned := assigns named
  lines := each_body texts reads

end

end ClassUnit

def StructMember.texts : StructMember → List String
  | .handles _ => []
  | .mirror field => [field.type, field.name]

namespace StructUnit

def texts (u : StructUnit) : List String :=
  u.name :: (u.construction.map StaticConstructor.typeName).toList ++
    u.members.flatMap StructMember.texts ++
    ((u.mirroring.map fun m => (m.inputs ++ m.outputs).flatMap Statement.texts).getD [])

def bodies (u : StructUnit) : Code := u.body ++ u.marshaller

variable {u : StructUnit}

theorem field_printed {f : Field} (hf : f ∈ u.fields) : .line f.text ∈ u.body := by
  unfold body
  obtain hf | hf := List.mem_append.1 hf
  · obtain ⟨member, hmember, hf⟩ := List.mem_flatMap.1 hf
    refine List.mem_append_left _ (List.mem_flatMap.2 ⟨member, hmember, ?_⟩)
    cases member with
    | handles fields => exact List.mem_map.2 ⟨f, hf, rfl⟩
    | mirror field => cases hf
  · refine List.mem_append_right _ ?_
    unfold construction at hf
    cases mirrored : u.mirroring with
    | none => simp [mirrored] at hf
    | some m =>
      cases known : m.construction with
      | none => simp [mirrored, known] at hf
      | some c =>
        simp only [mirrored, known, Option.bind_some, Option.map_some, Option.getD_some] at hf ⊢
        exact List.mem_append_left _ (List.mem_append_left _
          (List.mem_append_right _ (c.field_printed hf)))

theorem assigns {typeName : String} (named : ∀ c ∈ u.construction, c.typeName = typeName) :
    AssignedIn typeName u.lookups u.body := by
  unfold lookups body construction at *
  cases mirrored : u.mirroring with
  | none => exact .inl rfl
  | some m =>
    cases known : m.construction with
    | none => exact .inl (by simp [known])
    | some c =>
      obtain rfl := named c (by simp [mirrored, known])
      have assigns := c.assigns.around (u.members.flatMap StructMember.code ++ Code.blank)
        (Code.blank ++ u.marshalling m)
      simpa [known] using assigns

section
variable (texts : ∀ x ∈ u.texts, NamedIn N x) (reads : ∀ h ∈ u.reads, N h.text)
include texts

theorem each_member {member : StructMember} (mem : member ∈ u.members) :
    member.code.Each (Showing N u.fields u.lookups) := by
  cases member with
  | handles fields =>
    refine each_fields fun f hf => List.mem_append_left _ (List.mem_flatMap.2 ⟨_, mem, hf⟩)
  | mirror field =>
    have named (x : String) (hx : x ∈ [field.type, field.name]) : NamedIn N x := texts x (by
      simp only [StructUnit.texts, List.mem_append, List.mem_flatMap]
      exact .inl (.inr ⟨_, mem, hx⟩))
    have access : NamedIn N (accessText field.isProtected) := by
      unfold accessText
      split <;> exact .plain (by decide)
    refine Code.Each.showing (.single ?_)
    exact ((access.joined (by decide) (named _ (by simp))).joined (by decide)
      (named _ (by simp))).closed (by decide)

theorem each_construction {m : Mirroring} (mirrored : u.mirroring = some m) :
    Code.Each (Showing N u.fields u.lookups) ((m.construction.map StaticConstructor.code).getD []) := by
  cases known : m.construction with
  | none => exact .nil
  | some c =>
    have same : u.construction = some c := by simp [construction, mirrored, known]
    refine (StaticConstructor.each_code (texts _ (by simp [StructUnit.texts, same]))).wider ?_ ?_
    · intro f hf
      simp [fields, same, hf]
    · intro l hl
      simp [lookups, same, hl]

include reads

theorem each_marshalling {m : Mirroring} (mirrored : u.mirroring = some m) :
    (u.marshalling m).Each (NamedIn N) := by
  have name : NamedIn N u.name := texts _ (by simp [StructUnit.texts])
  have statements : ∀ x ∈ (m.inputs ++ m.outputs).flatMap Statement.texts, NamedIn N x :=
    fun x hx => texts x (List.mem_append_right _ (by simpa [mirrored] using hx))
  rw [List.flatMap_append, List.forall_mem_append] at statements
  simp only [StructUnit.reads, mirrored, List.forall_mem_cons, List.forall_mem_append] at reads
  obtain ⟨-, inputs, outputs⟩ := reads
  have read : Code.Each (NamedIn N)
      [.line "// Construct by marshalling from a native buffer."] := .single (.plain (by decide))
  have written : Code.Each (NamedIn N)
      [.line "// Marshal into a preallocated native buffer."] := .single (.plain (by decide))
  have source : NamedIn N sourceBuffer := .plain (by decide)
  have target : NamedIn N targetBuffer := .plain (by decide)
  have made : NamedIn N ("public " ++ u.name ++ "(IntPtr " ++ sourceBuffer ++ ")") :=
    ((NamedIn.opened (by decide) name).joined (by decide) source).closed (by decide)
  have given : NamedIn N ("public void ToNative(IntPtr " ++ targetBuffer ++ ")") :=
    (NamedIn.opened (by decide) target).closed (by decide)
  exact ((((Code.Each.blank.append read).append
    (.block (fun _ h => h) made (.rawMemory (Statement.each_codes statements.1 inputs)))).append
      .blank).append written).append
        (.block (fun _ h => h) given (.rawMemory (Statement.each_codes statements.2 outputs)))

theorem each_marshaller (mirrored : u.mirroring.isSome) : u.marshaller.Each (NamedIn N) := by
  have name : NamedIn N u.name := texts _ (by simp [StructUnit.texts])
  have size : NamedIn N Handle.dataSize.text := .of_mem (reads _ (by
    obtain ⟨m, known⟩ := Option.isSome_iff_exists.1 mirrored
    simp [StructUnit.reads, known]))
  have mirror : NamedIn N (Marshaller.mirrorName u.name) := name.extended (by decide) (by decide)
  have place : NamedIn N "nativeBuffer + arrayIndex * GetNativeDataSize()" := .plain (by decide)
  have read : NamedIn N ("public static " ++ u.name ++
      " FromNative(IntPtr nativeBuffer, int arrayIndex, UnrealSharpObject owner)") :=
    (NamedIn.opened (by decide) name).closed (by decide)
  have written : NamedIn N ("public static void ToNative(IntPtr nativeBuffer, int arrayIndex, " ++
      "UnrealSharpObject owner, " ++ u.name ++ " obj)") := by
    refine .closed (.append (.inl (by decide)) ?_ name) (by decide)
    exact .append (.inl (by decide)) (.plain (by decide)) (.plain (by decide))
  have same {P : String → Prop} (text : String) (h : P text) : P text := h
  refine .append .blank (.block same (.opened (by decide) mirror)
    (.append (.append (.append (.append (.block same read (.single ?_)) .blank)
      (.block same written (.single ?_))) .blank)
      (.block same (.plain (by decide)) (.single ?_))))
  · exact ((NamedIn.opened (by decide) name).joined (by decide) place).closed (by decide)
  · exact (NamedIn.opened (by decide) place).closed (by decide)
  · exact ((NamedIn.opened (by decide) name).joined (by decide) size).closed (by decide)

theorem prints (mirrored : u.mirroring.isSome) {typeName : String}
    (named : ∀ c ∈ u.construction, c.typeName = typeName) :
    Prints N typeName u.fields u.lookups u.bodies where
  declared f hf := ⟨f.text, f.declaredBy_text, List.mem_append_left _ (field_printed hf)⟩
  assigned := (assigns named).around [] _
  lines := by
    obtain ⟨m, known⟩ := Option.isSome_iff_exists.1 mirrored
    refine .append ?_ (each_marshaller texts reads mirrored).showing
    unfold body
    simp only [known]
    exact .append (.flatMap fun member mem => each_member texts mem)
      ((((Code.Each.showing .blank).append (each_construction texts known)).append
        (.showing .blank)).append (each_marshalling texts reads known).showing)

end

end StructUnit

end ScriptGlue
