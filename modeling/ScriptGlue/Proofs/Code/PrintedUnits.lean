import ScriptGlue.Proofs.Code.PrintedMembers
import ScriptGlue.Unit.Basic

/-! # Generated units nest

A unit is a banner, imports, a namespace and types, each a header line and a body in braces. It
nests if its names stay on their lines and its members nest.
-/
namespace ScriptGlue
open Text Code

variable {exact : Prop}

theorem Code.nested_import {space : String} (h : Inline space) :
    Nested exact [Code.importLine space] :=
  .single (lineText_between (by decide) (by decide) h (by decide))

theorem Code.nested_imports {spaces : List String} (h : ∀ space ∈ spaces, Inline space) :
    Nested exact (spaces.map Code.importLine) := by
  induction spaces with
  | nil => exact .nil
  | cons space rest ih =>
    obtain ⟨first, others⟩ := List.forall_mem_cons.1 h
    exact (nested_import first).append (ih others)

theorem Code.nested_skeleton {space : String} (h : Inline space) :
    Nested exact (skeleton space) := by
  have names : ∀ space ∈ standardImports, Inline space := by decide
  exact (nested_imports names).append (Nested.blank.append
    (.line (lineText_between (by decide) (by decide) h (by decide)) .blank))

theorem nested_opening {space : String} (h : Inline space) :
    Nested exact (banner :: Code.skeleton space) :=
  .line (lineText_literal (by decide) (by decide)) (Code.nested_skeleton h)

structure Code.TypeHeader.Printed (h : TypeHeader) : Prop where
  kind : Inline h.kind
  name : Inline h.name
  base : Inline h.base
  interfaces : ∀ i ∈ h.interfaces, Inline i

theorem Code.TypeHeader.Printed.lineText {h : TypeHeader} (printed : h.Printed) :
    LineText exact h.text := by
  let words := String.intercalate " " ("public" :: (if h.isAbstract then ["abstract"] else []) ++
    (if h.isPartial then ["partial"] else []))
  have modifiers : Inline words ∧ Led words := by
    dsimp only [words]
    cases h.isAbstract <;> cases h.isPartial <;> exact ⟨by decide, by decide, by decide⟩
  have bases : ∀ b ∈ (if h.base = "" then [] else [h.base]) ++ h.interfaces, Inline b := by
    refine List.forall_mem_append.2 ⟨?_, printed.interfaces⟩
    split
    · exact fun _ hb => absurd hb List.not_mem_nil
    · exact List.forall_mem_singleton.2 printed.base
  have listed := inline_intercalate (by decide : Inline ", ") bases
  unfold TypeHeader.text
  refine ⟨inline_append.2 ⟨?_, inline_ite inline_empty (inline_append.2 ⟨by decide, listed⟩)⟩,
    fun _ => ?_⟩
  · simp only [inline_append]
    exact ⟨⟨⟨⟨modifiers.1, by decide⟩, printed.kind⟩, by decide⟩, printed.name⟩
  · simp only [String.append_assoc]
    exact (modifiers.2.append _).flush

structure ClassUnit.Printed (exact : Prop) (u : ClassUnit) : Prop where
  imports : ∀ space ∈ u.imports, Inline space
  space : Inline u.space
  header : u.header.Printed
  construction : ∀ c ∈ u.construction, c.Printed exact
  properties : ∀ p ∈ u.properties, p.Printed
  functions : ∀ w ∈ u.functions, w.Printed exact
  events : ∀ e ∈ u.events, e.Printed exact

theorem StaticConstructor.nested_option {c : Option StaticConstructor}
    (h : ∀ x ∈ c, x.Printed exact) : Nested exact ((c.map StaticConstructor.code).getD []) := by
  cases c with
  | none => exact .nil
  | some c => exact (h c rfl).nested

theorem ClassUnit.Printed.nested {u : ClassUnit} (h : u.Printed exact) : Nested exact u.code := by
  have constructor : Nested exact u.constructor := by
    have name : Inline u.name := h.header.name
    exact .block (lineText_between (by decide) (by decide) name (by decide)) .nil
  have body : Nested exact u.body :=
    ((((StaticConstructor.nested_option h.construction).append .blank).append constructor).append
      (.flatMap fun p hp => (h.properties p hp).nested)).append
      (.flatMap fun w hw => (h.functions w hw).nested) |>.append
      (.flatMap fun e he => (h.events e he).nested)
  have opening : Nested exact (banner :: u.imports.map Code.importLine) :=
    .line (lineText_literal (by decide) (by decide)) (Code.nested_imports h.imports)
  have mark : Nested exact [.line "[UClass]"] := .single (lineText_literal (by decide) (by decide))
  exact ((opening.append (Code.nested_skeleton h.space)).append mark).append
    (.block h.header.lineText body)

structure InterfaceUnit.Printed (u : InterfaceUnit) : Prop where
  space : Inline u.space
  name : Inline u.name
  methods : ∀ m ∈ u.methods, m.Printed

theorem InterfaceUnit.Printed.nested {u : InterfaceUnit} (h : u.Printed) : Nested exact u.code := by
  have header : Code.TypeHeader.Printed { kind := "interface", name := u.name } :=
    ⟨(by decide : Inline "interface"), h.name, inline_empty, fun _ hi => absurd hi List.not_mem_nil⟩
  have mark : Nested exact [.line "[UInterface]"] :=
    .single (lineText_literal (by decide) (by decide))
  exact ((nested_opening h.space).append mark).append
    (.block header.lineText (.flatMap fun m hm => (h.methods m hm).nested))

def StructMember.Printed : StructMember → Prop
  | .handles fields => ∀ f ∈ fields, Inline f.handle.stem
  | .mirror field => field.Printed

theorem StructMember.Printed.nested {m : StructMember} (h : m.Printed) : Nested exact m.code := by
  cases m with
  | handles fields => exact Field.nested h
  | mirror field => exact .single (MirrorField.Printed.lineText h)

structure Mirroring.Printed (exact : Prop) (m : Mirroring) : Prop where
  construction : ∀ c ∈ m.construction, c.Printed exact
  inputs : ∀ x ∈ m.inputs, x.Printed exact
  outputs : ∀ x ∈ m.outputs, x.Printed exact

structure StructUnit.Printed (exact : Prop) (u : StructUnit) : Prop where
  space : Inline u.space
  name : Inline u.name
  members : ∀ m ∈ u.members, m.Printed
  mirroring : ∀ m ∈ u.mirroring, m.Printed exact

namespace StructUnit.Printed
variable {u : StructUnit} (h : u.Printed exact)
include h

theorem marshalling {m : Mirroring} (some : u.mirroring = some m) :
    Nested exact (u.marshalling m) := by
  have name := h.name
  have parts := h.mirroring m some
  have reading : Nested exact (Code.block ("public " ++ u.name ++ "(IntPtr " ++ sourceBuffer ++ ")")
      (Code.rawMemory (m.inputs.flatMap Statement.code))) := by
    simp only [String.append_assoc]
    refine .block (lineText_of_led ?_ (led_begun (by decide) _))
      (.rawMemory (Statement.nested parts.inputs))
    simp [name, sourceBuffer]
    and_intros <;> exact inline_literal (by decide)
  have writing : Nested exact (Code.block ("public void ToNative(IntPtr " ++ targetBuffer ++ ")")
      (Code.rawMemory (m.outputs.flatMap Statement.code))) :=
    .block (lineText_of_led (inline_append.2 ⟨inline_append.2
        ⟨inline_literal (by decide), inline_literal (by decide)⟩, inline_literal (by decide)⟩)
      ((led_begun (by decide) _).append _)) (.rawMemory (Statement.nested parts.outputs))
  refine ((((Nested.blank.append (.single ?_)).append reading).append .blank).append
    (.single ?_)).append writing
  · exact lineText_literal (by decide) (by decide)
  · exact lineText_literal (by decide) (by decide)

theorem marshaller : Nested exact u.marshaller := by
  have name := h.name
  have mirror : Inline (Marshaller.mirrorName u.name) := inline_append.2 ⟨name, by decide⟩
  unfold StructUnit.marshaller
  simp only [String.append_assoc]
  refine Nested.blank.append (.block ?_ (((((Nested.block ?_ (.single ?_)).append .blank).append
    (.block ?_ (.single ?_))).append .blank).append
    (.block (lineText_literal (by decide) (by decide)) (.single ?_))))
  all_goals
    refine lineText_of_led ?_ (led_begun (by decide) _)
    simp [name, mirror]
    and_intros <;> exact inline_literal (by decide)

theorem nested : Nested exact u.code := by
  have marks : Nested exact u.attributes := by
    unfold StructUnit.attributes
    split
    · exact .line (lineText_literal (by decide) (by decide))
        (.single (lineText_literal (by decide) (by decide)))
    · exact .single (lineText_literal (by decide) (by decide))
  have header : Code.TypeHeader.Printed { kind := "struct", name := u.name } :=
    ⟨(by decide : Inline "struct"), h.name, inline_empty, fun _ hi => absurd hi List.not_mem_nil⟩
  have body : Nested exact u.body := by
    refine (Nested.flatMap fun m hm => (h.members m hm).nested).append ?_
    split
    · exact .nil
    · next m mirrored =>
      exact ((Nested.blank.append (StaticConstructor.nested_option
        (h.mirroring m mirrored).construction)).append .blank).append (h.marshalling mirrored)
  have rest : Nested exact (if u.mirroring.isNone then [] else u.marshaller) := by
    split
    · exact .nil
    · exact h.marshaller
  exact (((nested_opening h.space).append marks).append (.block header.lineText body)).append rest

end StructUnit.Printed

structure EnumUnit.Printed (exact : Prop) (u : EnumUnit) : Prop where
  space : Inline u.space
  name : Inline u.name
  underlying : Inline u.underlying
  values : ∀ v ∈ u.values, Inline v.1 ∧ (exact → Flush v.1)

theorem EnumUnit.Printed.nested {u : EnumUnit} (h : u.Printed exact) : Nested exact u.code := by
  have header : Code.TypeHeader.Printed {
      kind := "enum", name := u.name, base := u.underlying, isPartial := false } :=
    ⟨(by decide : Inline "enum"), h.name, h.underlying, fun _ hi => absurd hi List.not_mem_nil⟩
  have mark : Nested exact [.line "[UEnum]"] := .single (lineText_literal (by decide) (by decide))
  have values : Nested exact
      (u.values.map fun v => Layout.line (v.1 ++ "=" ++ toString v.2 ++ ",")) := by
    refine .lines fun v hv => ?_
    obtain ⟨inline, flush⟩ := h.values v hv
    refine ⟨?_, fun exactly => ?_⟩
    · simp [inline]
      and_intros <;> exact inline_literal (by decide)
    · have led : Led (v.1 ++ "=") := (flush exactly).led_append (led_literal (by decide))
      exact ((led.append _).append _).flush
  exact ((nested_opening h.space).append mark).append (.block header.lineText values)

structure Forwarder.Printed (f : Forwarder) : Prop where
  name : Inline f.name
  returnType : Inline f.returnType
  receiverType : Inline f.receiverType
  parameters : ∀ p ∈ f.parameters, p.Printed
  library : Inline f.library
  led : Led f.library
  arguments : ∀ a ∈ f.arguments, Inline a

theorem Forwarder.Printed.nested {f : Forwarder} (h : f.Printed) : Nested exact f.code := by
  have receiver : Inline ("this " ++ f.receiverType ++ " " ++ receiverName) := by
    simp [h.receiverType]
    and_intros <;> exact inline_literal (by decide)
  have parameters : ∀ t ∈ f.parameters.map Parameter.declaration, Inline t := fun t ht => by
    obtain ⟨p, hp, rfl⟩ := List.mem_map.1 ht
    exact (h.parameters p hp).declaration
  have declared := inline_intercalate (by decide : Inline ", ")
    (List.forall_mem_cons.2 ⟨receiver, parameters⟩)
  have passed := inline_intercalate (by decide : Inline ", ") h.arguments
  have header : LineText exact f.header := by
    have named : Inline ("public static " ++ f.returnType ++ " " ++ f.name ++ "(") := by
      simp [h.returnType, h.name]
      and_intros <;> exact inline_literal (by decide)
    unfold Forwarder.header
    refine lineText_of_led (inline_append.2 ⟨inline_append.2 ⟨named, declared⟩, by decide⟩) ?_
    simp only [String.append_assoc]
    exact led_begun (by decide) _
  have call : Inline f.call := by
    unfold Forwarder.call
    simp [h.library, h.name, passed]
    and_intros <;> exact inline_literal (by decide)
  have led : Led f.call := by
    unfold Forwarder.call
    simp only [String.append_assoc]
    exact h.led.append _
  refine .block header (.single ?_)
  split
  · exact lineText_of_led (inline_append.2 ⟨inline_literal (by decide), call⟩)
      (led_begun (by decide) _)
  · exact lineText_of_led call led

structure ExtensionUnit.Printed (u : ExtensionUnit) : Prop where
  space : Inline u.space
  module : Inline u.module
  forwarders : ∀ f ∈ u.forwarders, f.Printed

theorem Code.nested_separated {pieces : List Code} (h : ∀ piece ∈ pieces, Nested exact piece) :
    Nested exact (Code.separated pieces) := by
  unfold Code.separated
  induction pieces with
  | nil => exact .nil
  | cons piece rest ih =>
    obtain ⟨first, others⟩ := List.forall_mem_cons.1 h
    cases rest with
    | nil => simpa [List.intercalate_singleton] using first
    | cons next rest =>
      rw [List.intercalate_cons_cons]
      exact (first.append .blank).append (ih others)

theorem ExtensionUnit.Printed.nested {u : ExtensionUnit} (h : u.Printed) : Nested exact u.code := by
  refine (nested_opening h.space).append (.block
    (lineText_between (by decide) (by decide) h.module (by decide))
    (Code.nested_separated fun piece hpiece => ?_))
  obtain ⟨f, hf, rfl⟩ := List.mem_map.1 hpiece
  exact (h.forwarders f hf).nested

end ScriptGlue
