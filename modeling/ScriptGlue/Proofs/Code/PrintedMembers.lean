import Mathlib.Data.List.TakeWhile
import ScriptGlue.Proofs.Code.PrintedNames
import ScriptGlue.Unit.Function
import ScriptGlue.Unit.Lookup
import ScriptGlue.Unit.Property

/-! # Generated members nest

The code of a generated member nests if the texts it prints stay on their lines. Where a line begins
with such a text, and not with a word of the generator, that text decides whether the line begins
with a blank.
-/
namespace ScriptGlue
open Text Code

variable {exact : Prop}

namespace Text

theorem Flush.led_append {a b : String} (ha : Flush a) (hb : Led b) : Led (a ++ b) where
  flush := ha.append hb.flush
  nonempty none := hb.nonempty (String.append_eq_empty_iff.1 none).2

theorem Firm.append {a : String} (h : Firm a) (b : String) : Firm (a ++ b) where
  flush := (h.led.append b).flush
  more := by
    obtain ⟨c, hc, other⟩ := h.more
    exact ⟨c, by simp [String.toList_append, hc], other⟩

end Text

theorem Handle.scriptType_eq (h : Handle) : h.scriptType = "IntPtr" ∨ h.scriptType = "int" := by
  cases h <;> first | exact .inl rfl | exact .inr rfl

theorem Handle.inline_scriptType (h : Handle) : Inline h.scriptType := by
  obtain type | type := h.scriptType_eq <;> rw [type] <;> decide

theorem Handle.led_scriptType (h : Handle) : Led h.scriptType := by
  obtain type | type := h.scriptType_eq <;> rw [type] <;> exact ⟨by decide, by decide⟩

def Handle.stem : Handle → String
  | .nativeType => ""
  | .dataSize => ""
  | .offset slot => slot
  | .property slot => slot
  | .length slot => slot
  | .function name => name
  | .paramsSize name => name

theorem Handle.inline_text {h : Handle} (stem : Inline h.stem) : Inline h.text := by
  cases h with
  | nativeType => decide
  | dataSize => decide
  | _ => exact inline_append.2 ⟨stem, inline_literal (by decide)⟩

theorem Handle.led_text {h : Handle} (stem : Flush h.stem) : Led h.text := by
  cases h with
  | nativeType => exact led_literal (by decide)
  | dataSize => exact led_literal (by decide)
  | _ => exact stem.led_append (led_literal (by decide))

theorem Field.lineText {f : Field} (stem : Inline f.handle.stem) : LineText exact f.text := by
  have handle := Handle.inline_text stem
  have type := f.handle.inline_scriptType
  unfold Field.text
  split <;> simp only [String.append_assoc] <;>
    refine lineText_of_led ?_ (led_begun (by decide) _) <;> simp [handle, type] <;>
    and_intros <;> exact inline_literal (by decide)

theorem Field.nested {fields : List Field} (stems : ∀ f ∈ fields, Inline f.handle.stem) :
    Nested exact (fields.map fun f => .line f.text) :=
  .lines fun f hf => Field.lineText (stems f hf)

namespace Query

def stems : Query → List String
  | .classNamed name => [name]
  | .structNamed name => [name]
  | .offset owner name => [owner.stem, name]
  | .property owner name => [owner.stem, name]
  | .function name => [name]
  | .paramsSize owner => [owner.stem]
  | .structSize => []

theorem inline_expression {q : Query} (h : ∀ stem ∈ q.stems, Inline stem) :
    Inline q.expression := by
  cases q with
  | structSize => decide
  | classNamed name | structNamed name =>
    have name := h name List.mem_cons_self
    unfold expression
    simp [name]
    and_intros <;> exact inline_literal (by decide)
  | function name =>
    have name := h name List.mem_cons_self
    have type : Inline Handle.nativeType.text := by decide
    unfold expression
    simp [name, type]
    and_intros <;> exact inline_literal (by decide)
  | offset owner name | property owner name =>
    have name := h name (List.mem_cons_of_mem _ List.mem_cons_self)
    have owner := Handle.inline_text (h _ List.mem_cons_self)
    unfold expression
    simp [name, owner]
    and_intros <;> exact inline_literal (by decide)
  | paramsSize owner =>
    have owner := Handle.inline_text (h _ List.mem_cons_self)
    unfold expression
    simp [owner]
    and_intros <;> exact inline_literal (by decide)

end Query

/-- What a lookup prints: the handles and the native name that it is asked by. -/
structure Lookup.Printed (exact : Prop) (l : Lookup) : Prop where
  target : Inline l.target.stem
  query : ∀ stem ∈ l.query.stems, Inline stem
  flush : exact → Flush l.target.stem

theorem Lookup.Printed.lineText {l : Lookup} (h : l.Printed exact) : LineText exact l.text where
  inline := by
    have target := Handle.inline_text h.target
    have type := l.target.inline_scriptType
    have query := Query.inline_expression h.query
    unfold Lookup.text
    split <;> simp [target, type, query] <;>
      and_intros <;> exact inline_literal (by decide)
  flush exactly := by
    have led : Led ((if l.isLocal then l.target.scriptType ++ " " else "") ++ l.target.text) := by
      split
      · exact ((Handle.led_scriptType _).append _).append _
      · simpa using Handle.led_text (h.flush exactly)
    exact (((led.append _).append _).append _).flush

theorem Lookup.nested {ls : List Lookup} (printed : ∀ l ∈ ls, l.Printed exact) :
    Nested exact (ls.flatMap Lookup.code) :=
  .flatMap fun l hl => .single (printed l hl).lineText

theorem Construction.nested {c : Construction} (printed : ∀ l ∈ c.lookups, l.Printed exact) :
    Nested exact c.code := by
  cases c with
  | ofStruct size =>
    exact Nested.blank.append (.single (printed size (by simp [lookups])).lineText)
  | ofClass functions events =>
    have functional : ∀ l ∈ functions.flatten, l.Printed exact := fun l hl =>
      printed l (List.mem_append_left _ hl)
    have eventful : ∀ ls ∈ events, Nested exact (eventCode ls) := fun ls hls => by
      unfold eventCode
      split
      · exact .nil
      · exact (Lookup.nested fun l hl => printed l
          (List.mem_append_right _ (List.mem_flatten.2 ⟨ls, hls, hl⟩))).append .blank
    exact ((((Nested.blank.append (Lookup.nested functional)).append .blank).append
      (.flatMap eventful)).append .blank)

structure StaticConstructor.Printed (exact : Prop) (c : StaticConstructor) : Prop where
  fields : ∀ f ∈ c.fields, Inline f.handle.stem
  typeName : Inline c.typeName
  lookups : ∀ l ∈ c.lookups, l.Printed exact

theorem StaticConstructor.Printed.nested {c : StaticConstructor} (h : c.Printed exact) :
    Nested exact c.code := by
  have header : LineText exact ("static " ++ c.typeName ++ "()") :=
    lineText_between (by decide) (by decide) h.typeName (by decide)
  have type : Nested exact c.type.code :=
    .single (h.lookups c.type (by simp [StaticConstructor.lookups])).lineText
  have properties : Nested exact (c.properties.flatMap Lookup.code) :=
    Lookup.nested fun l hl => h.lookups l (by simp [StaticConstructor.lookups, hl])
  have rest : Nested exact c.rest.code :=
    Construction.nested fun l hl => h.lookups l (by simp [StaticConstructor.lookups, hl])
  exact (Field.nested h.fields).append
    (.block header (((type.append .blank).append properties).append rest))

namespace Marshaller

/-- The expression stays on its line, which it may begin. -/
structure Printed (m : Marshaller) : Prop where
  inline : Inline m.expression
  led : Led m.expression

/-- The types and handles that the expression is made of stay on their lines. That of a struct it
begins with. -/
def Spelled : Marshaller → Prop
  | .truthValue | .string | .text => True
  | .mirror type => Inline type ∧ Led type
  | .array type handle element => Inline type ∧ Inline handle.stem ∧ element.Spelled
  | .set type handle element => Inline type ∧ Inline handle.stem ∧ element.Spelled
  | .map types handle key value =>
    Inline types ∧ Inline handle.stem ∧ key.Spelled ∧ value.Spelled
  | .blittable type | .enumeration type | .object type | .subclass type | .softObject type
  | .weakObject type | .interface type | .delegate type | .multicastDelegate type => Inline type

theorem inline_functions {element : String} (h : Inline element) : Inline (functions element) := by
  unfold functions
  simp [h]
  and_intros <;> exact inline_literal (by decide)

theorem Spelled.printed {m : Marshaller} (h : m.Spelled) : m.Printed := by
  induction m with
  | truthValue => exact ⟨inline_literal (by decide), led_literal (by decide)⟩
  | string => exact ⟨inline_literal (by decide), led_literal (by decide)⟩
  | text => exact ⟨inline_literal (by decide), led_literal (by decide)⟩
  | mirror type => exact ⟨inline_append.2 ⟨h.1, inline_literal (by decide)⟩, h.2.append _⟩
  | array type handle element ih | set type handle element ih =>
    have container := inline_functions (ih h.2.2).inline
    have handle := Handle.inline_text h.2.1
    unfold Spelled at h
    refine ⟨?_, ?_⟩ <;> unfold expression
    · simp [h.1, handle, container]
      and_intros <;> exact inline_literal (by decide)
    · simp only [String.append_assoc]
      exact led_begun (by decide) _
  | map types handle key value keyed valued =>
    have first := inline_functions (keyed h.2.2.1).inline
    have second := inline_functions (valued h.2.2.2).inline
    have handle := Handle.inline_text h.2.1
    unfold Spelled at h
    refine ⟨?_, ?_⟩ <;> unfold expression
    · simp [h.1, handle, first, second]
      and_intros <;> exact inline_literal (by decide)
    · simp only [String.append_assoc]
      exact led_begun (by decide) _
  | _ =>
    refine ⟨inline_append.2 ⟨inline_append.2 ⟨inline_literal (by decide), h⟩,
      inline_literal (by decide)⟩, (led_begun (by decide) _).append _⟩

end Marshaller

structure Transfer.Printed (t : Transfer) : Prop where
  marshaller : t.marshaller.Printed
  owner : Inline t.owner
  buffer : Inline t.buffer
  displacement : Inline t.displacement.text
  length : ∀ h ∈ t.length, Inline h.stem

namespace Transfer
variable {t : Transfer} (h : t.Printed)
include h

theorem Printed.address : Inline t.address := by
  unfold Transfer.address
  simp [h.buffer, h.displacement]
  and_intros <;> exact inline_literal (by decide)

theorem Printed.loopHeader {length : Handle} (fixed : t.length = some length) :
    LineText exact (loopHeader length) :=
  lineText_between (by decide) (by decide) (Handle.inline_text (h.length length fixed)) (by decide)

omit h in
theorem assigned_begins (assignment : String) :
    (assigned assignment).toList <+: assignment.toList := by
  rw [assigned, String.toList_ofList, ← List.reverse_suffix, List.reverse_reverse]
  exact List.dropWhile_suffix _

omit h in
theorem led_assigned {assignment : String} (firm : Firm assignment) :
    Led (assigned assignment) := by
  obtain ⟨c, hc, blank, sign⟩ := firm.more
  have some : (assigned assignment).toList ≠ [] := by
    rw [assigned, String.toList_ofList]
    intro none
    have all := List.dropWhile_eq_nil_iff.1 (List.reverse_eq_nil_iff.1 none)
    simpa [blank, sign] using all c (List.mem_reverse.2 hc)
  obtain ⟨d, more, chars⟩ := List.exists_cons_of_ne_nil some
  obtain ⟨rest, whole⟩ := assigned_begins assignment
  rw [chars, List.cons_append] at whole
  have flush := firm.flush
  rw [Flush, ← whole] at flush
  exact ⟨by rw [Flush, chars]; exact flush, fun none => by simp [none] at chars⟩

theorem Printed.nested_readCode {assignment elementType : String} (target : Inline assignment)
    (element : Inline elementType) (firm : exact → Firm assignment) :
    Nested exact (t.readCode assignment elementType) := by
  have marshaller := h.marshaller.inline
  have owner := h.owner
  have address := h.address
  have stripped : Inline (assigned assignment) :=
    inline_of_subset target fun _ hc => (assigned_begins assignment).subset hc
  unfold readCode
  split
  · simp only [String.append_assoc]
    refine .single ⟨?_, fun exactly => ((firm exactly).led.append _).flush⟩
    simp [target, marshaller, owner, address]
    and_intros <;> exact inline_literal (by decide)
  · next length fixed =>
    have handle := Handle.inline_text (h.length length fixed)
    simp only [String.append_assoc]
    refine .line ⟨?_, fun exactly => ((led_assigned (firm exactly)).append _).flush⟩
      (.block (h.loopHeader fixed)
        (.single ⟨?_, fun exactly => ((led_assigned (firm exactly)).append _).flush⟩))
    · simp [stripped, element, handle]
      and_intros <;> exact inline_literal (by decide)
    · simp [stripped, marshaller, owner, address]
      and_intros <;> exact inline_literal (by decide)

theorem Printed.nested_writeCode {source : String} (value : Inline source) :
    Nested exact (t.writeCode source) := by
  have marshaller := h.marshaller.inline
  have owner := h.owner
  have address := h.address
  unfold writeCode
  split
  · simp only [String.append_assoc]
    refine .single (lineText_of_led ?_ (h.marshaller.led.append _))
    simp [value, marshaller, owner, address]
    and_intros <;> exact inline_literal (by decide)
  · next length fixed =>
    simp only [String.append_assoc]
    refine .block (h.loopHeader fixed) (.single (lineText_of_led ?_ (h.marshaller.led.append _)))
    simp [value, marshaller, owner, address]
    and_intros <;> exact inline_literal (by decide)

end Transfer

def Statement.Printed (exact : Prop) : Statement → Prop
  | .read t assignment elementType =>
    t.Printed ∧ Inline assignment ∧ Inline elementType ∧ (exact → Firm assignment)
  | .write t source => t.Printed ∧ Inline source
  | .declare type name => Inline type ∧ Inline name ∧ (exact → Led type)
  | .assign name value => Inline name ∧ Inline value ∧ (exact → Led name)
  | .giveBack value => Inline value

theorem Statement.Printed.nested {x : Statement} (h : x.Printed exact) : Nested exact x.code := by
  cases x with
  | read t assignment elementType => exact h.1.nested_readCode h.2.1 h.2.2.1 h.2.2.2
  | write t source => exact h.1.nested_writeCode h.2
  | declare type name =>
    obtain ⟨inline, named, led⟩ := h
    unfold Statement.code
    simp only [String.append_assoc]
    refine .single ⟨?_, fun exactly => ((led exactly).append _).flush⟩
    simp [inline, named]
    and_intros <;> exact inline_literal (by decide)
  | assign name value =>
    obtain ⟨inline, valued, led⟩ := h
    unfold Statement.code
    simp only [String.append_assoc]
    refine .single ⟨?_, fun exactly => ((led exactly).append _).flush⟩
    simp [inline, valued]
    and_intros <;> exact inline_literal (by decide)
  | giveBack value => exact .single (lineText_between (by decide) (by decide) h (by decide))

theorem Statement.nested {xs : List Statement} (printed : ∀ x ∈ xs, x.Printed exact) :
    Nested exact (xs.flatMap Statement.code) := .flatMap fun x hx => (printed x hx).nested

structure Parameter.Printed (p : Parameter) : Prop where
  type : Inline p.type
  name : Inline p.name

namespace Parameter

theorem inline_passing (p : Passing) : Inline p.text := by
  cases p <;> decide

theorem Printed.declaration {p : Parameter} (h : p.Printed) : Inline p.declaration := by
  have passing := inline_passing p.passing
  unfold Parameter.declaration
  simp [passing, h.type, h.name]
  exact inline_literal (by decide)

theorem Printed.argument {p : Parameter} (h : p.Printed) : Inline p.argument := by
  have passing := inline_passing p.passing
  exact inline_append.2 ⟨passing, h.name⟩

variable {ps : List Parameter} (printed : ∀ p ∈ ps, p.Printed)
include printed

theorem inline_declarations : Inline (declarations ps) :=
  inline_intercalate (by decide) fun _ ht => by
    obtain ⟨p, hp, rfl⟩ := List.mem_map.1 ht
    exact (printed p hp).declaration

theorem inline_arguments : Inline (arguments ps) :=
  inline_intercalate (by decide) fun _ ht => by
    obtain ⟨p, hp, rfl⟩ := List.mem_map.1 ht
    exact (printed p hp).argument

end Parameter

structure Wrapper.Printed (exact : Prop) (w : Wrapper) : Prop where
  native : Inline w.native
  name : Inline w.name
  returnType : Inline w.returnType
  parameters : ∀ p ∈ w.parameters, p.Printed
  fields : ∀ f ∈ w.fields, Inline f.handle.stem
  inputs : ∀ x ∈ w.exchange, ∀ st ∈ x.inputs, st.Printed exact
  outputs : ∀ x ∈ w.exchange, ∀ st ∈ x.outputs, st.Printed exact

namespace Wrapper.Printed
variable {w : Wrapper} (h : w.Printed exact)
include h

theorem header : LineText exact w.header := by
  have declared := Parameter.inline_declarations h.parameters
  unfold Wrapper.header
  split <;> simp only [String.append_assoc] <;>
    refine lineText_of_led ?_ (led_begun (by decide) _) <;>
    simp [h.returnType, h.name, declared] <;> and_intros <;> exact inline_literal (by decide)

theorem invocation {argument : String} (inline : Inline argument) :
    Nested exact (w.invocation argument) := by
  have handle : Inline w.handle.text := Handle.inline_text h.native
  unfold Wrapper.invocation
  split <;> simp only [String.append_assoc] <;>
    refine .single (lineText_of_led ?_ (led_begun (by decide) _)) <;>
    simp [handle, inline] <;> and_intros <;> exact inline_literal (by decide)

theorem allocation : Nested exact w.allocation := by
  have handle : Inline w.handle.text := Handle.inline_text h.native
  have size : Inline (Handle.paramsSize w.native).text := Handle.inline_text h.native
  unfold Wrapper.allocation
  simp only [String.append_assoc]
  refine .line ?_ (.line ?_ (.single ?_)) <;>
    refine lineText_of_led ?_ (led_begun (by decide) _) <;>
    simp [handle, size, buffer] <;> and_intros <;> exact inline_literal (by decide)

theorem nested : Nested exact w.code := by
  have body : Nested exact w.body := by
    unfold Wrapper.body
    split
    · exact h.invocation (by decide)
    · next x exchanged =>
      have inputs := Statement.nested (h.inputs x exchanged)
      have outputs := Statement.nested (h.outputs x exchanged)
      exact .rawMemory (((((h.allocation.append .blank).append inputs).append .blank).append
        (h.invocation (by decide))).append .blank |>.append outputs)
  exact (Nested.blank.append (Field.nested h.fields)).append (.block h.header body)

end Wrapper.Printed

structure EventStub.Printed (exact : Prop) (e : EventStub) : Prop where
  native : Inline e.native
  name : Inline e.name
  flush : exact → Flush e.name
  returnType : Inline e.returnType
  led : Led e.returnType
  parameters : ∀ p ∈ e.parameters, p.Printed
  fields : ∀ f ∈ e.fields, Inline f.handle.stem
  defaults : ∀ x ∈ e.defaults, x.Printed exact
  inputs : ∀ x ∈ e.inputs, x.Printed exact
  outputs : ∀ x ∈ e.outputs, x.Printed exact

namespace EventStub.Printed
variable {e : EventStub} (h : e.Printed exact)
include h

theorem header : LineText exact e.header := by
  have declared := Parameter.inline_declarations h.parameters
  unfold EventStub.header implementation
  simp only [String.append_assoc]
  refine lineText_of_led ?_ (led_begun (by decide) _)
  simp [h.returnType, h.name, declared]
  and_intros <;> exact inline_literal (by decide)

theorem invokerHeader : LineText exact e.invokerHeader := by
  unfold EventStub.invokerHeader buffer returnBuffer
  simp only [String.append_assoc]
  refine lineText_of_led ?_ (led_begun (by decide) _)
  simp [h.native]
  and_intros <;> exact inline_literal (by decide)

theorem call : Nested exact e.call := by
  have passed := Parameter.inline_arguments h.parameters
  refine .single ⟨?_, fun exactly => ?_⟩
  · split <;> simp [implementation, returnValue, h.returnType, h.name, passed] <;>
      and_intros <;> exact inline_literal (by decide)
  · split
    · simp only [String.append_assoc]
      exact (h.led.append _).flush
    · have led : Led e.implementation :=
        (h.flush exactly).led_append ⟨by decide, by decide⟩
      simp only [String.append_assoc]
      exact (led.append _).flush

theorem nested : Nested exact e.code := by
  have mark : Nested exact [.line "[UFunction(FunctionFlags.BlueprintEvent)]"] :=
    .single (lineText_literal (by decide) (by decide))
  have defaults := Nested.block h.header (Statement.nested h.defaults)
  have invoker := Nested.block h.invokerHeader (.rawMemory
    (((Statement.nested h.inputs).append h.call).append (Statement.nested h.outputs)))
  exact ((((Nested.blank.append (Field.nested h.fields)).append mark).append defaults).append
    .blank).append invoker

end EventStub.Printed

structure InterfaceMethod.Printed (m : InterfaceMethod) : Prop where
  name : Inline m.name
  returnType : Inline m.returnType
  led : Led m.returnType
  parameters : ∀ p ∈ m.parameters, p.Printed

theorem InterfaceMethod.Printed.nested {m : InterfaceMethod} (h : m.Printed) :
    Nested exact m.code := by
  have declared := Parameter.inline_declarations h.parameters
  unfold InterfaceMethod.code
  simp only [String.append_assoc]
  refine .single (lineText_of_led ?_ (h.led.append _))
  simp [h.returnType, h.name, declared]
  and_intros <;> exact inline_literal (by decide)

theorem inline_accessText (isProtected : Bool) : Inline (accessText isProtected) := by
  cases isProtected <;> decide

theorem led_accessText (isProtected : Bool) : Led (accessText isProtected) := by
  cases isProtected <;> exact ⟨by decide, by decide⟩

structure WrapperProperty.Printed (p : WrapperProperty) : Prop where
  native : Inline p.native
  name : Inline p.name
  type : Inline p.type
  marshaller : p.marshaller.Printed
  fields : ∀ f ∈ p.fields, Inline f.handle.stem

namespace WrapperProperty.Printed
variable {p : WrapperProperty} (h : p.Printed)
include h

theorem address : Inline p.address := by
  have offset : Inline (Handle.offset p.native).text := Handle.inline_text h.native
  exact inline_append.2
    ⟨inline_append.2 ⟨inline_literal (by decide), offset⟩, inline_literal (by decide)⟩

theorem viewType : Inline p.viewType :=
  inline_append.2 ⟨inline_append.2 ⟨inline_literal (by decide), h.type⟩, inline_literal (by decide)⟩

theorem getter : Nested exact p.getter := by
  have address := h.address
  have view := h.viewType
  have marshaller := h.marshaller.inline
  have length : Inline (Handle.length p.native).text := Handle.inline_text h.native
  refine .block (lineText_literal (by decide) (by decide))
    (.line (lineText_literal (by decide) (by decide)) (.single ?_))
  refine lineText_of_led ?_ ((led_begun (by decide) _).append _)
  split <;> simp [Marshaller.functions, address, view, marshaller, length] <;>
    and_intros <;> exact inline_literal (by decide)

theorem setter : Nested exact p.setter := by
  have address := h.address
  have marshaller := h.marshaller.inline
  refine .block (lineText_literal (by decide) (by decide))
    (.line (lineText_literal (by decide) (by decide)) (.single ⟨?_, fun _ => ?_⟩))
  · simp [address, marshaller]
    and_intros <;> exact inline_literal (by decide)
  · simp only [String.append_assoc]
    exact (h.marshaller.led.append _).flush

theorem nested : Nested exact p.code := by
  have view := h.viewType
  have access := inline_accessText p.isProtected
  have header : LineText exact (accessText p.isProtected ++ " " ++
      (if p.isFixedArray then p.viewType else p.type) ++ " " ++ p.name) := by
    simp only [String.append_assoc]
    refine lineText_of_led ?_ ((led_accessText _).append _)
    split <;> simp [access, view, h.type, h.name] <;> exact inline_literal (by decide)
  refine (Nested.blank.append (Field.nested h.fields)).append
    (.block header (h.getter.append ?_))
  split
  · exact h.setter
  · exact .nil

end WrapperProperty.Printed

structure MirrorField.Printed (f : MirrorField) : Prop where
  name : Inline f.name
  type : Inline f.type

theorem MirrorField.Printed.lineText {f : MirrorField} (h : f.Printed) : LineText exact f.text := by
  have access := inline_accessText f.isProtected
  unfold MirrorField.text
  simp only [String.append_assoc]
  refine lineText_of_led ?_ ((led_accessText _).append _)
  simp [access, h.type, h.name]
  and_intros <;> exact inline_literal (by decide)

end ScriptGlue
