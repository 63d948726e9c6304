import ScriptGlue.Proofs.Code.HandleWords

/-! # Handles of printed lines

A line of a unit declares a handle, or it is a lookup of the static constructor, or the handles that
it names are read by the part that prints it. The types and the names that a part is made of are its
texts; what these say of handles is not up to the generator.
-/
namespace ScriptGlue
open Text Handle

variable {N : String → Prop}

def Code.Each (P : String → Prop) (code : Code) : Prop := ∀ text, .line text ∈ code → P text

namespace Code.Each
variable {P : String → Prop} {a b : Code}

theorem nil : Each P [] := fun _ h => absurd h List.not_mem_nil

theorem single {text : String} (h : P text) : Each P [.line text] := fun t ht => by
  cases List.mem_singleton.1 ht
  exact h

theorem append (ha : Each P a) (hb : Each P b) : Each P (a ++ b) := fun t ht =>
  (List.mem_append.1 ht).elim (ha t) (hb t)

theorem flatMap {α : Type} {f : α → Code} {xs : List α} (h : ∀ x ∈ xs, Each P (f x)) :
    Each P (xs.flatMap f) := fun t ht => by
  obtain ⟨x, hx, ht⟩ := List.mem_flatMap.1 ht
  exact h x hx t ht

theorem imp {Q : String → Prop} (h : Each P a) (more : ∀ text, P text → Q text) : Each Q a :=
  fun t ht => more t (h t ht)

end Code.Each

namespace Code.Each
variable {code : Code}

theorem blank : Each (NamedIn N) Code.blank := single (.plain (by decide : Plain []))

theorem block {P : String → Prop} (words : ∀ text, NamedIn N text → P text) {header : String}
    (head : P header) (body : Each P code) : Each P (Code.block header code) := by
  intro t ht
  simp only [Code.block, blockWith, openBrace, List.cons_append, List.nil_append, List.mem_cons,
    List.mem_append, Layout.line.injEq, reduceCtorEq, false_or, List.not_mem_nil, or_false] at ht
  obtain rfl | rfl | ht | rfl := ht
  · exact head
  · exact words _ (.plain (by decide : Plain ['\x7b']))
  · exact body t ht
  · exact words _ (.plain (by decide : Plain ['\x7d']))

theorem rawMemory (body : Each (NamedIn N) code) : Each (NamedIn N) (Code.rawMemory code) :=
  block (fun _ h => h) (.plain (by decide : Plain "unsafe".toList)) body

end Code.Each

namespace Marshaller

def types : Marshaller → List String
  | .truthValue | .string | .text => []
  | .mirror type => [mirrorName type]
  | .array type _ element | .set type _ element => type :: element.types
  | .map types _ key value => types :: (key.types ++ value.types)
  | .blittable type | .enumeration type | .object type | .subclass type | .softObject type
  | .weakObject type | .interface type | .delegate type | .multicastDelegate type => [type]

theorem namedIn_functions {element : String} (h : NamedIn N element) :
    NamedIn N (functions element) := (h.joined (by decide) h).closed (by decide)

theorem namedIn {m : Marshaller} (types : ∀ t ∈ m.types, NamedIn N t)
    (reads : ∀ h ∈ m.reads, N h.text) : NamedIn N m.expression := by
  induction m with
  | truthValue | string | text => exact .plain (by decide)
  | mirror type => exact types _ List.mem_cons_self
  | array type handle element ih | set type handle element ih =>
    obtain ⟨type, types⟩ := List.forall_mem_cons.1 types
    obtain ⟨handle, reads⟩ := List.forall_mem_cons.1 reads
    have element := ih types fun h hh => reads h (List.mem_append_left _ hh)
    exact (((NamedIn.opened (by decide) type).joined (by decide) (.of_mem handle)).joined
      (by decide) (namedIn_functions element)).closed (by decide)
  | map type handle key value keys values =>
    obtain ⟨type, types⟩ := List.forall_mem_cons.1 types
    obtain ⟨handle, reads⟩ := List.forall_mem_cons.1 reads
    simp only [List.mem_append, or_self] at types reads
    have key := keys (fun t ht => types t (.inl ht)) fun h hh => reads h (.inl hh)
    have value := values (fun t ht => types t (.inr ht)) fun h hh => reads h (.inr hh)
    exact ((((NamedIn.opened (by decide) type).joined (by decide) (.of_mem handle)).joined
      (by decide) (namedIn_functions key)).joined (by decide) (namedIn_functions value)).closed
        (by decide)
  | _ => exact (NamedIn.opened (by decide) (types _ List.mem_cons_self)).closed (by decide)

end Marshaller

namespace Transfer

def texts (t : Transfer) : List String :=
  t.owner :: t.buffer :: (match t.displacement with
    | .handle _ => []
    | .literal text => [text]) ++ t.marshaller.types

variable {t : Transfer} (texts : ∀ x ∈ t.texts, NamedIn N x) (reads : ∀ h ∈ t.reads, N h.text)
include texts reads

theorem namedIn_marshaller : NamedIn N t.marshaller.expression :=
  Marshaller.namedIn (fun x hx => texts x (List.mem_append_right _ hx)) fun h hh =>
    reads h (List.mem_append_left _ (List.mem_append_right _ hh))

theorem namedIn_address : NamedIn N t.address := by
  have place : NamedIn N t.displacement.text := by
    unfold Transfer.texts at texts
    unfold Transfer.reads at reads
    cases place : t.displacement with
    | handle h => exact .of_mem (reads h (by simp [place, Displacement.reads]))
    | literal text => exact texts text (by simp [place])
  exact ((NamedIn.opened (by decide) (texts _ (by simp [Transfer.texts]))).joined (by decide)
    place).closed (by decide)

omit texts in
theorem namedIn_length {length : Handle} (fixed : t.length = some length) :
    NamedIn N length.text := .of_mem (reads length (by simp [Transfer.reads, fixed]))

omit texts in
theorem namedIn_loopHeader {length : Handle} (fixed : t.length = some length) :
    NamedIn N (loopHeader length) :=
  (NamedIn.opened (by decide) (namedIn_length reads fixed)).closed (by decide)

omit texts reads in
theorem namedIn_assigned {assignment : String} (h : NamedIn N assignment) :
    NamedIn N (assigned assignment) := by
  -- only blanks and signs of equality are left out
  have rest : ∃ rest, assignment.toList = (assigned assignment).toList ++ rest ∧ Starts rest := by
    refine ⟨(assignment.toList.reverse.takeWhile fun c => c = ' ' ∨ c = '=').reverse, ?_, ?_⟩
    · rw [assigned, String.toList_ofList, ← List.reverse_append,
        List.takeWhile_append_dropWhile, List.reverse_reverse]
    · intro c hc
      have mem := List.mem_takeWhile_imp (List.mem_reverse.1 (List.mem_of_mem_head? hc))
      have sign : c = ' ' ∨ c = '=' := by simpa using mem
      obtain rfl | rfl := sign <;> decide
  obtain ⟨rest, whole, starts⟩ := rest
  intro k hk
  refine h k ?_
  rw [identifiers, whole, mem_wordsOf_append k.text_ne_nil (.inr starts)]
  exact .inl hk

theorem each_readCode {assignment elementType : String} (target : NamedIn N assignment)
    (element : NamedIn N elementType) :
    (t.readCode assignment elementType).Each (NamedIn N) := by
  have owner : NamedIn N t.owner := texts _ (by simp [Transfer.texts])
  have marshaller := namedIn_marshaller texts reads
  have address := namedIn_address texts reads
  have stripped := namedIn_assigned target
  unfold readCode
  split
  · exact .single ((((target.joined (by decide) marshaller).joined (by decide) address).joined
      (by decide) owner).closed (by decide))
  · next length fixed =>
    have length := namedIn_length reads fixed
    refine .append (a := [_]) (.single ?_) (.block (fun _ h => h)
      (namedIn_loopHeader reads fixed) (.single ?_))
    · exact ((stripped.joined (by decide) element).joined (by decide) length).closed (by decide)
    · exact (((stripped.joined (by decide) marshaller).joined (by decide) address).joined
        (by decide) owner).closed (by decide)

theorem each_writeCode {source : String} (value : NamedIn N source) :
    (t.writeCode source).Each (NamedIn N) := by
  have owner : NamedIn N t.owner := texts _ (by simp [Transfer.texts])
  have marshaller := namedIn_marshaller texts reads
  have address := namedIn_address texts reads
  unfold writeCode
  split
  · exact .single ((((marshaller.joined (by decide) address).joined (by decide) owner).joined
      (by decide) value).closed (by decide))
  · next length fixed =>
    exact .block (fun _ h => h) (namedIn_loopHeader reads fixed)
      (.single ((((marshaller.joined (by decide) address).joined (by decide) owner).joined
        (by decide) value).closed (by decide)))

end Transfer

namespace Statement

def texts : Statement → List String
  | .read t assignment elementType => assignment :: elementType :: t.texts
  | .write t source => source :: t.texts
  | .declare type name => [type, name]
  | .assign name value => [name, value]
  | .giveBack value => [value]

theorem each_code {x : Statement} (texts : ∀ t ∈ x.texts, NamedIn N t)
    (reads : ∀ h ∈ x.reads, N h.text) : x.code.Each (NamedIn N) := by
  cases x with
  | read t assignment elementType =>
    obtain ⟨target, element, texts⟩ := by simpa [Statement.texts] using texts
    exact Transfer.each_readCode texts reads target element
  | write t source =>
    obtain ⟨value, texts⟩ := List.forall_mem_cons.1 texts
    exact Transfer.each_writeCode texts reads value
  | declare type name | assign type name =>
    obtain ⟨first, second⟩ := by simpa [Statement.texts] using texts
    exact .single ((first.joined (by decide) second).closed (by decide))
  | giveBack value =>
    exact .single ((NamedIn.opened (by decide) (texts _ List.mem_cons_self)).closed (by decide))

theorem each_codes {xs : List Statement} (texts : ∀ t ∈ xs.flatMap Statement.texts, NamedIn N t)
    (reads : ∀ h ∈ xs.flatMap Statement.reads, N h.text) :
    Code.Each (NamedIn N) (xs.flatMap Statement.code) :=
  .flatMap fun x hx => each_code (fun t ht => texts t (List.mem_flatMap.2 ⟨x, hx, ht⟩))
    fun h hh => reads h (List.mem_flatMap.2 ⟨x, hx, hh⟩)

end Statement

namespace Parameter

def texts (p : Parameter) : List String := [p.type, p.name]

theorem namedIn_passing (p : Passing) {text : String} (h : NamedIn N text) :
    NamedIn N (p.text ++ text) := by
  cases p with
  | value =>
    rw [Passing.text, String.empty_append]
    exact h
  | out | byReference => exact .opened (by decide) h

theorem namedIn_declarations {ps : List Parameter}
    (texts : ∀ t ∈ ps.flatMap Parameter.texts, NamedIn N t) : NamedIn N (declarations ps) := by
  refine .intercalate (by decide) (List.forall_mem_map.2 fun p hp => ?_)
  have type := texts p.type (List.mem_flatMap.2 ⟨p, hp, by simp [Parameter.texts]⟩)
  have name := texts p.name (List.mem_flatMap.2 ⟨p, hp, by simp [Parameter.texts]⟩)
  exact (namedIn_passing p.passing type).joined (by decide) name

theorem namedIn_arguments {ps : List Parameter}
    (texts : ∀ t ∈ ps.flatMap Parameter.texts, NamedIn N t) : NamedIn N (arguments ps) := by
  refine .intercalate (by decide) (List.forall_mem_map.2 fun p hp => ?_)
  exact namedIn_passing p.passing
    (texts p.name (List.mem_flatMap.2 ⟨p, hp, by simp [Parameter.texts]⟩))

end Parameter

def Showing (N : String → Prop) (fields : List Field) (lookups : List Lookup) (text : String) :
    Prop :=
  (∃ f ∈ fields, text = f.text) ∨ (∃ l ∈ lookups, text = l.text) ∨ NamedIn N text

section
variable {fields more : List Field} {lookups others : List Lookup} {code : Code}

theorem each_fields (sub : fields ⊆ more) :
    Code.Each (Showing N more lookups) (fields.map fun f => .line f.text) := fun t ht => by
  obtain ⟨f, hf, same⟩ := List.mem_map.1 ht
  cases same
  exact .inl ⟨f, sub hf, rfl⟩

theorem Code.Each.showing (h : code.Each (NamedIn N)) : code.Each (Showing N fields lookups) :=
  h.imp fun _ words => .inr (.inr words)

theorem Code.Each.wider (h : code.Each (Showing N fields lookups)) (sub : fields ⊆ more)
    (within : lookups ⊆ others) : code.Each (Showing N more others) :=
  h.imp fun _ shown => shown.imp (fun ⟨f, hf, same⟩ => ⟨f, sub hf, same⟩)
    (Or.imp_left fun ⟨l, hl, same⟩ => ⟨l, within hl, same⟩)

theorem Code.Each.member {header : String} (head : NamedIn N header)
    (body : code.Each (Showing N fields lookups)) :
    (Code.block header code).Each (Showing N fields lookups) :=
  .block (fun _ words => .inr (.inr words)) (.inr (.inr head)) body

end

namespace Wrapper

def statements (w : Wrapper) : List Statement :=
  (w.exchange.map fun x => x.inputs ++ x.outputs).getD []

def texts (w : Wrapper) : List String :=
  w.returnType :: w.name :: w.parameters.flatMap Parameter.texts ++
    w.statements.flatMap Statement.texts

variable {w : Wrapper} (texts : ∀ t ∈ w.texts, NamedIn N t) (reads : ∀ h ∈ w.reads, N h.text)
include reads

theorem namedIn_handle : NamedIn N w.handle.text := .of_mem (reads _ (by simp [Wrapper.reads]))

theorem each_invocation {argument : String} (h : NamedIn N argument) :
    (w.invocation argument).Each (NamedIn N) := by
  have handle := namedIn_handle reads
  have target : NamedIn N (if w.isStatic then "InvokeNativeStaticFunction(" ++ nativeType.text
      else "InvokeNativeFunction(NativeObject") := by
    split
    · next static => exact .opened (by decide) (.of_mem (reads _ (by simp [Wrapper.reads, static])))
    · exact .plain (by decide)
  exact .single (((target.joined (by decide) handle).joined (by decide) h).closed (by decide))

theorem each_allocation {x : Exchange} (known : w.exchange = some x) :
    w.allocation.Each (NamedIn N) := by
  have handle := namedIn_handle reads
  have size : NamedIn N (paramsSize w.native).text :=
    .of_mem (reads _ (by simp [Wrapper.reads, known]))
  have buffer : NamedIn N buffer := .plain (by decide)
  refine .append (a := [_]) (.single ?_) (.append (a := [_]) (.single ?_) (.single ?_))
  · exact (NamedIn.opened (by decide) size).closed (by decide)
  · exact (NamedIn.opened (by decide) buffer).closed (by decide)
  · exact ((NamedIn.opened (by decide) handle).joined (by decide) buffer).closed (by decide)

include texts

theorem each_body : w.body.Each (NamedIn N) := by
  have statements : ∀ t ∈ w.statements.flatMap Statement.texts, NamedIn N t := fun t ht =>
    texts t (List.mem_append_right _ ht)
  unfold Wrapper.body
  unfold Wrapper.statements at statements
  split
  · exact each_invocation reads (.plain (by decide))
  · next x known =>
    simp only [known, Option.map_some, Option.getD_some, List.flatMap_append,
      List.forall_mem_append] at statements
    have read : ∀ h ∈ x.inputs.flatMap Statement.reads ++ x.outputs.flatMap Statement.reads,
        N h.text := fun h hh => reads h (by
      simp only [Wrapper.reads, known]
      exact List.mem_append_right _ (List.mem_cons_of_mem _ hh))
    obtain ⟨before, after⟩ := List.forall_mem_append.1 read
    exact .rawMemory ((((((each_allocation reads known).append .blank).append
      (Statement.each_codes statements.1 before)).append .blank).append
      (each_invocation reads (.plain (by decide)))).append .blank |>.append
      (Statement.each_codes statements.2 after))

theorem each_code : w.code.Each (Showing N w.fields []) := by
  have header : NamedIn N w.header := by
    have access : NamedIn N (if w.isStatic then "public static" else "public") := by
      split <;> exact .plain (by decide)
    have type := texts w.returnType (by simp [Wrapper.texts])
    have name := texts w.name (by simp [Wrapper.texts])
    have declared := Parameter.namedIn_declarations fun t ht => texts t
      (List.mem_append_left _ (List.mem_cons_of_mem _ (List.mem_cons_of_mem _ ht)))
    exact (((access.joined (by decide) type).joined (by decide) name).joined (by decide)
      declared).closed (by decide)
  exact .append (.append (.showing .blank) (each_fields fun _ hf => hf))
    (.member header (each_body texts reads).showing)

end Wrapper

namespace EventStub

def texts (e : EventStub) : List String :=
  ("Invoke_" ++ e.native) :: e.implementation :: e.returnType :: e.parameters.flatMap Parameter.texts ++
    (e.defaults ++ e.inputs ++ e.outputs).flatMap Statement.texts

variable {e : EventStub} (texts : ∀ t ∈ e.texts, NamedIn N t) (reads : ∀ h ∈ e.reads, N h.text)
include texts

theorem namedIn_header : NamedIn N e.header := by
  have type := texts e.returnType (by simp [EventStub.texts])
  have name := texts e.implementation (by simp [EventStub.texts])
  have declared : NamedIn N (Parameter.declarations e.parameters) :=
    Parameter.namedIn_declarations fun t ht =>
      texts t (by simp only [EventStub.texts, List.mem_append, List.mem_cons, ht]; simp)
  exact ((((NamedIn.opened (by decide) type).joined (by decide) name).joined (by decide)
    declared).closed (by decide))

theorem each_call : e.call.Each (NamedIn N) := by
  have type := texts e.returnType (by simp [EventStub.texts])
  have name := texts e.implementation (by simp [EventStub.texts])
  have passed : NamedIn N (Parameter.arguments e.parameters) :=
    Parameter.namedIn_arguments fun t ht =>
      texts t (by simp only [EventStub.texts, List.mem_append, List.mem_cons, ht]; simp)
  have called := (name.joined (by decide : Separates ['(']) passed).closed
    (by decide : Plain [')', ';'] ∧ Starts [')', ';'])
  have result : NamedIn N returnValue := .plain (by decide)
  refine .single ?_
  split
  · exact (type.joined (by decide) result).joined (by decide) called
  · exact called

include reads

theorem each_code : e.code.Each (Showing N e.fields []) := by
  have statements : ∀ t ∈ (e.defaults ++ e.inputs ++ e.outputs).flatMap Statement.texts,
      NamedIn N t := fun t ht => texts t (List.mem_append_right _ ht)
  rw [List.flatMap_append, List.flatMap_append, List.forall_mem_append, List.forall_mem_append]
    at statements
  obtain ⟨⟨defaults, inputs⟩, outputs⟩ := statements
  obtain ⟨kept, calls⟩ := List.forall_mem_append.1 reads
  obtain ⟨before, after⟩ := List.forall_mem_append.1 calls
  have invoker : NamedIn N e.invokerHeader := by
    have words : e.invokerHeader = "void " ++ ("Invoke_" ++ e.native) ++
        "(IntPtr buffer, IntPtr returnBuffer)" := by
      unfold EventStub.invokerHeader buffer returnBuffer
      simp [← String.toList_inj]
    rw [words]
    exact (NamedIn.opened (by decide) (texts _ List.mem_cons_self)).closed (by decide)
  have mark : Code.Each (NamedIn N) [.line "[UFunction(FunctionFlags.BlueprintEvent)]"] :=
    .single (.plain (by decide))
  refine .append (.append (.append (.append (.append (.showing .blank) (each_fields fun _ hf => hf))
    mark.showing) (.member (namedIn_header texts) (Statement.each_codes defaults kept).showing))
    (.showing .blank)) (.member invoker (.showing (.rawMemory ?_)))
  exact ((Statement.each_codes inputs before).append (each_call texts)).append
    (Statement.each_codes outputs after)

end EventStub

namespace WrapperProperty

def texts (p : WrapperProperty) : List String := p.name :: p.type :: p.marshaller.types

theorem each_code {p : WrapperProperty} (texts : ∀ t ∈ p.texts, NamedIn N t)
    (reads : ∀ h ∈ p.reads, N h.text) : p.code.Each (Showing N p.fields []) := by
  have name := texts p.name (by simp [WrapperProperty.texts])
  have type := texts p.type (by simp [WrapperProperty.texts])
  have marshaller : NamedIn N p.marshaller.expression := Marshaller.namedIn
    (fun t ht => texts t (List.mem_cons_of_mem _ (List.mem_cons_of_mem _ ht)))
    fun h hh => reads h (by simp [WrapperProperty.reads, hh])
  have address : NamedIn N p.address :=
    (NamedIn.opened (by decide) (.of_mem (reads _ (by simp [WrapperProperty.reads])))).closed
      (by decide)
  have view : NamedIn N p.viewType := (NamedIn.opened (by decide) type).closed (by decide)
  have check : NamedIn N "CheckObjectForValidity();" := .plain (by decide)
  have getter : p.getter.Each (NamedIn N) := by
    refine .block (fun _ h => h) (.plain (by decide)) (.append (a := [_]) (.single check)
      (.single ((NamedIn.opened (by decide) ?_).closed (by decide))))
    split
    · next fixed =>
      have length := NamedIn.of_mem (reads (.length p.native)
        (by simp [WrapperProperty.reads, fixed]))
      exact ((((NamedIn.opened (by decide) view).joined (by decide) address).joined (by decide)
        length).joined (by decide) (Marshaller.namedIn_functions marshaller)).closed (by decide)
    · exact (marshaller.joined (by decide) address).closed (by decide)
  have setter : p.setter.Each (NamedIn N) :=
    .block (fun _ h => h) (.plain (by decide)) (.append (a := [_]) (.single check)
      (.single ((marshaller.joined (by decide) address).closed (by decide))))
  have access : NamedIn N (accessText p.isProtected) := by
    unfold accessText
    split <;> exact .plain (by decide)
  refine .append (.append (.showing .blank) (each_fields fun _ hf => hf))
    (.member ?_ (.showing (getter.append ?_)))
  · refine (access.joined (by decide) ?_).joined (by decide) name
    split
    · exact view
    · exact type
  · split
    · exact setter
    · exact .nil

end WrapperProperty

end ScriptGlue
