import ScriptGlue.Proofs.Session.ForwarderCalls
import ScriptGlue.Proofs.Session.Gate

/-! # Transfers around calls

A function may be called in both directions: its wrapper calls native code, and as an event it is
called by native code. Both sides carry the same arguments to the callee and the same ones back,
each at the offset of its own parameter, and how a parameter is declared says which ways it goes.
-/
namespace ScriptGlue
open ScriptGlue.Action

namespace Wrapper

def inputs (w : Wrapper) : List Statement := (w.exchange.map Exchange.inputs).getD []

def outputs (w : Wrapper) : List Statement := (w.exchange.map Exchange.outputs).getD []

end Wrapper

def Statement.isRead : Statement → Bool
  | .read .. => true
  | _ => false

namespace Session

variable {s t u v : Session} {f : Function} {p : Property} {owner owner' : Name}

/-- A single value of the property is moved between the script and a place in a buffer, for an
owner and through the marshaller of the property. -/
structure Moves (p : Property) (slot object buffer : String) (place : Displacement)
    (x : Transfer) : Prop where
  owner : x.owner = object
  buffer : x.buffer = buffer
  place : x.displacement = place
  single : x.length = none
  marshaller : ∃ s t, marshaller p slot s = (.ok x.marshaller, t)

theorem Moves.written {slot object buffer : String} {place : Displacement} {x : Transfer}
    (h : Moves p slot object buffer place x) (source : String) :
    (Statement.write x source).code = [.line (x.marshaller.expression ++ ".ToNative(" ++
      ("IntPtr.Add(" ++ buffer ++ ", " ++ place.text ++ ")") ++ ", 0, " ++ object ++ ", " ++
        source ++ ");")] := by
  unfold Statement.code Transfer.writeCode Transfer.address
  simp only [h.single, h.buffer, h.place, h.owner]

theorem Moves.read {slot object buffer : String} {place : Displacement} {x : Transfer}
    (h : Moves p slot object buffer place x) (assignment elementType : String) :
    (Statement.read x assignment elementType).code = [.line (assignment ++ " " ++
      x.marshaller.expression ++ ".FromNative(" ++
        ("IntPtr.Add(" ++ buffer ++ ", " ++ place.text ++ ")") ++ ", 0, " ++ object ++ ");")] := by
  unfold Statement.code Transfer.readCode Transfer.address
  simp only [h.single, h.buffer, h.place, h.owner]

/-- The statement writes the argument to the parameter buffer, at the offset of its parameter. -/
def WritesArgument (f : Function) (object buffer : String) (p : Property) (x : Statement) : Prop :=
  ∃ m, x = .write m (parameterText p) ∧
    Moves p (slotOf f.label p) object buffer
      (.handle (.offset (parameterSlot f.label p.label))) m ∧
    x.code = [.line (m.marshaller.expression ++ ".ToNative(IntPtr.Add(" ++ buffer ++ ", " ++
      f.label ++ "_" ++ p.label ++ "_Offset), 0, " ++ object ++ ", " ++ parameterText p ++ ");")]

/-- The statement reads the argument from the parameter buffer, at the offset of its parameter. -/
def ReadsArgument (f : Function) (object buffer target : String) (p : Property) (x : Statement) :
    Prop :=
  ∃ m, x = .read m target "" ∧
    Moves p (slotOf f.label p) object buffer
      (.handle (.offset (parameterSlot f.label p.label))) m ∧
    x.code = [.line (target ++ " " ++ m.marshaller.expression ++ ".FromNative(IntPtr.Add(" ++
      buffer ++ ", " ++ f.label ++ "_" ++ p.label ++ "_Offset), 0, " ++ object ++ ");")]

def WritesResult (f : Function) (p : Property) (x : Statement) : Prop :=
  ∃ m, x = .write m "returnValue" ∧
    Moves p (slotOf f.label p) "null" "returnBuffer" (.literal "0") m ∧
    x.code = [.line (m.marshaller.expression ++
      ".ToNative(IntPtr.Add(returnBuffer, 0), 0, null, returnValue);")]

theorem moves_of_transfer {slot object buffer : String} {place : Displacement} {x : Transfer}
    (single : p.arrayDim = 1) (h : transfer p slot object buffer place s = (.ok x, t)) :
    Moves p slot object buffer place x := by
  obtain ⟨m, u, marshals, h⟩ := bind_eq_ok.1 h
  obtain ⟨rfl, -⟩ := pure_eq_ok.1 h
  exact ⟨rfl, rfl, rfl, by simp [Property.isFixedArray, single], s, u, marshals⟩

theorem writeFrom_ok {slot object buffer source : String} {place : Displacement} {x : Statement}
    (single : p.arrayDim = 1)
    (h : writeFrom p slot object buffer place source s = (.ok x, t)) :
    ∃ m, x = .write m source ∧ Moves p slot object buffer place m := by
  obtain ⟨m, u, moved, h⟩ := bind_eq_ok.1 h
  obtain ⟨rfl, -⟩ := pure_eq_ok.1 h
  exact ⟨m, rfl, moves_of_transfer single moved⟩

theorem readInto_ok {slot object buffer assignment : String} {place : Displacement}
    {x : Statement} (single : p.arrayDim = 1)
    (h : readInto p slot object buffer place assignment s = (.ok x, t)) :
    ∃ m, x = .read m assignment "" ∧ Moves p slot object buffer place m := by
  obtain ⟨m, u, moved, h⟩ := bind_eq_ok.1 h
  rw [if_neg (by simp [Property.isFixedArray, single])] at h
  obtain ⟨type, v, plain, h⟩ := bind_eq_ok.1 h
  obtain ⟨rfl, -⟩ := pure_eq_ok.1 plain
  obtain ⟨rfl, -⟩ := pure_eq_ok.1 h
  exact ⟨m, rfl, moves_of_transfer single moved⟩

section
variable {object buffer : String} {x : Statement} (single : p.arrayDim = 1)
include single

theorem writesArgument_of_writeFrom
    (h : writeFrom p (slotOf f.label p) object buffer (parameterOffset f p) (parameterText p) s =
      (.ok x, t)) : WritesArgument f object buffer p x := by
  obtain ⟨m, rfl, moves⟩ := writeFrom_ok single h
  refine ⟨m, rfl, moves, (moves.written _).trans ?_⟩
  simp [← String.toList_inj, parameterOffset, Displacement.text, Handle.text, slotOf,
    parameterSlot]

theorem readsArgument_of_readInto {target : String}
    (h : readInto p (slotOf f.label p) object buffer (parameterOffset f p) target s =
      (.ok x, t)) : ReadsArgument f object buffer target p x := by
  obtain ⟨m, rfl, moves⟩ := readInto_ok single h
  refine ⟨m, rfl, moves, (moves.read _ _).trans ?_⟩
  simp [← String.toList_inj, parameterOffset, Displacement.text, Handle.text, slotOf,
    parameterSlot]

theorem writesResult_of_writeFrom
    (h : writeFrom p (slotOf f.label p) "null" EventStub.returnBuffer (.literal "0")
      EventStub.returnValue s = (.ok x, t)) : WritesResult f p x := by
  obtain ⟨m, rfl, moves⟩ := writeFrom_ok single h
  refine ⟨m, rfl, moves, (moves.written _).trans ?_⟩
  simp [← String.toList_inj, Displacement.text, EventStub.returnBuffer, EventStub.returnValue]

end

theorem isPureOut_iff (p : Property) : p.isPureOut ↔ passing p = .out := by
  unfold Property.isPureOut passing
  cases p.has .out <;> cases p.has .byReference <;> simp

theorem argument_of_sign {ps : List Property} {qs : List Parameter}
    (signs : qs.map Parameter.sign = ps.map signOf) {q : Parameter} (hq : q ∈ qs) :
    ∃ p ∈ ps, q.passing = passing p ∧ q.name = parameterText p := by
  have sign : q.sign ∈ ps.map signOf := signs ▸ List.mem_map_of_mem hq
  obtain ⟨p, hp, same⟩ := List.mem_map.1 sign
  exact ⟨p, hp, congrArg Prod.fst same.symm, congrArg Prod.snd same.symm⟩

def nativeCall (f : Function) (argument : String) : String :=
  (if f.has .static then "InvokeNativeStaticFunction(NativeClassPtr, "
    else "InvokeNativeFunction(NativeObject, ") ++ f.label ++ "_NativeFunction, " ++ argument ++
    ");"

def bufferLines (f : Function) : Code :=
  [Layout.line ("byte* ParamsBufferAllocation = stackalloc byte[" ++ f.label ++ "_ParamsSize];"),
    .line "IntPtr ParamsBuffer = (IntPtr) ParamsBufferAllocation;",
    .line ("UFunctionExporter.CallInitializeFunctionParams(" ++ f.label ++
      "_NativeFunction, ParamsBuffer);")]

def ownerOf (f : Function) : String := if f.has .static then "null" else "this"

def PrintsWrapper (f : Function) (w : Wrapper) : Prop :=
  ∃ before shown, List.Forall₂ Declares f.arguments shown ∧
    w.code = before ++ Code.braced ((if f.has .static then "public static " else "public ") ++
      w.returnType ++ " " ++ w.name ++ "(" ++ String.intercalate ", " shown ++ ")") w.body

/-- What a wrapper carries: it writes the inputs to its parameter buffer, makes the native call, and
reads the outputs back and then the result. -/
structure CallsWith (f : Function) (w : Wrapper) : Prop where
  declared : w.parameters.map Parameter.sign = f.arguments.map signOf
  inputs : List.Forall₂ (WritesArgument f (ownerOf f) "ParamsBuffer")
    (f.arguments.filter fun p => !(p.has .out && !p.has .byReference)) w.inputs
  outputs : ∃ back result, w.outputs = back ++ result ∧
    List.Forall₂ (fun p => ReadsArgument f (ownerOf f) "ParamsBuffer" (parameterText p ++ " =") p)
      (f.arguments.filter fun p => p.has .out) back ∧
    List.Forall₂ (ReadsArgument f (ownerOf f) "ParamsBuffer" "return") f.returned?.toList result
  body : w.body = if f.params.isEmpty then [.line (nativeCall f "IntPtr.Zero")] else
    Code.braced "unsafe" (bufferLines f ++ [Layout.line ""] ++ w.inputs.flatMap Statement.code ++
      [Layout.line "", Layout.line (nativeCall f "ParamsBuffer"), Layout.line ""] ++
      w.outputs.flatMap Statement.code)
  code : PrintsWrapper f w

/-- What the invoker of an event takes before its call: an argument that only the callee sets is
declared, every other one is read. -/
def TakesArgument (f : Function) (p : Property) (x : Statement) : Prop :=
  if passing p = .out then ∃ type, x = .declare type (parameterText p) ∧
    x.code = [Layout.line (type ++ " " ++ parameterText p ++ ";")]
  else ∃ type, ReadsArgument f "null" "buffer" (type ++ " " ++ parameterText p ++ " =") p x

def SetsDefault (p : Property) (x : Statement) : Prop :=
  x = .assign (parameterText p) p.kind.defaultValue ∧
    x.code = [Layout.line (parameterText p ++ " = " ++ p.kind.defaultValue ++ ";")]

def ReturnsDefault (p : Property) (x : Statement) : Prop :=
  x = .giveBack p.kind.defaultValue ∧
    x.code = [Layout.line ("return " ++ p.kind.defaultValue ++ ";")]

def implementationCall (f : Function) (e : EventStub) : String :=
  (if f.returned?.isSome then e.returnType ++ " returnValue = " else "") ++ e.name ++
    "_Implementation(" ++
      String.intercalate ", " (f.arguments.map fun p => (passing p).text ++ parameterText p) ++ ");"

/-- The event prints an implementation with its defaults, and an invoker that calls it. -/
def PrintsStub (f : Function) (e : EventStub) : Prop :=
  ∃ before shown, List.Forall₂ Declares f.arguments shown ∧
    e.code = before ++
      Code.braced ("protected virtual " ++ e.returnType ++ " " ++ e.name ++ "_Implementation(" ++
        String.intercalate ", " shown ++ ")") (e.defaults.flatMap Statement.code) ++
      [Layout.line ""] ++
      Code.braced ("void Invoke_" ++ f.label ++ "(IntPtr buffer, IntPtr returnBuffer)")
        (Code.braced "unsafe" (e.inputs.flatMap Statement.code ++
          [Layout.line (implementationCall f e)] ++ e.outputs.flatMap Statement.code))

/-- What an event carries: its invoker reads the inputs from the parameter buffer, calls the
implementation, and writes the outputs back and then the result. The implementation sets what only
it sets. -/
structure HandlesWith (f : Function) (e : EventStub) : Prop where
  declared : e.parameters.map Parameter.sign = f.arguments.map signOf
  takes : List.Forall₂ (TakesArgument f) f.arguments e.inputs
  inputs : List.Forall₂ (fun p x => ∃ type,
      ReadsArgument f "null" "buffer" (type ++ " " ++ parameterText p ++ " =") p x)
    (f.arguments.filter fun p => !(p.has .out && !p.has .byReference))
    (e.inputs.filter Statement.isRead)
  outputs : ∃ back result, e.outputs = back ++ result ∧
    List.Forall₂ (WritesArgument f "null" "buffer") (f.arguments.filter fun p => p.has .out) back ∧
    List.Forall₂ (WritesResult f) f.returned?.toList result
  defaults : ∃ assigned result, e.defaults = assigned ++ result ∧
    List.Forall₂ SetsDefault (f.arguments.filter fun p => p.has .out && !p.has .byReference)
      assigned ∧
    List.Forall₂ ReturnsDefault f.returned?.toList result
  code : PrintsStub f e
  sets : ∀ q ∈ e.parameters, q.passing = .out →
    ∃ value, .line (q.name ++ " = " ++ value ++ ";") ∈ e.defaults.flatMap Statement.code

section
variable {w : Wrapper}

theorem invocation_printed (native : w.native = f.label) (isStatic : w.isStatic = f.has .static)
    (argument : String) : w.invocation argument = [Layout.line (nativeCall f argument)] := by
  unfold Wrapper.invocation nativeCall Wrapper.handle
  simp only [native, isStatic]
  split <;> simp [← String.toList_inj, Handle.text]

theorem allocation_printed (native : w.native = f.label) : w.allocation = bufferLines f := by
  unfold Wrapper.allocation bufferLines Wrapper.handle
  simp only [native]
  simp [← String.toList_inj, Handle.text, Wrapper.buffer]

end

theorem wrapper_printed {w : Wrapper} (isStatic : w.isStatic = f.has .static)
    (shown : List.Forall₂ MakesParameter f.arguments w.parameters) :
    PrintsWrapper f w := by
  obtain ⟨before, code⟩ := w.code_printed
  refine ⟨before, _, declarations_of_made shown, ?_⟩
  rw [code, isStatic]
  rfl

theorem single_of_passes {overridable : Bool}
    (passes : canExportParameters overridable f.params u = (.ok true, v)) :
    ∀ p ∈ f.params, p.arrayDim = 1 := by
  intro p hp
  have all := (canExportParameters_ok passes).1
  have passes := List.all_eq_true.1 all.symm p hp
  simp only [canPassAs, Bool.and_eq_true, decide_eq_true_eq] at passes
  exact passes.1.1

theorem mem_params_of_arguments {p : Property} (hp : p ∈ f.arguments) : p ∈ f.params :=
  List.mem_of_mem_filter hp

theorem mem_params_of_returned {p : Property} (hp : p ∈ f.returned?.toList) : p ∈ f.params :=
  List.mem_of_find?_eq_some (Option.mem_toList.1 hp)

section
variable (single : ∀ p ∈ f.params, p.arrayDim = 1)
include single

theorem made_of_mapM {make : Property → Generation Statement} {ps : List Property}
    {xs : List Statement} {Made : Property → Statement → Prop} (inside : ∀ p ∈ ps, p ∈ f.params)
    (made : ∀ p x s t, p.arrayDim = 1 → make p s = (.ok x, t) → Made p x)
    (h : ps.mapM make s = (.ok xs, t)) : List.Forall₂ Made ps xs := by
  have each := (List.forall₂_and_left ps xs).2
    ⟨fun p hp => single p (inside p hp), mapM_eq_ok h⟩
  exact each.imp fun p x ⟨single, _, _, hx⟩ => made p x _ _ single hx

theorem callsWith_of_exchange {w : Wrapper} {x : Exchange} (known : w.exchange = some x)
    (native : w.native = f.label) (isStatic : w.isStatic = f.has .static)
    (shown : List.Forall₂ MakesParameter f.arguments w.parameters)
    (some : f.params.isEmpty = false) (h : wrapperExchange f s = (.ok x, t)) : CallsWith f w := by
  obtain ⟨inputs, _, written, h⟩ := bind_eq_ok.1 h
  obtain ⟨back, _, read, h⟩ := bind_eq_ok.1 h
  obtain ⟨result, _, returned, h⟩ := bind_eq_ok.1 h
  obtain ⟨rfl, -⟩ := pure_eq_ok.1 h
  refine {
    declared := signs_of_made shown
    inputs := ?_
    outputs := ⟨back, result, by rw [Wrapper.outputs, known]; rfl, ?_, ?_⟩
    body := ?_
    code := wrapper_printed isStatic shown }
  · rw [Wrapper.inputs, known]
    exact made_of_mapM single (fun p hp => mem_params_of_arguments (List.mem_of_mem_filter hp))
      (fun _ _ _ _ => writesArgument_of_writeFrom) written
  · exact made_of_mapM single (fun p hp => mem_params_of_arguments (List.mem_of_mem_filter hp))
      (fun _ _ _ _ single => readsArgument_of_readInto single) read
  · exact made_of_mapM single (fun p hp => mem_params_of_returned hp)
      (fun _ _ _ _ single => readsArgument_of_readInto single) returned
  · rw [if_neg (by simp [some]), Wrapper.body, Wrapper.inputs, Wrapper.outputs, known]
    dsimp only
    rw [invocation_printed native isStatic Wrapper.buffer, allocation_printed native]
    refine congrArg (Code.braced "unsafe") ?_
    simp [Code.blank, Wrapper.buffer]

theorem callsWith_of_wrapper {w : Wrapper} (h : wrapper f owner s = (.ok w, t)) :
    CallsWith f w := by
  obtain ⟨name, _, -, h⟩ := bind_eq_ok.1 h
  obtain ⟨returns, _, -, h⟩ := bind_eq_ok.1 h
  obtain ⟨parameters, _, shown, h⟩ := bind_eq_ok.1 h
  have shown := made_parameters shown
  split at h
  · next empty =>
    obtain ⟨idle, _, nothing, h⟩ := bind_eq_ok.1 h
    obtain ⟨rfl, -⟩ := pure_eq_ok.1 nothing
    obtain ⟨rfl, -⟩ := pure_eq_ok.1 h
    -- no parameter, so no exchange, and no result either: a result is a parameter
    have params : f.params = [] := List.isEmpty_iff.1 empty
    have arguments : f.arguments = [] := by rw [Function.arguments, params, List.filter_nil]
    exact {
      declared := signs_of_made shown
      inputs := by rw [arguments]; exact .nil
      outputs := ⟨[], [], rfl, by rw [arguments]; exact .nil,
        by rw [Function.returned?, params]; exact .nil⟩
      body := by rw [if_pos empty]; exact invocation_printed rfl rfl _
      code := wrapper_printed rfl shown }
  · next some =>
    obtain ⟨exchange, _, made, h⟩ := bind_eq_ok.1 h
    obtain ⟨x, _, carried, made⟩ := bind_eq_ok.1 made
    obtain ⟨rfl, -⟩ := pure_eq_ok.1 made
    obtain ⟨rfl, -⟩ := pure_eq_ok.1 h
    exact callsWith_of_exchange single rfl rfl rfl shown (by simpa using some) carried

omit single in
theorem takesArgument_of_eventInput {x : Statement} (one : p.arrayDim = 1)
    (h : eventInput f p s = (.ok x, t)) : TakesArgument f p x := by
  obtain ⟨type, _, -, h⟩ := bind_eq_ok.1 h
  unfold TakesArgument
  split at h
  · next only =>
    obtain ⟨rfl, -⟩ := pure_eq_ok.1 h
    rw [if_pos ((isPureOut_iff p).1 only)]
    exact ⟨type, rfl, rfl⟩
  · next taken =>
    rw [if_neg fun out => taken ((isPureOut_iff p).2 out)]
    exact ⟨type, readsArgument_of_readInto one h⟩

omit single in
/-- The declarations left out, the reads are of what the implementation is given. -/
theorem reads_of_takes {ps : List Property} {xs : List Statement}
    (h : List.Forall₂ (TakesArgument f) ps xs) :
    List.Forall₂ (fun p x => ∃ type,
        ReadsArgument f "null" "buffer" (type ++ " " ++ parameterText p ++ " =") p x)
      (ps.filter fun p => !p.isPureOut) (xs.filter Statement.isRead) := by
  induction h with
  | nil => exact .nil
  | @cons p x ps xs taken _ ih =>
    unfold TakesArgument at taken
    split at taken
    · next out =>
      obtain ⟨type, rfl, -⟩ := taken
      rw [List.filter_cons_of_neg (by simp [(isPureOut_iff p).2 out]),
        List.filter_cons_of_neg (by simp [Statement.isRead])]
      exact ih
    · next given =>
      obtain ⟨type, m, rfl, reads⟩ := taken
      have given : p.isPureOut = false := by
        rwa [← isPureOut_iff, Bool.not_eq_true] at given
      rw [List.filter_cons_of_pos (by simp [given]), List.filter_cons_of_pos rfl]
      exact .cons ⟨type, m, rfl, reads⟩ ih

omit single in
theorem defaults_printed (f : Function) : ∃ assigned result,
    defaultStatements f = assigned ++ result ∧
      List.Forall₂ SetsDefault (f.arguments.filter fun p => p.has .out && !p.has .byReference)
        assigned ∧
      List.Forall₂ ReturnsDefault f.returned?.toList result :=
  ⟨_, _, rfl, List.forall₂_map_right_iff.2 (List.forall₂_same.2 fun _ _ => ⟨rfl, rfl⟩),
    List.forall₂_map_right_iff.2 (List.forall₂_same.2 fun _ _ => ⟨rfl, rfl⟩)⟩

omit single in
theorem assigned_by_default {qs : List Parameter}
    (declared : qs.map Parameter.sign = f.arguments.map signOf) {q : Parameter} (hq : q ∈ qs)
    (out : q.passing = .out) : ∃ value, .line (q.name ++ " = " ++ value ++ ";") ∈
      (defaultStatements f).flatMap Statement.code := by
  obtain ⟨p, hp, same, name⟩ := argument_of_sign declared hq
  have only : p.isPureOut := (isPureOut_iff p).2 (same ▸ out)
  refine ⟨p.kind.defaultValue, List.mem_flatMap.2
    ⟨.assign (parameterText p) p.kind.defaultValue, List.mem_append_left _ ?_, ?_⟩⟩
  · exact List.mem_map_of_mem (List.mem_filter.2 ⟨hp, only⟩)
  · rw [name]
    exact List.mem_singleton_self _

omit single in
theorem call_of_signs {e : EventStub} (returns : e.returnsValue = f.returned?.isSome)
    (declared : e.parameters.map Parameter.sign = f.arguments.map signOf) :
    e.call = [Layout.line (implementationCall f e)] := by
  have arguments : (e.parameters.map fun q => q.passing.text ++ q.name) =
      f.arguments.map fun p => (passing p).text ++ parameterText p :=
    (arguments_of_signs declared).symm
  rw [e.call_printed, returns, arguments]
  rfl

omit single in
theorem eventStub_printed {e : EventStub} (native : e.native = f.label)
    (returns : e.returnsValue = f.returned?.isSome)
    (shown : List.Forall₂ MakesParameter f.arguments e.parameters) :
    PrintsStub f e := by
  obtain ⟨before, code⟩ := e.code_printed
  refine ⟨before, _, declarations_of_made shown, ?_⟩
  rw [code, native, call_of_signs returns (signs_of_made shown)]
  rfl

theorem handlesWith_of_eventStub {e : EventStub} (h : eventStub f owner s = (.ok e, t)) :
    HandlesWith f e := by
  obtain ⟨name, _, -, h⟩ := bind_eq_ok.1 h
  obtain ⟨returns, _, -, h⟩ := bind_eq_ok.1 h
  obtain ⟨parameters, _, shown, h⟩ := bind_eq_ok.1 h
  obtain ⟨inputs, _, taken, h⟩ := bind_eq_ok.1 h
  obtain ⟨back, _, written, h⟩ := bind_eq_ok.1 h
  obtain ⟨result, _, returned, h⟩ := bind_eq_ok.1 h
  obtain ⟨rfl, -⟩ := pure_eq_ok.1 h
  have shown := made_parameters shown
  have takes : List.Forall₂ (TakesArgument f) f.arguments inputs :=
    made_of_mapM single (fun p hp => mem_params_of_arguments hp)
      (fun _ _ _ _ => takesArgument_of_eventInput) taken
  refine {
    declared := signs_of_made shown
    takes
    inputs := reads_of_takes takes
    outputs := ⟨back, result, rfl, ?_, ?_⟩
    defaults := defaults_printed f
    code := eventStub_printed rfl rfl shown
    sets := fun q hq out => assigned_by_default (signs_of_made shown) hq out }
  · exact made_of_mapM single (fun p hp => mem_params_of_arguments (List.mem_of_mem_filter hp))
      (fun _ _ _ _ => writesArgument_of_writeFrom) written
  · exact made_of_mapM single (fun p hp => mem_params_of_returned hp)
      (fun _ _ _ _ => writesResult_of_writeFrom) returned

end

/-- For a function whose parameters pass their gate, whatever their flags: the wrapper prints lines
that write what the invoker of the event reads, and that read what the invoker writes, in the order
of the parameters and each at the offset of its own; the result comes last. Between them stands the
one native call, and in the invoker the one call of the implementation. An argument comes back just
if it is declared as `ref` or `out`, it is given to the callee unless it is declared as `out`, and
the implementation sets every parameter declared as `out`. -/
theorem call_sides_dual {overridable : Bool}
    (passes : canExportParameters overridable f.params u = (.ok true, v)) :
    (∀ owner s w t, wrapper f owner s = (.ok w, t) → CallsWith f w) ∧
    (∀ owner s e t, eventStub f owner s = (.ok e, t) → HandlesWith f e) ∧
    ∀ p ∈ f.arguments, (p.has .out ↔ (passing p).text = "ref " ∨ (passing p).text = "out ") ∧
      (p.has .out && !p.has .byReference ↔ (passing p).text = "out ") := by
  have single := single_of_passes passes
  refine ⟨fun _ _ _ _ => callsWith_of_wrapper single,
    fun _ _ _ _ => handlesWith_of_eventStub single, fun p _ => ?_⟩
  unfold passing
  cases p.has .out <;> cases p.has .byReference <;> decide

/-- A function with a parameter of each sort, the result among them. -/
def mixedFunction : Function where
  name := .text "F"
  params := [
    parameter "Given" [],
    parameter "Result" [.returned, .out],
    parameter "Made" [.out],
    parameter "Changed" [.out, .byReference],
    parameter "Seen" [.byReference]]
  owner := .text "C"
where
  parameter (name : String) (flags : List Flag) : Property :=
    { name := .text name, kind := .int32, owner := .text "F"
      flags := flags.map fun flag => .text flag.label }

def callSession : Session where
  packaging := { scriptsDir := .text "out" }

theorem callSession_makes :
    (match canExportParameters true mixedFunction.params callSession,
        wrapper mixedFunction (.text "C") callSession,
        eventStub mixedFunction (.text "C") callSession with
    | (.ok passed, _), (.ok w, _), (.ok e, _) => passed &&
      w.parameters.map Parameter.passing == [.value, .out, .byReference, .value] &&
      w.inputs.length == 3 && w.outputs.length == 3 && e.inputs.length == 4 &&
      e.outputs.length == 3 && e.defaults.length == 2 && w.body.contains (.line
        ("made = BlittableMarshaller<int>.FromNative(" ++
          "IntPtr.Add(ParamsBuffer, F_Made_Offset), 0, this);"))
    | _, _, _ => false) = true := by decide +kernel

theorem call_sides_dual_of_mixed : ∃ w e u v,
    (∃ v, canExportParameters true mixedFunction.params callSession = (.ok true, v)) ∧
      wrapper mixedFunction (.text "C") callSession = (.ok w, u) ∧
      eventStub mixedFunction (.text "C") callSession = (.ok e, v) ∧
      CallsWith mixedFunction w ∧ HandlesWith mixedFunction e ∧
      w.parameters.map Parameter.passing = [.value, .out, .byReference, .value] ∧
      w.inputs.length = 3 ∧ w.outputs.length = 3 ∧ e.inputs.length = 4 ∧ e.outputs.length = 3 ∧
      .line ("made = BlittableMarshaller<int>.FromNative(" ++
        "IntPtr.Add(ParamsBuffer, F_Made_Offset), 0, this);") ∈ w.body := by
  have makes := callSession_makes
  split at makes
  · next passed v w u e x gate called handled =>
    simp only [Bool.and_eq_true, beq_iff_eq] at makes
    obtain ⟨⟨⟨⟨⟨⟨⟨rfl, passings⟩, written⟩, read⟩, taken⟩, given⟩, -⟩, line⟩ := makes
    obtain ⟨calls, handles, -⟩ := call_sides_dual gate
    exact ⟨w, e, u, x, ⟨v, gate⟩, called, handled, calls _ _ _ _ called,
      handles _ _ _ _ handled, passings, written, read, taken, given,
      List.contains_iff_mem.1 line⟩
  · cases makes

end Session
end ScriptGlue
