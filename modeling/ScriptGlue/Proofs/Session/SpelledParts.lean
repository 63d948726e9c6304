import ScriptGlue.Proofs.Session.Batch
import ScriptGlue.Proofs.Session.CallTransfers
import ScriptGlue.Proofs.Session.SpelledNames

/-! # Parts that spell names

A session makes the parts of its units of words of its own and of the names of the graph. If the
names stay on their lines, so does all that the parts print; whether a line begins with a blank is
up to the few names that stand first on theirs.
-/
namespace ScriptGlue
open ScriptGlue.Action Text Code

variable {exact : Prop} {σ : TypeStore}

theorem Action.Meets.and {ρ α : Type} {I : ρ → Prop} {J : Fault → ρ → Prop} {a : Action ρ α}
    {P Q : α → Prop} (ha : Meets I J a P) (hb : Meets I J a Q) :
    Meets I J a fun x => P x ∧ Q x where
  result hs he := ⟨⟨(ha.result hs he).1, (hb.result hs he).1⟩, (ha.result hs he).2⟩
  fault := ha.fault

namespace Session

/-- A careful invariant of sessions that spell the names of their types. -/
structure Legible (exact : Prop) (σ : TypeStore) (I : Session → Prop)
    (J : Fault → Session → Prop) : Prop extends Careful False σ I J where
  spelled : σ.Spelled exact
  world : ∀ s m, I s → s.findModule? worldModule = some m → Inline m.name.plain

/-- A script type stays on its line. That of what is no delegate is a text, and may begin one. -/
structure IsType (kind : PropertyKind) (type : Name) : Prop where
  inline : Inline type.plain
  text : kind.isDelegate = false → type.isText
  firm : kind.isDelegate = false → Firm type.plain

structure Opens (text : String) : Prop where
  inline : Inline text
  firm : Firm text

theorem Opens.led {text : String} (h : Opens text) : Led text := h.firm.led

theorem Opens.isType {kind : PropertyKind} {text : String} (h : Opens text) :
    IsType kind (.text text) := ⟨h.inline, fun _ => rfl, fun _ => h.firm⟩

theorem firm_literal {c : Char} {chars : List Char} (head : c ≠ ' ' ∧ c ≠ '=') :
    Firm (String.ofList (c :: chars)) := ⟨(led_literal head.1).flush, c, by simp, head⟩

theorem firm_begun {c : Char} {chars : List Char} (head : c ≠ ' ' ∧ c ≠ '=') (rest : String) :
    Firm (String.ofList (c :: chars) ++ rest) := (firm_literal head).append rest

theorem opens_literal {c : Char} {chars : List Char} (head : c ≠ ' ' ∧ c ≠ '=')
    (h : InlineChars (c :: chars)) :
    Opens (String.ofList (c :: chars)) := ⟨inline_literal h, firm_literal head⟩

theorem opens_wrapReference (kind : PropertyKind) {name : String} (h : Opens name) :
    Opens (wrapReference kind name) := by
  unfold wrapReference
  split
  case h_4 => exact h
  all_goals
    exact ⟨inline_append.2 ⟨inline_append.2 ⟨inline_literal (by decide), h.inline⟩,
      inline_literal (by decide)⟩, (firm_begun (by decide) _).append _⟩

theorem opens_between {c : Char} {before after : List Char} {text : String}
    (head : c ≠ ' ' ∧ c ≠ '=')
    (hb : InlineChars (c :: before)) (inline : Inline text) (ha : InlineChars after) :
    Opens (String.ofList (c :: before) ++ text ++ String.ofList after) :=
  ⟨inline_append.2 ⟨inline_append.2 ⟨inline_literal hb, inline⟩, inline_literal ha⟩,
    (firm_begun head text).append _⟩

theorem texts_eq_plain {types : List Name} {texts : List String}
    (found : types.mapM Value.text? = some texts) : texts = types.map Value.plain := by
  induction types generalizing texts with
  | nil => simpa using found.symm
  | cons type rest ih =>
    rw [List.mapM_cons] at found
    obtain ⟨word, known, found⟩ := Option.bind_eq_some_iff.1 found
    obtain ⟨words, others, found⟩ := Option.bind_eq_some_iff.1 found
    cases found
    rw [ih others]
    cases type <;> cases known
    rfl

namespace Legible
variable {I : Session → Prop} {J : Fault → Session → Prop} (h : Legible exact σ I J)
include h

theorem register {m : NativeModule} (name : Inline m.name.plain) :
    Meets I J (register m) fun added => Inline added.label :=
  (h.toCareful.register False.elim).ensures fun s added t ran => by
    have key : m.name.isKey := by
      rw [register_apply] at ran
      split at ran
      · assumption
      · cases ran
    have found := register_ok ran
    unfold Registry.find? at found
    have same : added.name.alike m.name := by simpa using List.find?_some found
    exact Value.inline_of_alike key same name

omit h in
theorem opens_space {m : OutputModule} (label : Inline m.label) : Opens m.space := by
  unfold OutputModule.space Naming.moduleNamespace
  rw [String.append_assoc]
  refine ⟨?_, firm_begun (by decide) _⟩
  simp [label]
  and_intros <;> exact inline_literal (by decide)

theorem spaceOf (id : TypeId) : Meets I J (spaceOf (σ.type id)) Opens :=
  (h.register (h.spelled.inline id).home).bind fun _ label => .pure (opens_space label)

theorem qualifiedName (id : TypeId) : Meets I J (qualifiedName id) Opens := by
  refine (h.typeAt id).bind ?_
  rintro t rfl
  refine (h.spaceOf id).bind fun space opens => .pure ⟨?_, (opens.firm.append _).append _⟩
  exact inline_append.2 ⟨inline_append.2 ⟨opens.inline, by decide⟩,
    inline_scriptLabel (h.spelled.inline id).label⟩

theorem qualifiedRef (ref : Option TypeId) : Meets I J (qualifiedRef ref) Opens := by
  cases ref with
  | none => exact h.fails
  | some id => exact h.qualifiedName id

theorem simpleType {kind : PropertyKind} {refName : Value} {ref : Option TypeId}
    (single : kind.isContainer = false) (named : kind.isDelegate → Inline refName.plain) :
    Meets I J (simpleType kind refName ref) (IsType kind) := by
  unfold Session.simpleType
  cases kind
  case delegate | multicastDelegate =>
    exact .pure ⟨named rfl, by simp [PropertyKind.isDelegate], by simp [PropertyKind.isDelegate]⟩
  case array | set | map => cases single
  case enum | struct | interface | object | subclass | softObject | weakObject =>
    exact (h.qualifiedRef ref).bind fun _ opens => .pure (opens_wrapReference _ opens).isType
  all_goals exact .pure (opens_literal (by decide) (by decide)).isType

theorem typeArguments {types : List Name} (inline : ∀ type ∈ types, Inline type.plain) :
    Meets I J (typeArguments types) Inline := by
  unfold Session.typeArguments
  split
  · next texts found =>
    rw [texts_eq_plain found]
    refine .pure (inline_intercalate (by decide) fun text ht => ?_)
    obtain ⟨type, htype, rfl⟩ := List.mem_map.1 ht
    exact inline type htype
  · exact h.fails

/-- The elements of a container are no delegates, so what they refer to is a type. -/
theorem elementTypeName {e : Option Property} (element : ∃ q, e = some q ∧ q.IsElement σ) :
    Meets I J (elementTypeName e) fun type => Inline type.plain := by
  obtain ⟨q, rfl, element⟩ := element
  unfold Session.elementTypeName
  rw [Careful.typeName_single element.single]
  exact (h.simpleType element.single (by simp [element.value])).imp fun _ type => type.inline

theorem typeName {p : Property} (fits : p.Fits σ) (names : p.InlineNames) :
    Meets I J (typeName p) (IsType p.kind) := by
  cases single : p.kind.isContainer with
  | false =>
    rw [Careful.typeName_single single]
    exact h.simpleType single names.delegate
  | true =>
    have elements := fits.elements single
    obtain ⟨name, kind, dim, refName, ref, inner, value, flags, metadata, owner⟩ := p
    have one (e : Option Property) (he : e ∈ Property.elements
        ⟨name, kind, dim, refName, ref, inner, value, flags, metadata, owner⟩) :=
      h.elementTypeName (elements e he)
    unfold Session.typeName
    cases kind
    case array | set =>
      exact (one inner (by simp [Property.elements])).bind fun _ text =>
        (h.typeArguments (by simpa using text)).bind fun _ inline =>
          .pure (opens_between (by decide) (by decide) inline (by decide)).isType
    case map =>
      exact (one inner (by simp [Property.elements])).bind fun _ key =>
        (one value (by simp [Property.elements])).bind fun _ text =>
          (h.typeArguments (by simpa using ⟨key, text⟩)).bind fun _ inline =>
            .pure (opens_between (by decide) (by decide) inline (by decide)).isType
    all_goals cases single

theorem scriptType {p : Property} (fits : p.Fits σ) (names : p.InlineNames) :
    Meets I J (scriptType p) fun type =>
      Inline type ∧ (p.kind.isDelegate = false → Firm type) :=
  (h.typeName fits names).bind fun _ type => .pure ⟨type.inline, type.firm⟩

theorem elementTypes {es : List (Option Property)}
    (elements : ∀ e ∈ es, ∃ q, e = some q ∧ q.IsElement σ) : Meets I J (elementTypes es) Inline :=
  (Meets.mapM fun e he => h.elementTypeName (elements e he)).bind fun _ inline =>
    h.typeArguments inline

theorem simpleMarshaller {kind : PropertyKind} {refName : Value} {ref : Option TypeId}
    (refers : RefersRight σ kind ref) (named : kind.isDelegate → Inline refName.plain) :
    Meets I J (simpleMarshaller kind refName ref) Marshaller.Spelled := by
  unfold Session.simpleMarshaller
  cases kind
  case struct =>
    obtain ⟨d, rfl, properties⟩ := refers.properties
    refine (h.measured d properties).bind fun blittable _ => (h.qualifiedName d).bind fun _ opens =>
      .pure ?_
    cases blittable with
    | false => exact ⟨opens.inline, opens.led⟩
    | true => exact opens.inline
  case bool | string | text => exact .pure trivial
  case delegate | multicastDelegate => exact .pure (named rfl)
  case enum | object | subclass | softObject | weakObject | interface =>
    exact (h.qualifiedRef ref).bind fun _ opens => .pure opens.inline
  all_goals exact .pure (inline_literal (by decide))

theorem elementMarshaller {e : Option Property} (element : ∃ q, e = some q ∧ q.IsElement σ) :
    Meets I J (elementMarshaller e) Marshaller.Spelled := by
  obtain ⟨q, rfl, element⟩ := element
  unfold Session.elementMarshaller
  rw [Careful.marshallerAt_single element.single]
  exact h.simpleMarshaller element.refers (by simp [element.value])

theorem marshallerAt {p : Property} (fits : p.Fits σ) (names : p.InlineNames) {slot : String}
    (handle : Inline slot) : Meets I J (marshallerAt p slot) Marshaller.Spelled := by
  cases single : p.kind.isContainer with
  | false =>
    rw [Careful.marshallerAt_single single]
    exact h.simpleMarshaller fits.refers names.delegate
  | true =>
    have elements := fits.elements single
    obtain ⟨name, kind, dim, refName, ref, inner, value, flags, metadata, owner⟩ := p
    unfold Session.marshallerAt
    cases kind
    case array | set =>
      have known := elements inner (by simp [Property.elements])
      exact (h.elementMarshaller known).bind fun _ element =>
        (h.elementTypes (by simpa [Property.elements] using elements)).bind fun _ type =>
          .pure ⟨type, handle, element⟩
    case map =>
      exact (h.elementMarshaller (elements inner (by simp [Property.elements]))).bind fun _ key =>
        (h.elementMarshaller (elements value (by simp [Property.elements]))).bind fun _ element =>
          (h.elementTypes (by simpa [Property.elements] using elements)).bind fun _ types =>
            .pure ⟨types, handle, key, element⟩
    all_goals cases single

theorem marshaller {p : Property} (fits : p.Fits σ) (names : p.InlineNames) {slot : String}
    (handle : Inline slot) : Meets I J (marshaller p slot) Marshaller.Printed := by
  refine (h.marshallerAt fits names ?_).imp fun _ spelled => spelled.printed
  exact inline_ite names.label handle

section
variable {p : Property} (fits : p.Fits σ) (names : p.InlineNames) {slot owner buffer : String}
  (handle : Inline slot) (held : Inline owner) (at_ : Inline buffer) {place : Displacement}
  (placed : Inline place.text)
include fits names handle held at_ placed

theorem transfer : Meets I J (transfer p slot owner buffer place) Transfer.Printed := by
  refine (h.marshaller fits names handle).bind fun _ printed =>
    .pure ⟨printed, held, at_, placed, fun length hlength => ?_⟩
  dsimp only at hlength
  split at hlength <;> cases hlength
  exact handle

theorem readInto {assignment : String} (target : Inline assignment)
    (firm : exact → Firm assignment) :
    Meets I J (readInto p slot owner buffer place assignment) (Statement.Printed exact) := by
  refine (h.transfer fits names handle held at_ placed).bind fun _ printed => ?_
  exact .ite (fun _ => (h.scriptType fits names).bind fun _ type =>
      .pure ⟨printed, target, type.1, firm⟩)
    fun _ => Meets.bind (Q := Inline) (.pure inline_empty) fun _ type =>
      .pure ⟨printed, target, type, firm⟩

theorem writeFrom {source : String} (value : Inline source) :
    Meets I J (writeFrom p slot owner buffer place source) (Statement.Printed exact) :=
  (h.transfer fits names handle held at_ placed).bind fun _ printed => .pure ⟨printed, value⟩

end

theorem parameter {p : Property} (fits : p.Fits σ) (names : p.InlineNames) :
    Meets I J (parameter p) Parameter.Printed :=
  (h.scriptType fits names).bind fun _ type => (h.given _).bind fun _ named =>
    .pure ⟨type.1, Naming.stable_inline.parameter names.label named⟩

section
variable {f : Function} (good : DeclaredPassable σ f)
include good

omit h in
theorem fits_of_mem_params {p : Property} (hp : p ∈ f.params) : p.Fits σ := (good.passable p hp).1

theorem spelled_function : f.Spelled exact := h.spelled.function good.declared

theorem parameters {ps : List Property} (within : ∀ p ∈ ps, p ∈ f.params) :
    Meets I J (ps.mapM Session.parameter) fun shown =>
      (∀ x ∈ shown, x.Printed) ∧ ∀ p ∈ ps, ∃ name, parameterName p = .ok name := by
  have names := (h.spelled_function good).names
  have printed := Meets.mapM fun p hp => h.parameter (fits_of_mem_params good (within p hp))
    (names.params p (within p hp))
  refine printed.and (printed.ensures fun s shown t ran p hp => ?_)
  obtain ⟨x, -, u, v, made⟩ := exists_of_forall₂ (mapM_eq_ok ran) hp
  obtain ⟨type, w, -, made⟩ := bind_eq_ok.1 made
  obtain ⟨name, w, named, -⟩ := bind_eq_ok.1 made
  exact ⟨name, (ofExcept_eq_ok.1 named).1⟩

theorem returnType : Meets I J (returnType f) fun type => Inline type ∧
    ((∀ p ∈ f.params, p.kind.isDelegate = false) → Firm type) := by
  unfold Session.returnType
  split
  · next p returned =>
    have hp : p ∈ f.params := List.mem_of_find?_eq_some returned
    exact (h.scriptType (fits_of_mem_params good hp)
      ((h.spelled_function good).names.params p hp)).imp fun _ type =>
        ⟨type.1, fun values => type.2 (values p hp)⟩
  · exact .pure ⟨inline_literal (by decide), fun _ => firm_literal (by decide)⟩

section
variable {p : Property} (hp : p ∈ f.params) {owner buffer : String} (held : Inline owner)
  (at_ : Inline buffer)
include hp held at_

theorem writeParameter {place : Displacement} (placed : Inline place.text) {source : String}
    (value : Inline source) :
    Meets I J (Session.writeFrom p (slotOf f.label p) owner buffer place source)
      (Statement.Printed exact) :=
  have names := (h.spelled_function good).names
  h.writeFrom (fits_of_mem_params good hp) (names.params p hp)
    (inline_slotOf names.label (names.params p hp).label) held at_ placed value

theorem readParameter {assignment : String} (target : Inline assignment)
    (firm : exact → Firm assignment) : Meets I J
      (Session.readInto p (slotOf f.label p) owner buffer (parameterOffset f p) assignment)
      (Statement.Printed exact) :=
  have names := (h.spelled_function good).names
  h.readInto (fits_of_mem_params good hp) (names.params p hp)
    (inline_slotOf names.label (names.params p hp).label) held at_
    (inline_parameterOffset names hp) target firm

end

theorem inline_parameterOf {p : Property} (hp : p ∈ f.params) : Inline (parameterText p) :=
  inline_parameterText ((h.spelled_function good).names.params p hp).label

theorem firm_target {p : Property} (hp : p ∈ outputsOf f)
    (named : ∀ p ∈ f.arguments, ∃ name, parameterName p = .ok name) (exactly : exact) :
    Firm (parameterText p ++ " =") := by
  obtain ⟨hp, out⟩ := List.mem_filter.1 hp
  obtain ⟨name, hname⟩ := named p hp
  have firm := (h.spelled_function good).outputs exactly p (List.mem_of_mem_filter hp) out
  exact (firm_parameterText firm hname).append _

theorem wrapperExchange (named : ∀ p ∈ f.arguments, ∃ name, parameterName p = .ok name) :
    Meets I J (wrapperExchange f) fun x => (∀ st ∈ x.inputs, st.Printed exact) ∧
      ∀ st ∈ x.outputs, st.Printed exact := by
  have names := (h.spelled_function good).names
  have owner : Inline (Wrapper.owner (f.has .static)) := inline_ite (by decide) (by decide)
  refine Meets.bind (Meets.mapM fun p hp => ?_) fun inputs read => (Meets.mapM fun p hp => ?_).bind
    fun outputs written => (Meets.mapM fun p hp => ?_).bind fun result given =>
      .pure ⟨read, List.forall_mem_append.2 ⟨written, given⟩⟩
  · have hp := mem_params_of_arguments (List.mem_of_mem_filter hp)
    exact h.writeParameter good hp owner (by decide) (inline_parameterOffset names hp)
      (h.inline_parameterOf good hp)
  · have firm := h.firm_target good hp named
    have hp := mem_params_of_arguments (List.mem_of_mem_filter hp)
    exact h.readParameter good hp owner (by decide)
      (inline_append.2 ⟨h.inline_parameterOf good hp, by decide⟩) firm
  · exact h.readParameter good (mem_params_of_returned hp) owner (by decide) (by decide)
      fun _ => by decide

theorem functionName (owner : Name) : Meets I J
    (Action.ofExcept (functionName f owner) : Generation Name) fun name =>
      Inline name.plain ∧ (exact → Flush name.plain) := by
  have spelled := h.spelled_function good
  exact (h.given _).imp fun _ named => ⟨Naming.stable_inline.function spelled.names.label named,
    fun exactly => Naming.stable_flush.function (spelled.flush exactly) named⟩

theorem wrapper (owner : Name) : Meets I J (wrapper f owner) (Wrapper.Printed exact) := by
  have names := (h.spelled_function good).names
  have fields : ∀ g ∈ ⟨.static, .function f.label⟩ :: blockFields f, Inline g.handle.stem :=
    List.forall_mem_cons.2 ⟨names.label, inline_blockFields names⟩
  refine (h.functionName good owner).bind fun _ name => (h.returnType good).bind fun _ type =>
    (h.parameters good fun _ => mem_params_of_arguments).bind fun _ shown =>
      .optional (h.wrapperExchange good shown.2) fun _ printed =>
        .pure ⟨names.label, name.1, type.1, shown.1, fields, fun x hx => (printed x hx).1,
          fun x hx => (printed x hx).2⟩

theorem printed_defaults (named : ∀ p ∈ f.arguments, ∃ name, parameterName p = .ok name) :
    ∀ x ∈ defaultStatements f, x.Printed exact := by
  have value (kind : PropertyKind) : Inline kind.defaultValue := by cases kind <;> decide
  refine List.forall_mem_append.2 ⟨fun x hx => ?_, fun x hx => ?_⟩
  · obtain ⟨p, hp, rfl⟩ := List.mem_map.1 hx
    obtain ⟨hp, set⟩ := List.mem_filter.1 hp
    have out : p.has .out := (Bool.and_eq_true_iff.1 set).1
    have argument := mem_params_of_arguments hp
    obtain ⟨name, hname⟩ := named p hp
    have firm exactly := firm_parameterText
      ((h.spelled_function good).outputs exactly p argument out) hname
    exact ⟨h.inline_parameterOf good argument, value _, fun exactly => (firm exactly).led⟩
  · obtain ⟨p, -, rfl⟩ := List.mem_map.1 hx
    exact value _

section
variable (values : ∀ p ∈ f.params, p.kind.isDelegate = false)
include values

/-- An argument is declared with its type, which is that of no delegate. -/
theorem eventInput {p : Property} (hp : p ∈ f.params) :
    Meets I J (eventInput f p) (Statement.Printed exact) := by
  have name := h.inline_parameterOf good hp
  refine (h.scriptType (fits_of_mem_params good hp)
    ((h.spelled_function good).names.params p hp)).bind fun type printed => ?_
  have firm := printed.2 (values p hp)
  refine .ite (fun _ => .pure ⟨printed.1, name, fun _ => firm.led⟩) fun _ => ?_
  refine h.readParameter good hp (by decide) (by decide) ?_ fun _ => ?_
  · exact inline_append.2
      ⟨inline_append.2 ⟨inline_append.2 ⟨printed.1, by decide⟩, name⟩, by decide⟩
  · exact ((firm.append _).append _).append _

theorem eventStub (owner : Name) : Meets I J (eventStub f owner) (EventStub.Printed exact) := by
  have names := (h.spelled_function good).names
  have fields : ∀ g ∈ (if f.params.isEmpty then [] else blockFields f), Inline g.handle.stem := by
    split
    · exact fun _ hg => absurd hg List.not_mem_nil
    · exact inline_blockFields names
  refine (h.functionName good owner).bind fun _ name => (h.returnType good).bind fun _ type =>
    (h.parameters good fun _ => mem_params_of_arguments).bind fun _ shown =>
      (Meets.mapM fun p hp => h.eventInput good values (mem_params_of_arguments hp)).bind
        fun _ inputs => (Meets.mapM fun p hp => ?_).bind fun _ outputs =>
          (Meets.mapM fun p hp => ?_).bind fun _ result => .pure ⟨names.label, name.1, name.2,
            type.1, (type.2 values).led, shown.1, fields, h.printed_defaults good shown.2, inputs,
            List.forall_mem_append.2 ⟨outputs, result⟩⟩
  · have hp := mem_params_of_arguments (List.mem_of_mem_filter hp)
    exact h.writeParameter good hp (by decide) (by decide) (inline_parameterOffset names hp)
      (h.inline_parameterOf good hp)
  · exact h.writeParameter good (mem_params_of_returned hp) (by decide) (by decide) (by decide)
      (by decide)

theorem interfaceMethod (owner : Name) :
    Meets I J (interfaceMethod f owner) InterfaceMethod.Printed :=
  (h.functionName good owner).bind fun _ name => (h.returnType good).bind fun _ type =>
    (h.parameters good fun _ => mem_params_of_arguments).bind fun _ shown =>
      .pure ⟨name.1, type.1, (type.2 values).led, shown.1⟩

end

end

theorem wrapperProperty {p : Property} (fits : p.Fits σ) (names : p.InlineNames) {name : String}
    (shown : Inline name) (relaxed forced : Bool) :
    Meets I J (wrapperProperty p name relaxed forced) WrapperProperty.Printed :=
  (h.scriptType fits names).bind fun _ type => (h.marshaller fits names names.label).bind
    fun _ printed => .pure ⟨names.label, shown, type.1, printed, inline_propertyFields names.label⟩

theorem mirrorField {p : Property} (good : p.Passable σ) (names : p.InlineNames) {name : String}
    (shown : Inline name) (relaxed : Bool) :
    Meets I J (mirrorField p name relaxed) MirrorField.Printed := by
  refine (h.typeName good.toFits names).bind fun type is => (h.given _).bind fun field made =>
    .pure ⟨shown, ?_⟩
  split at made
  · next fixed =>
    obtain ⟨word, rfl⟩ := Value.eq_text_of_isText (is.text (good.value_of_fixed fixed))
    cases made
    exact inline_append.2 ⟨is.inline, by decide⟩
  · cases made
    exact is.inline

end Legible

end Session

end ScriptGlue
