import ScriptGlue.Proofs.Code.UnitHandles
import ScriptGlue.Proofs.Session.SpelledParts

/-! # Handles in the names of a graph

A session puts the types and the names in its units together from words of its own and the names of
the graph. Its own words name no handle, so what these texts say of handles stands in those names.
-/
namespace ScriptGlue
open ScriptGlue.Action Text Handle

variable {σ : TypeStore}

/-- A property of a type, or a parameter of one of its functions. -/
def TypeStore.Holds (σ : TypeStore) (p : Property) : Prop :=
  (∃ id, p ∈ (σ.type id).properties?.getD []) ∨ ∃ id, ∃ f ∈ (σ.type id).functions, p ∈ f.params

namespace Session

/-- Texts that a graph gives as names, and what they become in a script. -/
inductive GivenName (σ : TypeStore) : String → Prop
  | type (id : TypeId) : GivenName σ (scriptLabel (σ.type id))
  | typeLabel (id : TypeId) : GivenName σ (σ.type id).label
  | home (id : TypeId) {name : Name} (same : name.alike (σ.type id).home.name) :
      GivenName σ name.plain
  | property {p : Property} (held : σ.Holds p) (owner : Name) : GivenName σ (propertyText p owner)
  | parameter {p : Property} (held : σ.Holds p) : GivenName σ (parameterText p)
  | propertyLabel {p : Property} (held : σ.Holds p) : GivenName σ p.label
  | delegate {p : Property} (held : σ.Holds p) (named : p.kind.isDelegate) :
      GivenName σ p.refName.plain
  | function {f : Function} (declared : ∃ d, f ∈ (σ.type d).functions) {owner name : Name}
      (named : functionName f owner = .ok name) : GivenName σ name.plain
  | functionLabel {f : Function} (declared : ∃ d, f ∈ (σ.type d).functions) : GivenName σ f.label
  | invoker {f : Function} (declared : ∃ d, f ∈ (σ.type d).functions) :
      GivenName σ ("Invoke_" ++ f.label)

def Given (σ : TypeStore) (text : String) : Prop := NamedIn (GivenName σ) text

theorem GivenName.given {name : String} (h : GivenName σ name) : Given σ name := .of_mem h

namespace Given
variable {I : Session → Prop} {J : Fault → Session → Prop} (h : Careful False σ I J)

theorem ofReference (kind : PropertyKind) {name : String} (given : Given σ name) :
    Given σ (wrapReference kind name) := by
  unfold wrapReference
  split
  case h_4 => exact given
  all_goals exact (NamedIn.opened (by decide) given).closed (by decide)

theorem ofNumeric (kind : PropertyKind) : Given σ (kind.numeric?.getD "") := by
  cases kind <;> exact NamedIn.plain (by decide)

theorem collected {α β : Type} {xs : List α} {make : α → Generation β} {texts : β → List String}
    (made : ∀ x ∈ xs, Meets I J (make x) fun y => ∀ t ∈ texts y, Given σ t) :
    Meets I J (xs.mapM make) fun ys => ∀ t ∈ ys.flatMap texts, Given σ t :=
  (Meets.mapM made).imp fun ys given t ht => by
    obtain ⟨y, hy, ht⟩ := List.mem_flatMap.1 ht
    exact given y hy t ht

theorem statements {qs : List Property} {make : Property → Generation Statement}
    (good : ∀ p ∈ qs, σ.Holds p ∧ p.Fits σ)
    (made : ∀ p, σ.Holds p → p.Fits σ → Meets I J (make p) fun x => ∀ t ∈ x.texts, Given σ t) :
    Meets I J (qs.mapM make) fun xs => ∀ t ∈ xs.flatMap Statement.texts, Given σ t :=
  collected fun p hp => made p (good p hp).1 (good p hp).2

include h

theorem spaceOf (id : TypeId) : Meets I J (spaceOf (σ.type id)) (Given σ) := by
  refine ((h.register False.elim).ensures (Q := fun added => GivenName σ added.label)
    fun s added t ran => ?_).bind fun added named => .pure ?_
  · have found := register_ok ran
    unfold Registry.find? at found
    exact .home id (by simpa using List.find?_some found)
  · unfold OutputModule.space Naming.moduleNamespace
    have root : NamedIn (GivenName σ) Naming.rootNamespace := .plain (by decide)
    exact root.joined (by decide) named.given

theorem qualifiedName (id : TypeId) : Meets I J (qualifiedName id) (Given σ) := by
  refine (h.typeAt id).bind ?_
  rintro t rfl
  exact (spaceOf h id).bind fun _ space =>
    .pure (NamedIn.joined space (by decide) (GivenName.type id).given)

theorem qualifiedRef (ref : Option TypeId) : Meets I J (qualifiedRef ref) (Given σ) := by
  cases ref with
  | none => exact h.fails
  | some id => exact qualifiedName h id

theorem simpleType {kind : PropertyKind} {refName : Value} {ref : Option TypeId}
    (single : kind.isContainer = false) (named : kind.isDelegate → Given σ refName.plain) :
    Meets I J (simpleType kind refName ref) fun type => Given σ type.plain := by
  unfold Session.simpleType
  cases kind
  case delegate | multicastDelegate => exact .pure (named rfl)
  case array | set | map => cases single
  case enum | struct | interface | object | subclass | softObject | weakObject =>
    exact (qualifiedRef h ref).bind fun _ given => .pure (ofReference _ given)
  case bool | name | string | text => exact .pure (NamedIn.plain (by decide))
  all_goals exact .pure (ofNumeric _)

theorem typeArguments {types : List Name} (given : ∀ type ∈ types, Given σ type.plain) :
    Meets I J (typeArguments types) (Given σ) := by
  unfold Session.typeArguments
  split
  · next texts found =>
    rw [texts_eq_plain found]
    exact .pure (NamedIn.intercalate (by decide) (List.forall_mem_map.2 given))
  · exact h.fails

theorem elementTypeName {e : Option Property} (element : ∃ q, e = some q ∧ q.IsElement σ) :
    Meets I J (elementTypeName e) fun type => Given σ type.plain := by
  obtain ⟨q, rfl, element⟩ := element
  unfold Session.elementTypeName
  rw [Careful.typeName_single element.single]
  exact simpleType h element.single (by simp [element.value])

theorem elementTypes {es : List (Option Property)}
    (elements : ∀ e ∈ es, ∃ q, e = some q ∧ q.IsElement σ) : Meets I J (elementTypes es) (Given σ) :=
  (Meets.mapM fun e he => elementTypeName h (elements e he)).bind fun _ given =>
    typeArguments h given

theorem simpleMarshaller {kind : PropertyKind} {refName : Value} {ref : Option TypeId}
    (refers : RefersRight σ kind ref) (named : kind.isDelegate → Given σ refName.plain) :
    Meets I J (simpleMarshaller kind refName ref) fun m => ∀ x ∈ m.types, Given σ x := by
  have plain {m : Marshaller} (none : m.types = []) : ∀ x ∈ m.types, Given σ x := by simp [none]
  have typed {m : Marshaller} {type : String} (one : m.types = [type]) (given : Given σ type) :
      ∀ x ∈ m.types, Given σ x := by simpa [one] using given
  unfold Session.simpleMarshaller
  cases kind
  case struct =>
    obtain ⟨d, rfl, properties⟩ := refers.properties
    refine (h.measured d properties).bind fun blittable _ => (qualifiedName h d).bind fun _ given =>
      .pure ?_
    cases blittable with
    | false => exact typed rfl (NamedIn.extended given (by decide) (by decide))
    | true => exact typed rfl given
  case bool | string | text => exact .pure (plain rfl)
  case delegate | multicastDelegate => exact .pure (typed rfl (named rfl))
  case enum | object | subclass | softObject | weakObject | interface =>
    exact (qualifiedRef h ref).bind fun _ given => .pure (typed rfl given)
  case name => exact .pure (typed rfl (NamedIn.plain (by decide)))
  all_goals exact .pure (typed rfl (ofNumeric _))

theorem elementMarshaller {e : Option Property} (element : ∃ q, e = some q ∧ q.IsElement σ) :
    Meets I J (elementMarshaller e) fun m => ∀ x ∈ m.types, Given σ x := by
  obtain ⟨q, rfl, element⟩ := element
  unfold Session.elementMarshaller
  rw [Careful.marshallerAt_single element.single]
  exact simpleMarshaller h element.refers (by simp [element.value])

section
variable {p : Property} (held : σ.Holds p) (fits : p.Fits σ)
include held fits

theorem typeName : Meets I J (typeName p) fun type => Given σ type.plain := by
  cases single : p.kind.isContainer with
  | false =>
    rw [Careful.typeName_single single]
    exact simpleType h single fun named => (GivenName.delegate held named).given
  | true =>
    have elements := fits.elements single
    clear held
    obtain ⟨name, kind, dim, refName, ref, inner, value, flags, metadata, owner⟩ := p
    have one (e : Option Property) (he : e ∈ Property.elements
        ⟨name, kind, dim, refName, ref, inner, value, flags, metadata, owner⟩) :=
      elementTypeName h (elements e he)
    unfold Session.typeName
    cases kind
    case array | set =>
      exact (one inner (by simp [Property.elements])).bind fun _ given =>
        (typeArguments h (by simpa using given)).bind fun _ given =>
          .pure ((NamedIn.opened (by decide) given).closed (by decide))
    case map =>
      exact (one inner (by simp [Property.elements])).bind fun _ key =>
        (one value (by simp [Property.elements])).bind fun _ element =>
          (typeArguments h (by simpa using ⟨key, element⟩)).bind fun _ given =>
            .pure ((NamedIn.opened (by decide) given).closed (by decide))
    all_goals cases single

theorem scriptType : Meets I J (scriptType p) (Given σ) :=
  (typeName h held fits).bind fun _ given => .pure given

theorem marshaller (slot : String) :
    Meets I J (marshaller p slot) fun m => ∀ x ∈ m.types, Given σ x := by
  unfold Session.marshaller
  generalize (if slot = "" then p.label else slot) = slot
  cases single : p.kind.isContainer with
  | false =>
    rw [Careful.marshallerAt_single single]
    exact simpleMarshaller h fits.refers fun named => (GivenName.delegate held named).given
  | true =>
    have elements := fits.elements single
    clear held
    obtain ⟨name, kind, dim, refName, ref, inner, value, flags, metadata, owner⟩ := p
    unfold Session.marshallerAt
    cases kind
    case array | set =>
      have known := elements inner (by simp [Property.elements])
      exact (elementMarshaller h known).bind fun _ element =>
        (elementTypes h (by simpa [Property.elements] using elements)).bind fun _ type =>
          .pure (List.forall_mem_cons.2 ⟨type, element⟩)
    case map =>
      exact (elementMarshaller h (elements inner (by simp [Property.elements]))).bind fun _ key =>
        (elementMarshaller h (elements value (by simp [Property.elements]))).bind fun _ element =>
          (elementTypes h (by simpa [Property.elements] using elements)).bind fun _ types =>
            .pure (List.forall_mem_cons.2 ⟨types, List.forall_mem_append.2 ⟨key, element⟩⟩)
    all_goals cases single

variable {slot owner buffer : String} {place : Displacement} (object : Given σ owner)
  (at_ : Given σ buffer) (placed : ∀ text, place = .literal text → Given σ text)
include object at_ placed

theorem transfer : Meets I J (transfer p slot owner buffer place) fun t =>
    ∀ x ∈ t.texts, Given σ x := by
  refine (marshaller h held fits slot).bind fun m types => .pure ?_
  refine List.forall_mem_cons.2 ⟨object, List.forall_mem_cons.2 ⟨at_,
    List.forall_mem_append.2 ⟨?_, types⟩⟩⟩
  cases place with
  | handle => exact fun _ hx => absurd hx List.not_mem_nil
  | literal text => exact List.forall_mem_singleton.2 (placed text rfl)

theorem readInto {assignment : String} (target : Given σ assignment) :
    Meets I J (readInto p slot owner buffer place assignment) fun x =>
      ∀ t ∈ x.texts, Given σ t := by
  refine (transfer h held fits object at_ placed).bind fun t texts => ?_
  exact .ite (fun _ => (scriptType h held fits).bind fun _ type =>
      .pure (List.forall_mem_cons.2 ⟨target, List.forall_mem_cons.2 ⟨type, texts⟩⟩))
    fun _ => Meets.bind (Q := Given σ) (.pure (NamedIn.plain (by decide))) fun _ type =>
      .pure (List.forall_mem_cons.2 ⟨target, List.forall_mem_cons.2 ⟨type, texts⟩⟩)

theorem writeFrom {source : String} (value : Given σ source) :
    Meets I J (writeFrom p slot owner buffer place source) fun x =>
      ∀ t ∈ x.texts, Given σ t :=
  (transfer h held fits object at_ placed).bind fun _ texts =>
    .pure (List.forall_mem_cons.2 ⟨value, texts⟩)

end

theorem parameter {p : Property} (held : σ.Holds p) (fits : p.Fits σ) :
    Meets I J (parameter p) fun x => ∀ t ∈ x.texts, Given σ t := by
  refine (scriptType h held fits).bind fun type given => (h.given _).bind fun name named => .pure ?_
  have same : name.plain = parameterText p := by rw [parameterText, named, textOf]
  have shown : Given σ name.plain := same ▸ (GivenName.parameter held).given
  simpa [Parameter.texts] using ⟨given, shown⟩

section
variable {f : Function} (good : DeclaredPassable σ f)
include good

omit h in
theorem good_param {p : Property} (hp : p ∈ f.params) : σ.Holds p ∧ p.Fits σ := by
  obtain ⟨d, hd⟩ := good.declared
  exact ⟨.inr ⟨d, f, hd, hp⟩, (good.passable p hp).1⟩

theorem parameters : Meets I J (f.arguments.mapM Session.parameter) fun xs =>
    ∀ t ∈ xs.flatMap Parameter.texts, Given σ t :=
  collected fun _ hp =>
    have param := good_param good (mem_params_of_arguments hp)
    parameter h param.1 param.2

theorem returnType : Meets I J (returnType f) (Given σ) := by
  unfold Session.returnType
  split
  · next p returned =>
    have hp : p ∈ f.params := List.mem_of_find?_eq_some returned
    exact scriptType h (good_param good hp).1 (good_param good hp).2
  · exact .pure (NamedIn.plain (by decide))

theorem functionName (owner : Name) :
    Meets I J (Action.ofExcept (functionName f owner) : Generation Name) fun name =>
      GivenName σ name.plain :=
  (h.given _).imp fun _ named => .function good.declared named

theorem wrapperExchange : Meets I J (wrapperExchange f) fun x =>
    ∀ t ∈ (x.inputs ++ x.outputs).flatMap Statement.texts, Given σ t := by
  have object : Given σ (Wrapper.owner (f.has .static)) := by
    unfold Wrapper.owner
    split <;> exact NamedIn.plain (by decide)
  have buffer : Given σ Wrapper.buffer := NamedIn.plain (by decide)
  have argument {q : Property → Bool} : ∀ p ∈ f.arguments.filter q, σ.Holds p ∧ p.Fits σ :=
    fun p hp => good_param good (mem_params_of_arguments (List.mem_of_mem_filter hp))
  refine (statements argument fun p held fits => ?_).bind fun inputs read =>
    (statements argument fun p held fits => ?_).bind fun outputs written =>
      (statements (fun p hp => good_param good (mem_params_of_returned hp)) fun p held fits => ?_).bind
        fun result given => .pure ?_
  · exact writeFrom h held fits object buffer (by simp [parameterOffset])
      (GivenName.parameter held).given
  · exact readInto h held fits object buffer (by simp [parameterOffset])
      (NamedIn.closed (GivenName.parameter held).given (by decide))
  · exact readInto h held fits object buffer (by simp [parameterOffset]) (NamedIn.plain (by decide))
  · simp only [List.flatMap_append, List.forall_mem_append]
    exact ⟨read, written, given⟩

theorem wrapper (owner : Name) : Meets I J (wrapper f owner) fun w => ∀ t ∈ w.texts, Given σ t := by
  refine (functionName h good owner).bind fun name named => (returnType h good).bind
    fun type returned => (parameters h good).bind fun ps declared =>
      .optional (wrapperExchange h good) fun exchange given => .pure ?_
  refine List.forall_mem_append.2 ⟨List.forall_mem_cons.2 ⟨returned,
    List.forall_mem_cons.2 ⟨named.given, declared⟩⟩, ?_⟩
  cases exchange with
  | none => exact fun _ ht => absurd ht List.not_mem_nil
  | some e => exact given e rfl

omit h in
theorem defaults : ∀ t ∈ (defaultStatements f).flatMap Statement.texts, Given σ t := by
  have value (kind : PropertyKind) : Given σ kind.defaultValue := by
    cases kind <;> exact NamedIn.plain (by decide)
  unfold defaultStatements
  simp only [List.flatMap_append, List.flatMap_map, List.forall_mem_append, List.mem_flatMap]
  constructor
  · rintro t ⟨p, hp, ht⟩
    have held := (good_param good (mem_params_of_arguments (List.mem_of_mem_filter hp))).1
    obtain rfl | ht := List.mem_cons.1 ht
    · exact (GivenName.parameter held).given
    · cases List.mem_singleton.1 ht
      exact value _
  · rintro t ⟨p, -, ht⟩
    cases List.mem_singleton.1 ht
    exact value _

omit good in
theorem eventInput {p : Property} (held : σ.Holds p) (fits : p.Fits σ) :
    Meets I J (eventInput f p) fun x => ∀ t ∈ x.texts, Given σ t := by
  have name : Given σ (parameterText p) := (GivenName.parameter held).given
  refine (scriptType h held fits).bind fun type given => ?_
  refine .ite (fun _ => .pure (by simpa [Statement.texts] using ⟨given, name⟩)) fun _ => ?_
  exact readInto h held fits (NamedIn.plain (by decide)) (NamedIn.plain (by decide))
    (by simp [parameterOffset]) ((NamedIn.joined given (by decide) name).closed (by decide))

theorem eventStub (owner : Name) :
    Meets I J (eventStub f owner) fun e => ∀ t ∈ e.texts, Given σ t := by
  have null : Given σ "null" := NamedIn.plain (by decide)
  have buffer : Given σ EventStub.buffer := NamedIn.plain (by decide)
  have back : Given σ EventStub.returnBuffer := NamedIn.plain (by decide)
  have value : Given σ EventStub.returnValue := NamedIn.plain (by decide)
  have argument {q : Property → Bool} : ∀ p ∈ f.arguments.filter q, σ.Holds p ∧ p.Fits σ :=
    fun p hp => good_param good (mem_params_of_arguments (List.mem_of_mem_filter hp))
  refine (functionName h good owner).bind fun name named => (returnType h good).bind
    fun type returned => (parameters h good).bind fun ps declared =>
      (statements (fun p hp => good_param good (mem_params_of_arguments hp))
          fun p held fits => ?_).bind
        fun inputs read => (statements argument fun p held fits => ?_).bind
          fun outputs written => (statements (fun p hp => good_param good (mem_params_of_returned hp))
            fun p held fits => ?_).bind fun result given => .pure ?_
  · exact eventInput h held fits
  · exact writeFrom h held fits null buffer (by simp [parameterOffset])
      (GivenName.parameter held).given
  · refine writeFrom h held fits null back (fun text same => ?_) value
    cases same
    exact NamedIn.plain (by decide)
  · have implementation : Given σ (name.plain ++ "_Implementation") :=
      NamedIn.extended named.given (by decide) (by decide)
    refine List.forall_mem_append.2 ⟨List.forall_mem_cons.2 ⟨(GivenName.invoker good.declared).given,
      List.forall_mem_cons.2 ⟨implementation, List.forall_mem_cons.2 ⟨returned, declared⟩⟩⟩, ?_⟩
    simp only [List.flatMap_append, List.forall_mem_append]
    exact ⟨⟨defaults good, read⟩, written, given⟩

end

theorem wrapperProperty {p : Property} (held : σ.Holds p) (fits : p.Fits σ) {name : String}
    (named : Given σ name) (relaxed forced : Bool) :
    Meets I J (wrapperProperty p name relaxed forced) fun w => ∀ t ∈ w.texts, Given σ t :=
  (scriptType h held fits).bind fun _ type => (marshaller h held fits _).bind fun _ types =>
    .pure (List.forall_mem_cons.2 ⟨named, List.forall_mem_cons.2 ⟨type, types⟩⟩)

theorem mirrorField {p : Property} (held : σ.Holds p) (fits : p.Passable σ) {name : String}
    (named : Given σ name) (relaxed : Bool) :
    Meets I J (mirrorField p name relaxed) fun m => Given σ m.type ∧ Given σ m.name := by
  have texts := h.typeName fits.toFits
  refine ((typeName h held fits.toFits).and (texts.imp fun type text fixed =>
    text (fits.value_of_fixed fixed))).bind fun type is => (h.given _).bind fun field made =>
      .pure ⟨?_, named⟩
  split at made
  · next fixed =>
    obtain ⟨word, rfl⟩ := Value.eq_text_of_isText (is.2 fixed)
    cases made
    exact NamedIn.closed is.1 (by decide)
  · cases made
    exact is.1

omit h in
theorem given_of_named {p : Property} (held : σ.Holds p) {owner name : Name}
    (named : propertyName p owner = .ok name) : Given σ name.plain := by
  have same : name.plain = propertyText p owner := by rw [propertyText, named, textOf]
  exact same ▸ (GivenName.property held owner).given

section
variable {t : TypeNode} {id : TypeId} {ps : List Property} (passed : ∀ p ∈ ps, σ.Holds p ∧ p.Passable σ)
include passed

theorem wrapperProperties (taken : List Name) : Meets I J (wrapperProperties t taken ps) fun ws =>
    ∀ x ∈ ws.flatMap WrapperProperty.texts, Given σ x := by
  refine (each_wrapperProperty h.tell (fun p _ => (h.given _).imp fun _ _ => trivial)
    (fun p hp name named => ?_) taken).imp fun _ => List.forall_mem_flatMap.2
  obtain ⟨held, fits⟩ := passed p hp
  exact wrapperProperty h held fits.toFits (given_of_named held named)

theorem structMembers (blittable : Bool) (taken : List Name) :
    Meets I J (structMembers t blittable taken ps) fun ms =>
      ∀ x ∈ ms.flatMap StructMember.texts, Given σ x := by
  refine (each_structMember h.tell (fun p _ => (h.given _).imp fun _ _ => trivial)
    (fun _ _ _ hx => absurd hx List.not_mem_nil) (fun p hp name named relaxed => ?_) blittable
    taken).imp fun _ texts => List.forall_mem_flatMap.2 texts.1
  obtain ⟨held, fits⟩ := passed p hp
  refine (mirrorField h held fits (given_of_named held named) relaxed).imp fun field given => ?_
  exact List.forall_mem_cons.2 ⟨given.1, List.forall_mem_singleton.2 given.2⟩

theorem mirroring : Meets I J (mirroring t ps) fun m =>
    (∀ x ∈ (m.inputs ++ m.outputs).flatMap Statement.texts, Given σ x) ∧
      m.construction = staticConstructor t ps [] [] := by
  have null : Given σ "null" := NamedIn.plain (by decide)
  have good (p : Property) (hp : p ∈ ps) : σ.Holds p ∧ p.Fits σ :=
    ⟨(passed p hp).1, (passed p hp).2.toFits⟩
  refine (statements good fun p held fits => ?_).bind fun inputs read =>
    (statements good fun p held fits => ?_).bind fun outputs written => .pure ⟨?_, rfl⟩
  · exact readInto h held fits null (NamedIn.plain (by decide)) (by simp)
      (NamedIn.closed (GivenName.property held _).given (by decide))
  · exact writeFrom h held fits null (NamedIn.plain (by decide)) (by simp)
      (GivenName.property held _).given
  · rw [List.flatMap_append, List.forall_mem_append]
    exact ⟨read, written⟩

end

omit h in
theorem good_passed {id : TypeId} {ps : List Property} (passed : PassedOf σ id ps) :
    ∀ p ∈ ps, σ.Holds p ∧ p.Passable σ := by
  obtain ⟨declared, hdeclared, all⟩ := passed
  exact fun p hp => ⟨.inl ⟨id, by simpa [hdeclared] using (all p hp).1⟩, (all p hp).2⟩

omit h in
theorem constructor_typeName {t : TypeNode} {ps : List Property} {fs es : List Function} :
    ∀ c ∈ staticConstructor t ps fs es, c.typeName = scriptLabel t := by
  intro c hc
  unfold staticConstructor at hc
  dsimp only at hc
  split at hc
  · cases hc
  · cases hc
    rfl

theorem structUnit {id : TypeId} {ps : List Property} (passed : PassedOf σ id ps) :
    Meets I J (structUnit id (σ.type id) ps) fun unit => ∀ x ∈ unit.texts, Given σ x := by
  have name : Given σ (scriptLabel (σ.type id)) := (GivenName.type id).given
  have good := good_passed passed
  obtain ⟨declared, hdeclared, -⟩ := passed
  refine (spaceOf h id).bind fun _ _ => (h.measured id (by simp [hdeclared])).bind fun _ _ =>
    (structMembers h good _ []).bind fun _ shown => .optional (mirroring h good) fun m known =>
      .pure ?_
  cases m with
  | none => simpa [StructUnit.texts, StructUnit.construction, name] using shown
  | some y =>
    obtain ⟨statements, made⟩ := known y rfl
    refine List.forall_mem_append.2 ⟨List.forall_mem_append.2
      ⟨List.forall_mem_cons.2 ⟨name, fun x hx => ?_⟩, shown⟩, statements⟩
    rw [StructUnit.construction, Option.bind_some, made, Option.mem_toList,
      Option.map_eq_some_iff] at hx
    obtain ⟨c, hc, rfl⟩ := hx
    rwa [constructor_typeName c hc]

omit h

section
variable (attentive : Attentive False σ I J) {id : TypeId} {fs es : List Function}
  (own : ∀ f ∈ fs, f ∈ (σ.type id).functions ∧ DeclaredPassable σ f)
include attentive own

theorem wrappers (owner : Name) (isLibrary : Bool) : Meets I J (wrappers id owner isLibrary fs)
    fun ws => ∀ t ∈ ws.flatMap Wrapper.texts, Given σ t :=
  (each_wrapper (fun f hf => wrapper attentive.toCareful (own f hf).2 owner)
    (fun f hf => attentive.addExtension (own f hf).1 (own f hf).2) isLibrary).imp
      fun _ => List.forall_mem_flatMap.2

theorem classMembers {ps : List Property} (passed : PassedOf σ id ps)
    (all : ∀ f ∈ es, DeclaredPassable σ f) :
    Meets I J (classMembers id (σ.type id) ps fs es) fun members =>
      (∀ t ∈ members.2.1.flatMap WrapperProperty.texts, Given σ t) ∧
      (∀ t ∈ members.2.2.1.flatMap Wrapper.texts, Given σ t) ∧
      ∀ t ∈ members.2.2.2.flatMap EventStub.texts, Given σ t := by
  have h := attentive.toCareful
  refine (Meets.forM fun p _ => (h.given _).bind fun _ _ => .pure trivial).bind fun _ _ => ?_
  exact (wrapperProperties h (good_passed passed) []).bind fun _ properties => .get_bind fun _ _ =>
    (wrappers attentive own _ _).bind fun _ functions =>
      (collected fun f hf => eventStub h (all f hf) _).bind fun _ events =>
        .pure ⟨properties, functions, events⟩

end

end Given

end Session

end ScriptGlue
