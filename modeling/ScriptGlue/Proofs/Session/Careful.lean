import ScriptGlue.Proofs.Session.Fits
import ScriptGlue.Proofs.Session.Steady

/-! # Parts of members that fit

The makers of parts on members that fit. They ask only structs of the store for their layout, and if
all names are texts they never look for what is not there: whatever fault they end with has another
cause.
-/
namespace ScriptGlue
open ScriptGlue.Action

/-- Raised where something is asked of what does not have it: of a reference that leads nowhere or
to a type of the wrong variant, of an element that is not there, of a name that is no text. -/
def Fault.isUnsound : Fault → Bool
  | .missingKey => true
  | .missingPart => true
  | .wrongType => true
  | _ => false

/-- The directories are texts. -/
structure Packaging.Textual (p : Packaging) : Prop where
  scripts : p.scriptsDir.isText
  project : p.projectDir.isText
  content : p.generatedUserContent.isText

theorem Packaging.Textual.directory {p : Packaging} (h : p.Textual) (m : NativeModule) :
    ∃ directory, p.directory m = .ok directory ∧ directory.isText := by
  obtain ⟨project, hproject⟩ := Value.eq_text_of_isText h.project
  obtain ⟨content, hcontent⟩ := Value.eq_text_of_isText h.content
  unfold Packaging.directory userContentDir
  rw [hproject, hcontent]
  split
  · exact ⟨_, rfl, rfl⟩
  · exact ⟨_, rfl, h.scripts⟩

namespace Session

/-- An invariant of sessions over one store that the gate of properties keeps. It says nothing of
faults if it is not strict; if it is, every name is a text. -/
structure Watchful (strict : Prop) (σ : TypeStore) (I : Session → Prop)
    (J : Fault → Session → Prop) : Prop where
  store : ∀ s, I s → s.store = σ
  faulted : ∀ s e, I s → (strict → e.isUnsound = false) → J e s
  named : strict → σ.Named
  passed : ∀ s id ps, I s → s.acceptedProperties.lookup id = some ps → PassedOf σ id ps
  refused : ∀ s e, I s → I { s with rejections := e :: s.rejections }
  accepted : ∀ s id, s.acceptedProperties.lookup id = none → (σ.type id).properties?.isSome →
    I s → I (s.accepting id)

/-- An invariant that the makers of parts keep. If it is strict, every directory is a text too. -/
structure Careful (strict : Prop) (σ : TypeStore) (I : Session → Prop)
    (J : Fault → Session → Prop) : Prop extends Watchful strict σ I J where
  textual : strict → ∀ s, I s → s.packaging.Textual
  placed : strict → ∀ s, I s → ∀ m ∈ s.registry, m.directory.isText
  declared : strict → ∀ s name m, I s → s.findModule? name = some m → m.name.isKey
  recorded : ∀ s r, I s → I { s with workspace := s.workspace.record r }
  registered : ∀ s m directory, s.packaging.directory m = .ok directory → I s →
    I { s with registry := s.registry ++ [{ name := m.name, directory }] }
  measured : ∀ id, (σ.type id).properties?.isSome →
    Meets I J (isStructBlittable (some id)) fun _ => True

abbrev Tame {α : Type} (I : Session → Prop) (J : Fault → Session → Prop) (a : Generation α) : Prop :=
  Meets I J a fun _ => True

section
variable {s t : Session} {id : TypeId} {e : Fault}

theorem canExportParameters_ne_error {overridable : Bool} {ps : List Property} :
    canExportParameters overridable ps s ≠ (.error e, t) := by
  induction ps generalizing s with
  | nil => exact fun h => by cases h
  | cons p rest ih =>
    rw [canExportParameters_cons]
    split
    · exact ih
    · exact fun h => by cases h

end

namespace Watchful
variable {strict : Prop} {σ : TypeStore} {I : Session → Prop} {J : Fault → Session → Prop}
  (h : Watchful strict σ I J)
include h

theorem mild {α : Type} {Q : α → Prop} {e : Fault} (sound : e.isUnsound = false) :
    Meets I J (throw e : Generation α) Q := .throw fun s hs => h.faulted s e hs fun _ => sound

theorem ofExcept {α : Type} {r : Except Fault α} (ok : strict → ∃ x, r = .ok x) :
    Tame I J (Action.ofExcept r : Generation α) :=
  .ofExcept (fun _ _ => trivial) fun e he s hs => h.faulted s e hs fun hstrict => by
    obtain ⟨x, hx⟩ := ok hstrict
    cases hx.symm.trans he

theorem refusing {s : Session} (hs : I s) (refused : List (Category × PropertyKind)) :
    I (s.refusing refused) := by
  induction refused with
  | nil => exact hs
  | cons e rest ih => exact h.refused _ e ih

theorem exportedProperties {id : TypeId} (there : strict → (σ.type id).properties?.isSome) :
    Meets I J (exportedProperties id) (PassedOf σ id) where
  result := by
    intro s t ps hs he
    cases known : s.acceptedProperties.lookup id with
    | some qs =>
      cases (exportedProperties_known known).symm.trans he
      exact ⟨h.passed s id ps hs known, hs⟩
    | none =>
      obtain ⟨declared, rfl, rfl⟩ := exportedProperties_new known he
      obtain ⟨qs, hqs⟩ := Option.isSome_iff_exists.1 declared
      refine ⟨h.store s hs ▸ passedOf_passedProperties hqs, ?_⟩
      exact h.accepted _ id known (h.store s hs ▸ declared) (h.refusing hs _)
  fault := by
    intro s t e hs he
    obtain ⟨cause, refused, rfl⟩ := exportedProperties_error he
    refine h.faulted _ e (h.refusing hs refused) fun hstrict => ?_
    obtain ⟨declared, hdeclared⟩ := Option.isSome_iff_exists.1 (there hstrict)
    rw [h.store s hs] at cause
    obtain absent | ⟨ps, hps, p, hp, unkeyed⟩ := cause
    · cases hdeclared.symm.trans absent
    · have keyed := Value.isKey_of_isText ((h.named hstrict).property hps hp)
      cases keyed.symm.trans unkeyed

/-- Finding out the layout of a type with properties asks only for others that have some; it keeps
what every entry of the memo table keeps. -/
theorem isStructBlittable (noted : ∀ s e, I s → I { s with blittable := e :: s.blittable })
    {ref : Option TypeId} (there : strict → ∃ d, ref = some d ∧ (σ.type d).properties?.isSome) :
    Tame I J (isStructBlittable ref) := by
  have within (fuel : Nat) {ref : Option TypeId}
      (there : strict → ∃ d, ref = some d ∧ (σ.type d).properties?.isSome) :
      Tame I J (structBlittableWithin fuel ref) := by
    induction fuel generalizing ref with
    | zero => exact h.mild rfl
    | succ fuel ih =>
      have finish {ps : List Property} (good : ∀ p ∈ ps, p.Fits σ) : Tame I J (do
          let result ← ps.allM (isPropertyBlittable (structBlittableWithin fuel))
          modify fun s => { s with blittable := (ref, result) :: s.blittable }
          return result) := by
        refine (Meets.allM fun p hp => .ite (fun _ => ?_) fun _ => .pure trivial).bind fun _ _ =>
          (Meets.modify fun s hs => noted s _ hs).bind fun _ _ => .pure trivial
        unfold isValueBlittable
        split
        · exact .pure trivial
        · exact .pure trivial
        · next struct =>
          have refers := (good p hp).refers
          rw [struct] at refers
          exact ih fun _ => refers.properties
        · exact .pure trivial
      refine .get_bind fun s _ => ?_
      split
      · exact .pure trivial
      · refine (Meets.modify fun s hs => noted s _ hs).bind fun _ _ => ?_
        cases ref with
        | none =>
          refine Meets.bind (Q := fun _ => False) (.throw fun s hs => h.faulted s _ hs ?_)
            fun _ absent => absent.elim
          intro hstrict
          obtain ⟨d, hd, -⟩ := there hstrict
          cases hd
        | some id =>
          refine (h.exportedProperties fun hstrict => ?_).bind fun ps passed => finish ?_
          · obtain ⟨d, hd, properties⟩ := there hstrict
            cases hd
            exact properties
          · obtain ⟨_, _, all⟩ := passed
            exact fun p hp => (all p hp).2.toFits
  exact .get_bind fun _ _ => within _ there

end Watchful

section
variable {σ : TypeStore} {I : Session → Prop} {J : Fault → Session → Prop}
  (h : Watchful False σ I J) {α : Type}
include h

theorem Watchful.fails {Q : α → Prop} {e : Fault} : Meets I J (throw e : Generation α) Q :=
  .throw fun s hs => h.faulted s e hs False.elim

theorem Watchful.given (r : Except Fault α) :
    Meets I J (Action.ofExcept r : Generation α) fun x => r = .ok x :=
  .ofExcept (fun _ found => found) fun e _ s hs => h.faulted s e hs False.elim

end

namespace Careful
variable {strict : Prop} {σ : TypeStore} {I : Session → Prop} {J : Fault → Session → Prop}
  (h : Careful strict σ I J)
include h

theorem tell (level : Level) (source : Source) (text : String) :
    Tame I J (tell level source text) where
  result hs he := by
    cases he
    exact ⟨trivial, h.recorded _ _ hs⟩
  fault _ he := by cases he

theorem register {m : NativeModule} (hm : strict → m.name.isKey) :
    Meets I J (register m) fun added => strict → added.directory.isText where
  result := by
    intro s t added hs he
    rw [register_apply] at he
    split at he
    · split at he
      · next known =>
        cases he
        exact ⟨fun hstrict => h.placed hstrict s hs _ (List.mem_of_find?_eq_some known), hs⟩
      · split at he
        · cases he
        · next directory found =>
          split at he
          · cases he
            refine ⟨fun hstrict => ?_, h.recorded _ _ (h.registered s m directory found hs)⟩
            obtain ⟨d, hd, text⟩ := (h.textual hstrict s hs).directory m
            cases found.symm.trans hd
            exact text
          · cases he
    · cases he
  fault := by
    intro s t e hs he
    rw [register_apply] at he
    split at he
    · split at he
      · cases he
      · split at he
        · next failed =>
          cases he
          refine h.faulted _ _ hs fun hstrict => ?_
          obtain ⟨d, hd, -⟩ := (h.textual hstrict s hs).directory m
          cases failed.symm.trans hd
        · split at he
          · cases he
          · cases he
            exact h.faulted _ _ hs fun _ => rfl
    · next unkeyed =>
      cases he
      exact h.faulted _ _ hs fun hstrict => absurd (hm hstrict) unkeyed

theorem registerByName {name : Name} (hname : strict → name.isText) :
    Meets I J (registerByName name) fun added => strict → added.directory.isText := by
  refine Meets.bind (Q := fun x => strict → x.isKey) (.ofExcept ?_ ?_) fun x hx => h.register hx
  · intro x hx hstrict
    obtain ⟨word, rfl⟩ := Value.eq_text_of_isText (hname hstrict)
    cases hx
    rfl
  · intro e he s hs
    refine h.faulted s e hs fun hstrict => ?_
    obtain ⟨word, rfl⟩ := Value.eq_text_of_isText (hname hstrict)
    cases he

theorem spaceOf {t : TypeNode} (ht : strict → t.home.name.isKey) : Tame I J (spaceOf t) :=
  (h.register ht).bind fun _ _ => .pure trivial

theorem typeAt (id : TypeId) : Meets I J (typeAt id) fun t => t = σ.type id :=
  .get_bind fun s hs => .pure (by rw [h.store s hs])

theorem home (id : TypeId) (hstrict : strict) : (σ.type id).home.name.isKey :=
  (h.named hstrict).home id

theorem qualifiedName (id : TypeId) : Tame I J (qualifiedName id) := by
  refine (h.typeAt id).bind ?_
  rintro t rfl
  exact (h.spaceOf (h.home id)).bind fun _ _ => .pure trivial

theorem qualifiedRef {ref : Option TypeId} {good : TypeId → Prop}
    (there : ∃ d, ref = some d ∧ good d) : Tame I J (qualifiedRef ref) := by
  obtain ⟨d, rfl, -⟩ := there
  exact h.qualifiedName d

theorem simpleType {kind : PropertyKind} {refName : Value} {ref : Option TypeId}
    (refers : RefersRight σ kind ref) :
    Meets I J (simpleType kind refName ref) fun type => kind.isDelegate = false → type.isText := by
  unfold Session.simpleType
  cases kind
  case delegate => exact .pure (by simp [PropertyKind.isDelegate])
  case multicastDelegate => exact .pure (by simp [PropertyKind.isDelegate])
  all_goals first
    | exact .pure fun _ => rfl
    | exact (h.qualifiedRef refers).bind fun _ _ => .pure fun _ => rfl

omit h in
theorem typeArguments {types : List Name} (texts : ∀ type ∈ types, type.isText) :
    Tame I J (typeArguments types) := by
  have there : ∃ words, types.mapM Value.text? = some words := by
    induction types with
    | nil => exact ⟨[], rfl⟩
    | cons type rest ih =>
      obtain ⟨word, hword⟩ := Value.eq_text_of_isText (texts type List.mem_cons_self)
      obtain ⟨words, hwords⟩ := ih fun type ht => texts type (List.mem_cons_of_mem _ ht)
      exact ⟨word :: words, by rw [List.mapM_cons, hword, hwords]; rfl⟩
  obtain ⟨words, hwords⟩ := there
  unfold Session.typeArguments
  rw [hwords]
  exact .pure trivial

omit h in
theorem typeName_single {p : Property} (single : p.kind.isContainer = false) :
    typeName p = Session.simpleType p.kind p.refName p.ref := by
  obtain ⟨name, kind, dim, refName, ref, inner, value, flags, metadata, owner⟩ := p
  unfold Session.typeName
  cases kind <;> first | rfl | cases single

theorem elementTypeName {e : Option Property} (element : ∃ q, e = some q ∧ q.IsElement σ) :
    Meets I J (elementTypeName e) fun type => type.isText := by
  obtain ⟨q, rfl, element⟩ := element
  unfold Session.elementTypeName
  rw [typeName_single element.single]
  exact (h.simpleType element.refers).imp fun _ text => text element.value

theorem typeName {p : Property} (fits : p.Fits σ) :
    Meets I J (typeName p) fun type => p.kind.isDelegate = false → type.isText := by
  cases single : p.kind.isContainer with
  | false =>
    rw [typeName_single single]
    exact h.simpleType fits.refers
  | true =>
    have elements := fits.elements single
    obtain ⟨name, kind, dim, refName, ref, inner, value, flags, metadata, owner⟩ := p
    have one (e : Option Property) (he : e ∈ Property.elements
        ⟨name, kind, dim, refName, ref, inner, value, flags, metadata, owner⟩) :=
      h.elementTypeName (elements e he)
    unfold Session.typeName
    cases kind
    case array =>
      exact (one inner (by simp [Property.elements])).bind fun _ text =>
        (typeArguments (by simpa using text)).bind fun _ _ => .pure fun _ => rfl
    case set =>
      exact (one inner (by simp [Property.elements])).bind fun _ text =>
        (typeArguments (by simpa using text)).bind fun _ _ => .pure fun _ => rfl
    case map =>
      exact (one inner (by simp [Property.elements])).bind fun _ key =>
        (one value (by simp [Property.elements])).bind fun _ text =>
          (typeArguments (by simpa using ⟨key, text⟩)).bind fun _ _ => .pure fun _ => rfl
    all_goals cases single

theorem scriptType {p : Property} (fits : p.Fits σ) : Tame I J (scriptType p) :=
  (h.typeName fits).bind fun _ _ => .pure trivial

theorem simpleMarshaller {kind : PropertyKind} {refName : Value} {ref : Option TypeId}
    (refers : RefersRight σ kind ref) : Tame I J (simpleMarshaller kind refName ref) := by
  unfold Session.simpleMarshaller
  cases kind
  case struct =>
    obtain ⟨d, rfl, properties⟩ := refers.properties
    exact (h.measured d properties).bind fun _ _ => (h.qualifiedName d).bind fun _ _ => .pure trivial
  all_goals first
    | exact .pure trivial
    | exact (h.qualifiedRef refers).bind fun _ _ => .pure trivial

theorem elementTypes {es : List (Option Property)}
    (elements : ∀ e ∈ es, ∃ q, e = some q ∧ q.IsElement σ) : Tame I J (elementTypes es) :=
  (Meets.mapM fun e he => h.elementTypeName (elements e he)).bind fun _ texts => typeArguments texts

omit h in
theorem marshallerAt_single {p : Property} (single : p.kind.isContainer = false) (slot : String) :
    marshallerAt p slot = Session.simpleMarshaller p.kind p.refName p.ref := by
  obtain ⟨name, kind, dim, refName, ref, inner, value, flags, metadata, owner⟩ := p
  unfold Session.marshallerAt
  cases kind <;> first | rfl | cases single

theorem elementMarshaller {e : Option Property} (element : ∃ q, e = some q ∧ q.IsElement σ) :
    Tame I J (elementMarshaller e) := by
  obtain ⟨q, rfl, element⟩ := element
  unfold Session.elementMarshaller
  rw [marshallerAt_single element.single]
  exact h.simpleMarshaller element.refers

theorem marshallerAt {p : Property} (fits : p.Fits σ) (slot : String) :
    Tame I J (marshallerAt p slot) := by
  cases single : p.kind.isContainer with
  | false =>
    rw [marshallerAt_single single]
    exact h.simpleMarshaller fits.refers
  | true =>
    have elements := fits.elements single
    obtain ⟨name, kind, dim, refName, ref, inner, value, flags, metadata, owner⟩ := p
    unfold Session.marshallerAt
    cases kind
    case array =>
      exact (h.elementMarshaller (elements inner (by simp [Property.elements]))).bind fun _ _ =>
        (h.elementTypes (by simpa [Property.elements] using elements)).bind fun _ _ => .pure trivial
    case set =>
      exact (h.elementMarshaller (elements inner (by simp [Property.elements]))).bind fun _ _ =>
        (h.elementTypes (by simpa [Property.elements] using elements)).bind fun _ _ => .pure trivial
    case map =>
      exact (h.elementMarshaller (elements inner (by simp [Property.elements]))).bind fun _ _ =>
        (h.elementMarshaller (elements value (by simp [Property.elements]))).bind fun _ _ =>
          (h.elementTypes (by simpa [Property.elements] using elements)).bind fun _ _ =>
            .pure trivial
    all_goals cases single

theorem marshaller {p : Property} (fits : p.Fits σ) (slot : String) : Tame I J (marshaller p slot) :=
  h.marshallerAt fits _

theorem transfer {p : Property} (fits : p.Fits σ) (slot owner buffer : String)
    (displacement : Displacement) : Tame I J (transfer p slot owner buffer displacement) :=
  (h.marshaller fits slot).bind fun _ _ => .pure trivial

theorem readInto {p : Property} (fits : p.Fits σ) (slot owner buffer : String)
    (displacement : Displacement) (assignment : String) :
    Tame I J (readInto p slot owner buffer displacement assignment) := by
  refine (h.transfer fits slot owner buffer displacement).bind fun _ _ => ?_
  exact .ite (fun _ => (h.scriptType fits).bind fun _ _ => .pure trivial)
    fun _ => Meets.bind (Q := fun _ => True) (.pure trivial) fun _ _ => .pure trivial

theorem writeFrom {p : Property} (fits : p.Fits σ) (slot owner buffer : String)
    (displacement : Displacement) (source : String) :
    Tame I J (writeFrom p slot owner buffer displacement source) :=
  (h.transfer fits slot owner buffer displacement).bind fun _ _ => .pure trivial

theorem parameter {p : Property} (fits : p.Fits σ) (name : strict → p.name.isText) :
    Tame I J (parameter p) :=
  (h.scriptType fits).bind fun _ _ =>
    (h.ofExcept fun hstrict => Naming.parameter_ok (name hstrict) p.kind).bind fun _ _ =>
      .pure trivial

section
variable {f : Function} (good : DeclaredPassable σ f)
include good

omit h in
theorem fits_of_mem_arguments {p : Property} (hp : p ∈ f.arguments) : p.Fits σ :=
  (good.passable p (List.mem_of_mem_filter hp)).1

omit h in
theorem fits_of_returned {p : Property} (hp : p ∈ f.returned?.toList) : p.Fits σ :=
  (good.passable p (List.mem_of_find?_eq_some (Option.mem_toList.1 hp))).1

theorem param_text {p : Property} (hp : p ∈ f.params) (hstrict : strict) : p.name.isText :=
  (h.named hstrict).param good.declared hp

theorem parameters : Tame I J (f.arguments.mapM Session.parameter) :=
  (Meets.mapM fun _ hp => h.parameter (fits_of_mem_arguments good hp) fun hstrict =>
    h.param_text good (List.mem_of_mem_filter hp) hstrict).imp fun _ _ => trivial

theorem returnType : Tame I J (returnType f) := by
  unfold Session.returnType
  split
  · next p returned => exact h.scriptType (fits_of_returned good (by simp [returned]))
  · exact .pure trivial

theorem functionName {owner : Name} (text : strict → owner.isText) :
    Tame I J (Action.ofExcept (functionName f owner) : Generation Name) :=
  h.ofExcept fun hstrict =>
    Naming.function_ok ((h.named hstrict).function good.declared) (text hstrict)

theorem wrapperExchange : Tame I J (wrapperExchange f) :=
  Meets.bind (Meets.mapM fun _ hp => h.writeFrom
      (fits_of_mem_arguments good (List.mem_of_mem_filter hp)) _ _ _ _ _) fun _ _ =>
    (Meets.mapM fun _ hp => h.readInto
      (fits_of_mem_arguments good (List.mem_of_mem_filter hp)) _ _ _ _ _).bind fun _ _ =>
      (Meets.mapM fun _ hp => h.readInto (fits_of_returned good hp) _ _ _ _ _).bind fun _ _ =>
        .pure trivial

theorem wrapper {owner : Name} (text : strict → owner.isText) : Tame I J (wrapper f owner) := by
  refine (h.functionName good text).bind fun _ _ => (h.returnType good).bind fun _ _ =>
    (h.parameters good).bind fun _ _ => ?_
  exact .ite (fun _ => Meets.bind (Q := fun _ => True) (.pure trivial) fun _ _ => .pure trivial)
    fun _ => Meets.bind (Q := fun _ => True)
      ((h.wrapperExchange good).map fun _ _ => trivial) fun _ _ => .pure trivial

theorem eventInput {p : Property} (hp : p ∈ f.arguments) : Tame I J (eventInput f p) :=
  (h.scriptType (fits_of_mem_arguments good hp)).bind fun _ _ => .ite (fun _ => .pure trivial)
    fun _ => h.readInto (fits_of_mem_arguments good hp) _ _ _ _ _

theorem eventStub {owner : Name} (text : strict → owner.isText) : Tame I J (eventStub f owner) :=
  (h.functionName good text).bind fun _ _ => (h.returnType good).bind fun _ _ =>
    (h.parameters good).bind fun _ _ =>
      (Meets.mapM fun _ hp => h.eventInput good hp).bind fun _ _ =>
        (Meets.mapM fun _ hp => h.writeFrom
          (fits_of_mem_arguments good (List.mem_of_mem_filter hp)) _ _ _ _ _).bind fun _ _ =>
          (Meets.mapM fun _ hp => h.writeFrom (fits_of_returned good hp) _ _ _ _ _).bind fun _ _ =>
            .pure trivial

theorem interfaceMethod {owner : Name} (text : strict → owner.isText) :
    Tame I J (interfaceMethod f owner) :=
  (h.functionName good text).bind fun _ _ => (h.returnType good).bind fun _ _ =>
    (h.parameters good).bind fun _ _ => .pure trivial

end

theorem wrapperProperty {p : Property} (fits : p.Fits σ) (name : String) (relaxed forced : Bool) :
    Tame I J (wrapperProperty p name relaxed forced) :=
  (h.scriptType fits).bind fun _ _ => (h.marshaller fits _).bind fun _ _ => .pure trivial

theorem mirrorField {p : Property} (good : p.Passable σ) (name : String) (relaxed : Bool) :
    Tame I J (mirrorField p name relaxed) := by
  refine (h.typeName good.toFits).bind fun type text => ?_
  refine Meets.bind (Q := fun _ => True) (h.ofExcept fun _ => ?_) fun _ _ => .pure trivial
  split
  · next fixed =>
    obtain ⟨word, rfl⟩ := Value.eq_text_of_isText (text (good.value_of_fixed fixed))
    exact ⟨_, rfl⟩
  · exact ⟨type, rfl⟩

section
variable (plain : strict → σ.Plain)
include plain

theorem canExportFunction (owner : TypeNode) {f : Function} (declared : ∃ d, f ∈ (σ.type d).functions) :
    Tame I J (canExportFunction owner f) := by
  constructor
  · intro s t passed hs he
    obtain ⟨-, refused, rfl⟩ := canExportFunction_ok he
    exact ⟨trivial, h.refusing hs refused⟩
  · intro s t e hs he
    rw [canExportFunction_apply] at he
    split at he
    · split at he
      · cases canExportParameters_ne_error he
      · cases he
    · next unasked =>
      cases he
      refine h.faulted s _ hs fun hstrict => absurd ?_ unasked
      obtain ⟨d, hd⟩ := declared
      have keyed := Value.isKey_of_isText ((h.named hstrict).function ⟨d, hd⟩)
      have category := (plain hstrict d (TypeStore.lt_size_of_mem_functions hd)).categories f hd
      simp [Policy.canAskFunction, keyed, category]

theorem gateFunctions (owner : TypeNode) {fs : List Function}
    (declared : ∀ f ∈ fs, ∃ d, f ∈ (σ.type d).functions) : Tame I J (gateFunctions owner fs) := by
  induction fs with
  | nil => exact .pure trivial
  | cons f rest ih =>
    exact (h.canExportFunction plain owner (declared f List.mem_cons_self)).bind fun _ _ =>
      (ih fun g hg => declared g (List.mem_cons_of_mem _ hg)).bind fun _ _ => .pure trivial

theorem addEvents (interface : TypeNode) {events fs : List Function}
    (declared : ∀ f ∈ fs, ∃ d, f ∈ (σ.type d).functions) :
    Tame I J (addEvents interface events fs) := by
  induction fs generalizing events with
  | nil => exact .pure trivial
  | cons f rest ih =>
    have others := fun g hg => declared g (List.mem_cons_of_mem f hg)
    unfold Session.addEvents
    split
    · exact ih others
    · exact (h.canExportFunction plain interface (declared f List.mem_cons_self)).bind fun _ _ =>
        ih others

theorem addInterfaceEvents (events : List Function) (ids : List TypeId) :
    Tame I J (addInterfaceEvents σ events ids) := by
  induction ids generalizing events with
  | nil => exact .pure trivial
  | cons id rest ih =>
    exact (h.addEvents plain _ fun f hf => ⟨id, hf⟩).bind fun _ _ => ih _

/-- The functions and events that passed the gate are declared and passable. -/
theorem exportedFunctions (id : TypeId) :
    Meets I J (exportedFunctions (σ.type id)) fun split =>
      (∀ f ∈ split.1, f ∈ (σ.type id).functions ∧ DeclaredPassable σ f) ∧
        ∀ f ∈ split.2, DeclaredPassable σ f := by
  have tame : Tame I J (Session.exportedFunctions (σ.type id)) := by
    refine (h.gateFunctions plain (σ.type id) fun f hf => ⟨id, hf⟩).bind fun _ _ => ?_
    refine Meets.get_bind fun s hs => ?_
    rw [h.store s hs]
    exact (h.addInterfaceEvents plain _ _).bind fun _ _ => .pure trivial
  refine ⟨fun {s t split} hs he => ⟨?_, (tame.result hs he).2⟩, tame.fault⟩
  obtain ⟨rfl, -⟩ := exportedFunctions_ok he
  rw [← h.store s hs]
  exact ⟨fun f hf => ⟨List.mem_of_mem_filter hf, declaredPassable_of_passed hf⟩,
    fun f hf => declaredPassable_of_event hf⟩

end

end Careful

end Session

end ScriptGlue
