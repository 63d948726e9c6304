import ScriptGlue.Proofs.Session.Dependencies

/-! # What the making of units leaves alone

The gates count refusals and remember the properties that pass. Making the parts of a unit also
records, registers modules and finds out native layouts, and does nothing else to a session. An
invariant that these changes keep is steady, and the gates and the makers of parts keep it. Asking
for the properties of a type is one change, in which refusals are counted and a list is remembered
together.
-/
namespace ScriptGlue.Session
open ScriptGlue.Action

/-- An invariant that the questions about members keep; a fault may leave less. -/
structure Asking (I J : Session → Prop) : Prop where
  faulted : ∀ s, I s → J s
  refused : ∀ s e, e.1 ≠ .properties → I s → I { s with rejections := e :: s.rejections }
  exportedProperties : ∀ id, Keeps I J (exportedProperties id)

structure Gated (I J : Session → Prop) : Prop where
  faulted : ∀ s, I s → J s
  refused : ∀ s e, I s → I { s with rejections := e :: s.rejections }
  accepted : ∀ s id, s.acceptedProperties.lookup id = none →
    (s.store.type id).properties?.isSome → I s → I (s.accepting id)

/-- An invariant that the makers of parts keep, where `H` holds of the modules that are
registered. -/
structure Steady (H : NativeModule → Prop) (I J : Session → Prop) : Prop extends Asking I J where
  recorded : ∀ s r, I s → I { s with workspace := s.workspace.record r }
  registered : ∀ s m directory, H m → m.name.isKey → s.registry.find? m.name = none →
    s.packaging.directory m = .ok directory → directory.truthy → I s →
    I { s with registry := s.registry ++ [{ name := m.name, directory }] }
  measured : ∀ ref, Keeps I J (isStructBlittable ref)
  home : ∀ s id, I s → H (s.store.type id).home
  declared : ∀ s name m, I s → s.findModule? name = some m → H m

namespace Gated
variable {I J : Session → Prop} (h : Gated I J)
include h

theorem reject (category : Category) (kind : PropertyKind) : Keeps I J (reject category kind) :=
  .modify fun s hs => h.refused s _ hs

theorem canExportProperty (owner : TypeNode) (p : Property) :
    Keeps I J (canExportProperty owner p) := by
  refine .ite ((Keeps.throw h.faulted _).bind fun _ => Keeps.get.bind fun s => ?_)
    (Keeps.get.bind fun s => ?_)
  all_goals
    split
    · exact .pure _
    · exact .pure _
    · exact (h.reject _ _).bind fun _ => .pure _

theorem gateProperties (owner : TypeNode) (ps : List Property) :
    Keeps I J (gateProperties owner ps) := by
  induction ps with
  | nil => exact .pure _
  | cons p rest ih => exact (h.canExportProperty owner p).bind fun _ => ih.bind fun _ => .pure _

theorem refusing {s : Session} (hs : I s) (refused : List (Category × PropertyKind)) :
    I (s.refusing refused) := by
  induction refused with
  | nil => exact hs
  | cons e rest ih => exact h.refused _ e ih

theorem exportedProperties (id : TypeId) : Keeps I J (exportedProperties id) := by
  constructor
  · intro s t x hs he
    cases hk : s.acceptedProperties.lookup id with
    | some ps => cases (exportedProperties_known hk).symm.trans he; exact hs
    | none =>
      obtain ⟨there, he'⟩ | ⟨e, u, he', -⟩ := exportedProperties_unknown hk <;>
        cases he'.symm.trans he
      exact h.accepted _ id hk there (h.refusing hs _)
  · intro s t e hs he
    cases hk : s.acceptedProperties.lookup id with
    | some ps => cases (exportedProperties_known hk).symm.trans he
    | none =>
      obtain ⟨-, he'⟩ | ⟨e, u, he', ⟨-, rfl⟩ | ⟨ps, -, gated⟩⟩ := exportedProperties_unknown hk <;>
        cases he'.symm.trans he
      · exact h.faulted _ hs
      · exact (h.gateProperties _ ps).fault hs gated

theorem asking : Asking I J where
  faulted := h.faulted
  refused s e _ := h.refused s e
  exportedProperties := h.exportedProperties

end Gated

theorem parameterRole_ne_properties (overridable : Bool) (p : Property) :
    (parameterRole overridable p).2 ≠ .properties := by
  unfold parameterRole
  split <;> exact Category.noConfusion

namespace Asking
variable {I J : Session → Prop} (h : Asking I J)
include h

theorem reject {category : Category} (other : category ≠ .properties) (kind : PropertyKind) :
    Keeps I J (reject category kind) := .modify fun s hs => h.refused s _ other hs

theorem canExportParameters (overridable : Bool) (ps : List Property) :
    Keeps I J (canExportParameters overridable ps) := by
  induction ps with
  | nil => exact .pure _
  | cons p rest ih =>
    exact Keeps.get.bind fun s =>
      .ite ih ((h.reject (parameterRole_ne_properties overridable p) _).bind fun _ => .pure _)

theorem canExportFunction (owner : TypeNode) (f : Function) :
    Keeps I J (canExportFunction owner f) := by
  refine Keeps.get.bind fun s => ?_
  have asked : Keeps I J (if admitsFunction s.policy owner.name f then
      Session.canExportParameters (f.has .blueprintEvent) f.params else return false) :=
    .ite (h.canExportParameters _ _) (.pure _)
  exact .ite ((Keeps.throw h.faulted _).bind fun _ => asked) asked

theorem gateFunctions (owner : TypeNode) (fs : List Function) :
    Keeps I J (gateFunctions owner fs) := by
  induction fs with
  | nil => exact .pure _
  | cons f rest ih => exact (h.canExportFunction owner f).bind fun _ => ih.bind fun _ => .pure _

theorem addEvents (interface : TypeNode) (events fs : List Function) :
    Keeps I J (addEvents interface events fs) := by
  induction fs generalizing events with
  | nil => exact .pure _
  | cons f rest ih =>
    unfold Session.addEvents
    split
    · exact ih _
    · exact (h.canExportFunction interface f).bind fun _ => ih _

theorem addInterfaceEvents (store : TypeStore) (events : List Function) (ids : List TypeId) :
    Keeps I J (addInterfaceEvents store events ids) := by
  induction ids generalizing events with
  | nil => exact .pure _
  | cons id rest ih => exact (h.addEvents _ _ _).bind fun _ => ih _

theorem exportedFunctions (t : TypeNode) : Keeps I J (exportedFunctions t) :=
  (h.gateFunctions t _).bind fun _ => Keeps.get.bind fun _ =>
    (h.addInterfaceEvents _ _ _).bind fun _ => .pure _

omit h in
theorem isPropertyBlittable {struct : Option TypeId → Generation Bool}
    (hs : ∀ ref, Keeps I J (struct ref)) (p : Property) :
    Keeps I J (isPropertyBlittable struct p) := by
  refine .ite ?_ (.pure _)
  unfold isValueBlittable
  split
  · exact .pure _
  · exact .pure _
  · exact hs _
  · exact .pure _

/-- Finding out native layouts keeps what every entry of the memo table keeps. -/
theorem structBlittableWithin (noted : ∀ s e, I s → I { s with blittable := e :: s.blittable })
    (fuel : Nat) (ref : Option TypeId) : Keeps I J (structBlittableWithin fuel ref) := by
  induction fuel generalizing ref with
  | zero => exact .throw h.faulted _
  | succ fuel ih =>
    refine Keeps.get.bind fun s => ?_
    split
    · exact .pure _
    · refine (Keeps.modify fun s hs => noted s _ hs).bind fun _ => ?_
      have found (ps : List Property) : Keeps I J (do
          let result ← ps.allM (Session.isPropertyBlittable (Session.structBlittableWithin fuel))
          modify fun s => { s with blittable := (ref, result) :: s.blittable }
          return result) :=
        (Keeps.allM fun p _ => isPropertyBlittable ih p).bind fun _ =>
          (Keeps.modify fun s hs => noted s _ hs).bind fun _ => .pure _
      cases ref with
      | none => exact (Keeps.throw h.faulted _).bind found
      | some id => exact (h.exportedProperties id).bind found

theorem isStructBlittable (noted : ∀ s e, I s → I { s with blittable := e :: s.blittable })
    (ref : Option TypeId) : Keeps I J (isStructBlittable ref) :=
  Keeps.get.bind fun _ => h.structBlittableWithin noted _ ref

end Asking

/-- Finding out native layouts keeps what each change of a gate and every entry of the memo table
keep. -/
theorem Gated.isStructBlittable {I J : Session → Prop} (h : Gated I J)
    (noted : ∀ s e, I s → I { s with blittable := e :: s.blittable }) (ref : Option TypeId) :
    Keeps I J (isStructBlittable ref) := h.asking.isStructBlittable noted ref

def registering (s : Session) (m : OutputModule) : Session :=
  { s with
    registry := s.registry ++ [m]
    workspace := s.workspace.record
      ⟨.info, .modules, "  " ++ m.name.plain ++ " => " ++ m.directory.plain⟩ }

theorem register_apply (m : NativeModule) (s : Session) :
    register m s =
      if m.name.isKey then
        match s.registry.find? m.name with
        | some known => (.ok known, s)
        | none =>
          match s.packaging.directory m with
          | .error e => (.error e, s)
          | .ok directory =>
            if directory.truthy then
              (.ok { name := m.name, directory }, s.registering { name := m.name, directory })
            else (.error (.noDirectory m.name), s)
      else (.error .wrongType, s) := by
  unfold register Value.keyed
  cases key : m.name.isKey with
  | false => rfl
  | true =>
    simp only [↓reduceIte, bind_apply, get_apply, Action.ofExcept_apply]
    cases s.registry.find? m.name with
    | some known => rfl
    | none =>
      simp only [bind_apply, Action.ofExcept_apply]
      cases s.packaging.directory m with
      | error e => rfl
      | ok directory =>
        simp only
        cases directory.truthy <;> rfl

theorem eq_of_named {v w : Value} (h : v.named = .ok w) : w = v := by
  unfold Value.named at h
  split at h <;> cases h
  rfl

theorem register_of_registerByName {name : Name} {m : OutputModule} {s t : Session}
    (h : registerByName name s = (.ok m, t)) : register { name } s = (.ok m, t) := by
  obtain ⟨found, _, asked, h⟩ := bind_eq_ok.1 h
  obtain ⟨named, rfl⟩ := ofExcept_eq_ok.1 asked
  rwa [eq_of_named named] at h

theorem find?_grows {r q : Registry} (h : r <+: q) {name : Name} {m : OutputModule}
    (found : r.find? name = some m) : q.find? name = some m := by
  obtain ⟨more, rfl⟩ := h
  unfold Registry.find? at found ⊢
  rw [List.find?_append, found]
  rfl

theorem isSome_find?_grows {r q : Registry} (h : r <+: q) {name : Name}
    (found : (r.find? name).isSome) : (q.find? name).isSome := by
  obtain ⟨m, hm⟩ := Option.isSome_iff_exists.1 found
  rw [find?_grows h hm]
  rfl

def Nameable (H : NativeModule → Prop) (r : Registry) (name : Name) : Prop :=
  (r.find? name).isSome ∨ H { name }

theorem Nameable.grow {H : NativeModule → Prop} {r q : Registry} {name : Name}
    (h : Nameable H r name) (more : r <+: q) : Nameable H q name :=
  h.imp_left (isSome_find?_grows more)

namespace Steady
variable {H : NativeModule → Prop} {I J : Session → Prop} (h : Steady H I J)
include h

theorem tell (level : Level) (source : Source) (text : String) :
    Keeps I J (tell level source text) where
  result hs he := by
    cases he
    exact h.recorded _ _ hs
  fault _ he := by cases he

theorem register_of {m : NativeModule} (hm : ∀ s, I s → s.registry.find? m.name = none → H m) :
    Keeps I J (register m) := by
  constructor
  · intro s t known hs he
    rw [register_apply] at he
    split at he
    · next key =>
      split at he
      · cases he
        exact hs
      · next unknown =>
        split at he
        · cases he
        · next directory found =>
          split at he
          · next truthy =>
            cases he
            exact h.recorded _ _
              (h.registered s m directory (hm s hs unknown) key unknown found truthy hs)
          · cases he
    · cases he
  · intro s t e hs he
    have : s = t := by
      rw [register_apply] at he
      split at he
      · split at he
        · cases he
        · split at he
          · cases he
            rfl
          · split at he
            · cases he
            · cases he
              rfl
      · cases he
        rfl
    exact this ▸ h.faulted s hs

theorem register {m : NativeModule} (hm : H m) : Keeps I J (register m) :=
  h.register_of fun _ _ _ => hm

theorem registerByName {name : Name} (known : ∀ s, I s → Nameable H s.registry name) :
    Keeps I J (registerByName name) := by
  refine Keeps.ofExcept_bind h.faulted fun x hx => h.register_of fun s hs unknown => ?_
  exact (eq_of_named hx ▸ known s hs).resolve_left (by simp [unknown])

theorem spaceOf {t : TypeNode} (ht : H t.home) : Keeps I J (spaceOf t) :=
  (h.register ht).bind fun _ => .pure _

theorem typeAt_bind {β : Type} {id : TypeId} {f : TypeNode → Generation β}
    (hf : ∀ s, I s → H (s.store.type id).home → Keeps I J (f (s.store.type id))) :
    Keeps I J (typeAt id >>= f) := Keeps.get_bind fun s hs => hf s hs (h.home s id hs)

theorem qualifiedName (id : TypeId) : Keeps I J (qualifiedName id) :=
  h.typeAt_bind fun _ _ housed => (h.spaceOf housed).bind fun _ => .pure _

theorem qualifiedRef (ref : Option TypeId) : Keeps I J (qualifiedRef ref) := by
  cases ref with
  | none => exact .throw h.faulted _
  | some id => exact h.qualifiedName id

theorem simpleType (kind : PropertyKind) (refName : Value) (ref : Option TypeId) :
    Keeps I J (simpleType kind refName ref) := by
  unfold Session.simpleType
  split
  all_goals first
    | exact .pure _
    | exact (h.qualifiedRef ref).bind fun _ => .pure _

theorem typeArguments (types : List Name) : Keeps I J (typeArguments types) := by
  unfold Session.typeArguments
  split
  · exact .pure _
  · exact .throw h.faulted _

mutual

theorem typeName : ∀ p : Property, Keeps I J (typeName p)
  | ⟨_, kind, _, refName, ref, inner, value, _, _, _⟩ => by
    unfold Session.typeName
    split
    · exact (elementTypeName inner).bind fun _ => (h.typeArguments _).bind fun _ => .pure _
    · exact (elementTypeName inner).bind fun _ => (h.typeArguments _).bind fun _ => .pure _
    · exact (elementTypeName inner).bind fun _ => (elementTypeName value).bind fun _ =>
        (h.typeArguments _).bind fun _ => .pure _
    · exact h.simpleType _ _ _

theorem elementTypeName : ∀ p : Option Property, Keeps I J (elementTypeName p)
  | some p => typeName p
  | none => .throw h.faulted _

end

theorem scriptType (p : Property) : Keeps I J (scriptType p) := (h.typeName p).bind fun _ => .pure _

theorem simpleMarshaller (kind : PropertyKind) (refName : Value) (ref : Option TypeId) :
    Keeps I J (simpleMarshaller kind refName ref) := by
  unfold Session.simpleMarshaller
  split
  all_goals first
    | exact .pure _
    | exact (h.qualifiedRef ref).bind fun _ => .pure _
    | exact (h.measured ref).bind fun _ => (h.qualifiedRef ref).bind fun _ => .pure _

theorem elementTypes (elements : List (Option Property)) : Keeps I J (elementTypes elements) :=
  (Keeps.mapM fun e _ => h.elementTypeName e).bind fun _ => h.typeArguments _

mutual

theorem marshallerAt : ∀ (p : Property) (slot : String), Keeps I J (marshallerAt p slot)
  | ⟨_, kind, _, refName, ref, inner, value, _, _, _⟩, slot => by
    unfold Session.marshallerAt
    split
    · exact (elementMarshaller inner).bind fun _ => (h.elementTypes _).bind fun _ => .pure _
    · exact (elementMarshaller inner).bind fun _ => (h.elementTypes _).bind fun _ => .pure _
    · exact (elementMarshaller inner).bind fun _ => (elementMarshaller value).bind fun _ =>
        (h.elementTypes _).bind fun _ => .pure _
    · exact h.simpleMarshaller _ _ _

theorem elementMarshaller : ∀ p : Option Property, Keeps I J (elementMarshaller p)
  | some p => marshallerAt p _
  | none => .throw h.faulted _

end

theorem marshaller (p : Property) (slot : String) : Keeps I J (marshaller p slot) :=
  h.marshallerAt p _

theorem transfer (p : Property) (slot owner buffer : String) (displacement : Displacement) :
    Keeps I J (transfer p slot owner buffer displacement) :=
  (h.marshaller p slot).bind fun _ => .pure _

theorem readInto (p : Property) (slot owner buffer : String) (displacement : Displacement)
    (assignment : String) : Keeps I J (readInto p slot owner buffer displacement assignment) := by
  refine (h.transfer p slot owner buffer displacement).bind fun _ => ?_
  exact .ite ((h.scriptType p).bind fun _ => .pure _) ((Keeps.pure _).bind fun _ => .pure _)

theorem writeFrom (p : Property) (slot owner buffer : String) (displacement : Displacement)
    (source : String) : Keeps I J (writeFrom p slot owner buffer displacement source) :=
  (h.transfer p slot owner buffer displacement).bind fun _ => .pure _

theorem parameter (p : Property) : Keeps I J (parameter p) :=
  (h.scriptType p).bind fun _ => (Keeps.ofExcept h.faulted _).bind fun _ => .pure _

theorem returnType (f : Function) : Keeps I J (returnType f) := by
  unfold Session.returnType
  split
  · exact h.scriptType _
  · exact .pure _

theorem wrapperExchange (f : Function) : Keeps I J (wrapperExchange f) :=
  (Keeps.mapM fun _ _ => h.writeFrom _ _ _ _ _ _).bind fun _ =>
    (Keeps.mapM fun _ _ => h.readInto _ _ _ _ _ _).bind fun _ =>
      (Keeps.mapM fun _ _ => h.readInto _ _ _ _ _ _).bind fun _ => .pure _

theorem wrapper (f : Function) (owner : Name) : Keeps I J (wrapper f owner) := by
  refine (Keeps.ofExcept h.faulted _).bind fun _ => (h.returnType f).bind fun _ =>
    (Keeps.mapM fun p _ => h.parameter p).bind fun _ => ?_
  exact .ite ((Keeps.pure _).bind fun _ => .pure _)
    (((h.wrapperExchange f).map _).bind fun _ => .pure _)

theorem eventInput (f : Function) (p : Property) : Keeps I J (eventInput f p) :=
  (h.scriptType p).bind fun _ => .ite (.pure _) (h.readInto _ _ _ _ _ _)

theorem eventStub (f : Function) (owner : Name) : Keeps I J (eventStub f owner) :=
  (Keeps.ofExcept h.faulted _).bind fun _ => (h.returnType f).bind fun _ =>
    (Keeps.mapM fun p _ => h.parameter p).bind fun _ =>
      (Keeps.mapM fun p _ => h.eventInput f p).bind fun _ =>
        (Keeps.mapM fun _ _ => h.writeFrom _ _ _ _ _ _).bind fun _ =>
          (Keeps.mapM fun _ _ => h.writeFrom _ _ _ _ _ _).bind fun _ => .pure _

theorem interfaceMethod (f : Function) (owner : Name) : Keeps I J (interfaceMethod f owner) :=
  (Keeps.ofExcept h.faulted _).bind fun _ => (h.returnType f).bind fun _ =>
    (Keeps.mapM fun p _ => h.parameter p).bind fun _ => .pure _

theorem wrapperProperty (p : Property) (name : String) (relaxed forced : Bool) :
    Keeps I J (wrapperProperty p name relaxed forced) :=
  (h.scriptType p).bind fun _ => (h.marshaller p _).bind fun _ => .pure _

theorem mirrorField (p : Property) (name : String) (relaxed : Bool) :
    Keeps I J (mirrorField p name relaxed) :=
  (h.typeName p).bind fun _ => (Keeps.ofExcept h.faulted _).bind fun _ => .pure _

theorem warnTaken (source : Source) (owner : TypeNode) (p : Property) (sort : String)
    (name : Name) : Keeps I J (warnTaken source owner p sort name) := h.tell _ _ _

theorem wrapperProperties (t : TypeNode) (taken : List Name) (ps : List Property) :
    Keeps I J (wrapperProperties t taken ps) := by
  induction ps generalizing taken with
  | nil => exact .pure _
  | cons p rest ih =>
    refine (Keeps.ofExcept h.faulted _).bind fun _ => .ite ?_ ?_
    · exact (h.warnTaken _ _ _ _ _).bind fun _ => ih _
    · exact Keeps.get.bind fun _ => (h.wrapperProperty _ _ _ _).bind fun _ =>
        (ih _).bind fun _ => .pure _

theorem superClassName (t : TypeNode) : Keeps I J (superClassName t) := by
  unfold Session.superClassName
  split
  · exact h.qualifiedName _
  · exact .pure _

theorem interfaceMethods (t : TypeNode) (fs : List Function) :
    Keeps I J (interfaceMethods t fs) := by
  induction fs with
  | nil => exact .pure _
  | cons f rest ih =>
    have shown : ∀ passed : Bool, Keeps I J (if passed then (do
        let shown ← Session.interfaceMethod f (scriptName t)
        let others ← Session.interfaceMethods t rest
        return shown :: others) else Session.interfaceMethods t rest) := fun passed =>
      .ite ((h.interfaceMethod f _).bind fun _ => ih.bind fun _ => .pure _) ih
    exact .ite ((h.canExportFunction t f).bind shown) ((Keeps.pure _).bind shown)

theorem interfaceUnit {t : TypeNode} (ht : H t.home) : Keeps I J (interfaceUnit t) := by
  refine (h.spaceOf ht).bind fun _ => ?_
  split
  · exact .throw h.faulted _
  · exact (h.interfaceMethods t _).bind fun _ => .pure _

theorem structMembers (t : TypeNode) (blittable : Bool) (taken : List Name) (ps : List Property) :
    Keeps I J (structMembers t blittable taken ps) := by
  induction ps generalizing taken with
  | nil => exact .pure _
  | cons p rest ih =>
    refine (Keeps.ofExcept h.faulted _).bind fun _ => .ite ?_ ?_
    · exact (h.warnTaken _ _ _ _ _).bind fun _ => (ih _).bind fun _ => .pure _
    · exact Keeps.get.bind fun _ => (h.mirrorField _ _ _).bind fun _ => (ih _).bind fun _ => .pure _

theorem mirroring (t : TypeNode) (ps : List Property) : Keeps I J (mirroring t ps) :=
  (Keeps.mapM fun _ _ => h.readInto _ _ _ _ _ _).bind fun _ =>
    (Keeps.mapM fun _ _ => h.writeFrom _ _ _ _ _ _).bind fun _ => .pure _

theorem structUnit (id : TypeId) {t : TypeNode} (ht : H t.home) (ps : List Property) :
    Keeps I J (structUnit id t ps) := by
  refine (h.spaceOf ht).bind fun _ => (h.measured _).bind fun _ =>
    (h.structMembers t _ _ ps).bind fun _ => ?_
  exact .ite ((Keeps.pure _).bind fun _ => .pure _) (((h.mirroring t ps).map _).bind fun _ => .pure _)

theorem enumUnit {t : TypeNode} (ht : H t.home) : Keeps I J (enumUnit t) := by
  refine (h.spaceOf ht).bind fun _ => ?_
  split
  · exact (Keeps.ofExcept h.faulted _).bind fun _ => Keeps.get.bind fun _ =>
      (Keeps.ofExcept h.faulted _).bind fun _ => .pure _
  · exact .throw h.faulted _

theorem overrideType (className : Name) : Keeps I J (overrideType className) := by
  refine Keeps.get_bind fun s hs => ?_
  split
  · exact h.qualifiedName _
  · dsimp only
    split
    · next declared => exact ((h.register (h.declared s _ _ hs declared)).map _).bind fun _ => .pure _
    · exact (Keeps.pure _).bind fun _ => .pure _

theorem receiverType (m : ExtensionMethod) : Keeps I J (receiverType m) := by
  unfold Session.receiverType
  split
  · exact h.overrideType _
  · split
    · exact h.scriptType _
    · exact .throw h.faulted _

theorem forwarder (m : ExtensionMethod) : Keeps I J (forwarder m) :=
  (Keeps.get.bind fun _ => .pure _).bind fun _ => (Keeps.ofExcept h.faulted _).bind fun _ => (h.receiverType m).bind fun _ =>
    (Keeps.mapM fun p _ => h.parameter p).bind fun _ => (h.qualifiedName _).bind fun _ =>
      (h.returnType _).bind fun _ => .pure _

theorem extensionUnit (m : OutputModule) (methods : List ExtensionMethod) :
    Keeps I J (extensionUnit m methods) :=
  (Keeps.mapM fun m _ => h.forwarder m).bind fun _ => .pure _

end Steady

theorem Asking.and {I J P Q : Session → Prop} (h : Asking I J) (g : Asking P Q) :
    Asking (fun s => I s ∧ P s) J where
  faulted s hs := h.faulted s hs.1
  refused s e other hs := ⟨h.refused s e other hs.1, g.refused s e other hs.2⟩
  exportedProperties id := (h.exportedProperties id).and (g.exportedProperties id)

theorem Steady.and {H : NativeModule → Prop} {I J P Q : Session → Prop} (h : Steady H I J)
    (g : Steady (fun _ => True) P Q) : Steady H (fun s => I s ∧ P s) J where
  toAsking := h.toAsking.and g.toAsking
  recorded s r hs := ⟨h.recorded s r hs.1, g.recorded s r hs.2⟩
  registered s m directory hm key unknown found truthy hs :=
    ⟨h.registered s m directory hm key unknown found truthy hs.1,
      g.registered s m directory trivial key unknown found truthy hs.2⟩
  measured ref := (h.measured ref).and (g.measured ref)
  home s id hs := h.home s id hs.1
  declared s name m hs := h.declared s name m hs.1

/-- An invariant that each change by the makers of parts keeps, whatever modules are registered. -/
structure Inert (I J : Session → Prop) : Prop extends Gated I J where
  recorded : ∀ s r, I s → I { s with workspace := s.workspace.record r }
  registered : ∀ s m directory, s.packaging.directory m = .ok directory → directory.truthy → I s →
    I { s with registry := s.registry ++ [{ name := m.name, directory }] }
  measured : ∀ s ref b, I s → I { s with blittable := (ref, b) :: s.blittable }

theorem Inert.steady {I J : Session → Prop} (h : Inert I J) : Steady (fun _ => True) I J where
  toAsking := h.toGated.asking
  recorded := h.recorded
  registered s m directory _ _ _ := h.registered s m directory
  measured ref := h.toGated.isStructBlittable (fun s b => h.measured s b.1 b.2) ref
  home _ _ _ := trivial
  declared _ _ _ _ _ := trivial

/-- What is said of the types and the modules registered, and outlives more modules. -/
theorem inert_of_registry {P : TypeStore → Registry → Prop}
    (grown : ∀ σ r m, P σ r → P σ (r ++ [m])) :
    Inert (fun s => P s.store s.registry) fun s => P s.store s.registry where
  faulted _ h := h
  refused _ _ h := h
  accepted _ _ _ _ h := h
  recorded _ _ h := h
  registered _ _ _ _ _ h := grown _ _ _ h
  measured _ _ _ h := h

section
variable {I J : Session → Prop} {visit : Visit}

theorem keeps_visitSome_of {ref : Option TypeId} (h : ∀ d ∈ ref, Keeps I J (visit true d)) :
    Keeps I J (visitSome visit ref) := by
  cases ref with
  | none => exact .pure _
  | some d => exact h d rfl

mutual

theorem keeps_exportDependencies_of : ∀ p : Property, (∀ d ∈ p.held, Keeps I J (visit true d)) →
    Keeps I J (exportDependencies visit p)
  | ⟨_, kind, _, _, ref, inner, value, _, _, _⟩, h => by
    simp only [Property.held, List.mem_append, or_imp, forall_and, Option.mem_toList] at h
    unfold exportDependencies
    exact (keeps_visitSome_of h.1.1).bind fun _ =>
      (keeps_exportElementDependencies_of inner h.1.2).bind fun _ =>
        keeps_exportElementDependencies_of value h.2

theorem keeps_exportElementDependencies_of : ∀ p : Option Property,
    (∀ d ∈ heldByElement p, Keeps I J (visit true d)) →
      Keeps I J (exportElementDependencies visit p)
  | some p, h => keeps_exportDependencies_of p h
  | none, _ => .pure _

end

variable (visits : ∀ force id, Keeps I J (visit force id))
include visits

theorem keeps_visitSome (ref : Option TypeId) : Keeps I J (visitSome visit ref) :=
  keeps_visitSome_of fun d _ => visits true d

theorem keeps_exportDependencies (p : Property) : Keeps I J (exportDependencies visit p) :=
  keeps_exportDependencies_of p fun d _ => visits true d

theorem Steady.exportInterfaces {H : NativeModule → Prop} (h : Steady H I J) (own : String)
    (imports : List String) (ids : List TypeId) :
    Keeps I J (exportInterfaces visit own imports ids) := by
  induction ids generalizing imports with
  | nil => exact .pure _
  | cons id rest ih =>
    exact (visits true id).bind fun _ => h.typeAt_bind fun _ _ housed =>
      (h.spaceOf housed).bind fun _ => ih _

end

end ScriptGlue.Session
