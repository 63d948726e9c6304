import ScriptGlue.Proofs.Session.Twins
import ScriptGlue.Proofs.Session.UnitFiles

/-! # Units of twin sessions

Twin sessions make the same units, whenever in the course of their batches. The unit of a type
depends on the types alone; a forwarder also on the class that the graph has for its receiver.
-/
namespace ScriptGlue

theorem TypeNode.not_isClass {t : TypeNode} (h : t.variant = .struct ∨ t.variant = .enum) :
    t.isClass = false := by
  unfold TypeNode.variant at h
  unfold TypeNode.isClass TypeNode.classBody?
  cases body : t.body <;> simp_all

/-- The library and the types that the method refers to lie in the store. -/
structure ExtensionMethod.Inside (store : TypeStore) (e : ExtensionMethod) : Prop where
  library : e.library < store.size
  params : ∀ p ∈ e.function.params, p.Inside store

namespace Session
open ScriptGlue.Action

variable {f : TypeId → TypeId} {C : Setting} {s s' t u : Session}

theorem keeps_addExtension (k : Knows C s) (library : TypeId) (g : Function) :
    Keeps (During C s) (fun _ => True) (addExtension library g) := by
  refine (Keeps.get.bind fun _ => .pure _ : Keeps _ _ (typeAt library)).bind fun n => ?_
  split
  · exact .pure _
  · refine .bind (.modify fun t ht => ?_) fun _ => (steady_during k).tell _ _ _
    exact ht.of_same ⟨rfl, rfl⟩ rfl rfl rfl rfl rfl rfl

namespace Twins
variable (h : Twins f C s s')
include h

theorem linked : s.store.Linked := h.embeds.linked

theorem policy_bind {α : Type} {a b : Session → Generation α}
    (hab : ∀ t t', t.policy = s.policy → t'.policy = s.policy → Same C s s' (a t) (b t')) :
    Same C s s' (MonadState.get >>= a) (MonadState.get >>= b) :=
  .get_bind fun t t' ht ht' => hab t t' ht.rules.1 (ht'.rules.1.trans h.policy)

theorem warnTaken (source : Source) (n n' : TypeNode) (p p' : Property) (sort : String)
    (name name' : Name) :
    Same C s s' (warnTaken source n p sort name) (warnTaken source n' p' sort name') :=
  h.tell ..

theorem wrapperProperties (n : TypeNode) (taken : List Name) {ps : List Property}
    (hps : ∀ p ∈ ps, p.Inside s.store) : Same C s s' (wrapperProperties n taken ps)
      (wrapperProperties (n.relocate f) taken (ps.map (Property.relocate f))) := by
  induction ps generalizing taken with
  | nil => exact .pure rfl
  | cons p rest ih =>
    obtain ⟨hp, hrest⟩ := List.forall_mem_cons.1 hps
    simp only [List.map_cons, Session.wrapperProperties, propertyName_relocate, scriptName,
      TypeNode.relocate_name, Property.relocate_name]
    refine (Agree.same_ofExcept _).andThen fun name => .ite
      (fun _ => (h.warnTaken ..).andThen fun _ => ih taken hrest)
      fun _ => h.policy_bind fun t t' policy policy' => ?_
    rw [policy, policy']
    exact (h.wrapperProperty _ _ _ hp).andThen fun _ => (ih _ hrest).andThen fun _ => .pure rfl

theorem addExtension (library : TypeId) (g : Function) :
    Same C s s' (addExtension library g) (addExtension (f library) (g.relocate f)) :=
  .of_keeps (keeps_addExtension h.knows ..) (keeps_addExtension h.knows' ..) fun _ _ => rfl

theorem wrappers (id : TypeId) (owner : Name) (isLibrary : Bool) {gs : List Function}
    (hgs : ∀ g ∈ gs, ∀ p ∈ g.params, p.Inside s.store) : Same C s s' (wrappers id owner isLibrary gs)
      (wrappers (f id) owner isLibrary (gs.map (Function.relocate f))) := by
  induction gs with
  | nil => exact .pure rfl
  | cons g rest ih =>
    obtain ⟨hg, hrest⟩ := List.forall_mem_cons.1 hgs
    have others (shown : Wrapper) : Same C s s'
        (do let others ← Session.wrappers id owner isLibrary rest; return shown :: others)
        (do
          let others ← Session.wrappers (f id) owner isLibrary (rest.map (Function.relocate f))
          return shown :: others) :=
      (ih hrest).andThen fun _ => .pure rfl
    refine (h.wrapper hg owner).andThen fun shown => .ite (fun _ => ?_) fun _ => others shown
    exact (h.addExtension id g).andThen fun _ => others shown

omit h in
theorem propertyNames (owner : Name) (ps : List Property) : Same C s s'
    (ps.forM fun p => do let _ ← Action.ofExcept (propertyName p owner))
    ((ps.map (Property.relocate f)).forM fun p => do
      let _ ← Action.ofExcept (propertyName p owner)) :=
  .of_keeps (.forM fun _ _ => (Keeps.ofExcept (fun _ _ => trivial) _).bind fun _ => .pure _)
    (.forM fun _ _ => (Keeps.ofExcept (fun _ _ => trivial) _).bind fun _ => .pure _) fun _ _ => rfl

theorem classMembers {id : TypeId} (hid : id < s.store.size) (n : TypeNode) {ps : List Property}
    {gs es : List Function} (hps : ∀ p ∈ ps, p.Inside s.store)
    (hgs : ∀ g ∈ gs, ∀ p ∈ g.params, p.Inside s.store)
    (hes : ∀ g ∈ es, ∀ p ∈ g.params, p.Inside s.store) :
    Same C s s' (classMembers id n ps gs es) (classMembers (f id) (n.relocate f)
      (ps.map (Property.relocate f)) (gs.map (Function.relocate f))
      (es.map (Function.relocate f))) := by
  unfold Session.classMembers
  rw [staticConstructor_relocate]
  refine (propertyNames _ ps).andThen fun _ => (h.wrapperProperties n [] hps).andThen fun _ => ?_
  refine .get_bind fun t t' ht ht' => ?_
  rw [ht.rules.2, ht'.rules.2, h.embeds.isChildOf hid]
  exact (h.wrappers id _ _ hgs).andThen fun _ =>
    (Agree.mapM fun g hg => h.eventStub (hes g hg) _).andThen fun _ => .pure rfl

theorem superClassName {id : TypeId} (hid : id < s.store.size) : Same C s s'
    (superClassName (s.store.type id)) (superClassName ((s.store.type id).relocate f)) := by
  unfold Session.superClassName
  rw [TypeNode.relocate_super]
  cases super : (s.store.type id).super with
  | none => exact .pure rfl
  | some d => exact h.qualifiedName (h.linked.super hid super)

theorem interfaceMethods (n : TypeNode) {gs : List Function}
    (hgs : ∀ g ∈ gs, ∀ p ∈ g.params, p.Inside s.store) : Same C s s' (interfaceMethods n gs)
      (interfaceMethods (n.relocate f) (gs.map (Function.relocate f))) := by
  induction gs with
  | nil => exact .pure rfl
  | cons g rest ih =>
    obtain ⟨hg, hrest⟩ := List.forall_mem_cons.1 hgs
    have shown (passed : Bool) : Same C s s'
        (if passed then do
          let shown ← Session.interfaceMethod g (scriptName n)
          let others ← Session.interfaceMethods n rest
          return shown :: others
        else Session.interfaceMethods n rest)
        (if passed then do
          let shown ← Session.interfaceMethod (g.relocate f) (scriptName n)
          let others ← Session.interfaceMethods (n.relocate f) (rest.map (Function.relocate f))
          return shown :: others
        else Session.interfaceMethods (n.relocate f) (rest.map (Function.relocate f))) :=
      .ite (fun _ => (h.interfaceMethod hg _).andThen fun _ => (ih hrest).andThen fun _ => .pure rfl)
        fun _ => ih hrest
    exact .ite (fun _ => (h.canExportFunction n hg).andThen shown)
      fun _ => (Agree.pure rfl).andThen shown

theorem structMembers (n : TypeNode) (blittable : Bool) (taken : List Name) {ps : List Property}
    (hps : ∀ p ∈ ps, p.Inside s.store) : Same C s s' (structMembers n blittable taken ps)
      (structMembers (n.relocate f) blittable taken (ps.map (Property.relocate f))) := by
  induction ps generalizing taken with
  | nil => exact .pure rfl
  | cons p rest ih =>
    obtain ⟨hp, hrest⟩ := List.forall_mem_cons.1 hps
    simp only [List.map_cons, Session.structMembers, propertyName_relocate, scriptName,
      TypeNode.relocate_name, Property.relocate_name, propertyFields_relocate]
    refine (Agree.same_ofExcept _).andThen fun name => .ite
      (fun _ => (h.warnTaken ..).andThen fun _ => (ih taken hrest).andThen fun _ => .pure rfl)
      fun _ => h.policy_bind fun t t' policy policy' => ?_
    rw [policy, policy']
    exact (h.mirrorField _ _ hp).andThen fun _ => (ih _ hrest).andThen fun _ => .pure rfl

theorem mirroring (n : TypeNode) {ps : List Property} (hps : ∀ p ∈ ps, p.Inside s.store) :
    Same C s s' (mirroring n ps) (mirroring (n.relocate f) (ps.map (Property.relocate f))) := by
  have constructor : staticConstructor (n.relocate f) (ps.map (Property.relocate f)) [] [] =
      staticConstructor n ps [] [] := staticConstructor_relocate f n ps [] []
  unfold Session.mirroring
  rw [constructor]
  refine (Agree.mapM fun p hp => ?_).andThen fun _ => (Agree.mapM fun p hp => ?_).andThen
    fun _ => .pure rfl
  · simpa [scriptName] using h.readInto p.label "null" StructUnit.sourceBuffer
      (.handle (.offset p.label)) (propertyText p (scriptName n) ++ " =") (hps p hp)
  · simpa [scriptName] using h.writeFrom p.label "null" StructUnit.targetBuffer
      (.handle (.offset p.label)) (propertyText p (scriptName n)) (hps p hp)

theorem interfaceUnit {id : TypeId} (hid : id < s.store.size) : Same C s s'
    (interfaceUnit (s.store.type id)) (interfaceUnit ((s.store.type id).relocate f)) := by
  refine (h.spaceOf (h.knows.home id)).andThen fun space => ?_
  rw [TypeNode.relocate_classBody?]
  cases body : (s.store.type id).classBody? with
  | none => exact .throw_left _ _
  | some c =>
    have inside : ∀ g ∈ c.functions, ∀ p ∈ g.params, p.Inside s.store := fun g hg p hp =>
      h.linked.param hid (by rw [TypeNode.functions, body]; exact hg) hp
    exact (h.interfaceMethods _ inside).andThen fun _ => .pure rfl

theorem structUnit {id : TypeId} (hid : id < s.store.size) {ps : List Property}
    (hps : ∀ p ∈ ps, p.Inside s.store) : Same C s s' (structUnit id (s.store.type id) ps)
      (structUnit (f id) ((s.store.type id).relocate f) (ps.map (Property.relocate f))) := by
  have self : ∀ d ∈ some id, d < s.store.size := fun d hd => Option.mem_some.1 hd ▸ hid
  refine (h.spaceOf (h.knows.home id)).andThen fun space =>
    (h.isStructBlittable self).andThen fun blittable =>
      (h.structMembers _ blittable [] hps).andThen fun members => ?_
  exact .ite (fun _ => (Agree.pure rfl).andThen fun _ => .pure rfl)
    fun _ => ((h.mirroring _ hps).map some).andThen fun _ => .pure rfl

theorem enumUnit (id : TypeId) : Same C s s'
    (enumUnit (s.store.type id)) (enumUnit ((s.store.type id).relocate f)) := by
  refine (h.spaceOf (h.knows.home id)).andThen fun space => ?_
  unfold TypeNode.relocate TypeBody.relocate
  cases (s.store.type id).body with
  | enum entries underlying =>
    refine (Agree.same_ofExcept _).andThen fun _ => h.policy_bind fun t t' policy policy' => ?_
    rw [policy, policy']
    exact (Agree.same_ofExcept _).andThen fun _ => .pure rfl
  | _ => exact .throw_left _ _

section
variable {visit visit' : Visit} (visits : ∀ force d, Keeps (During C s) (fun _ => True) (visit force d))
  (visits' : ∀ force d, Keeps (During C s') (fun _ => True) (visit' force d))
include visits visits'

theorem exportInterfaces (own : String) (imports : List String) {ids : List TypeId}
    (hids : ∀ d ∈ ids, d < s.store.size) : Same C s s' (exportInterfaces visit own imports ids)
      (exportInterfaces visit' own imports (ids.map f)) := by
  induction ids generalizing imports with
  | nil => exact .pure rfl
  | cons d rest ih =>
    obtain ⟨hd, hrest⟩ := List.forall_mem_cons.1 hids
    refine (Agree.of_keeps (visits true d) (visits' true (f d)) fun _ _ => rfl).andThen fun _ => ?_
    refine h.typeAt_bind hd ?_
    exact (h.spaceOf (h.knows.home d)).andThen fun _ => ih _ hrest

omit h in
theorem exportDependencies (ps : List Property) : Same C s s'
    (ps.forM (Session.exportDependencies visit))
    ((ps.map (Property.relocate f)).forM (Session.exportDependencies visit')) :=
  .of_keeps (.forM fun p _ => keeps_exportDependencies visits p)
    (.forM fun p _ => keeps_exportDependencies visits' p) fun _ _ => rfl

theorem classUnit {id : TypeId} (hid : id < s.store.size) : Same C s s'
    (classUnit visit id (s.store.type id)) (classUnit visit' (f id) ((s.store.type id).relocate f)) := by
  refine (Agree.of_keeps (keeps_visitSome visits _) (keeps_visitSome visits' _)
    fun _ _ => rfl).andThen fun _ => ?_
  refine (h.spaceOf (h.knows.home id)).andThen fun space => .get_bind fun t t' ht ht' => ?_
  have implemented : Session.implementedInterfaces s'.store ((s.store.type id).relocate f) =
      (Session.implementedInterfaces s.store (s.store.type id)).map f := by
    rw [← h.embeds.node id hid, h.implementedInterfaces hid]
  have interfaces := fun d => implementedInterface_lt (d := d) h.linked hid
  rw [ht.rules.2, ht'.rules.2, implemented]
  refine (h.exportInterfaces visits visits' space [] interfaces).andThen fun imports =>
    (h.superClassName hid).andThen fun base =>
      (Agree.mapM fun d hd => h.qualifiedName (interfaces d hd)).andThen fun bases => ?_
  refine (h.exportedProperties hid).bind fun ps ps' ⟨hps, hps'⟩ =>
    (h.exportedFunctions hid).bind fun a b ⟨ha, hb⟩ => ?_
  subst hps hps' ha hb
  have properties := fun p => passedProperty_inside (p := p) h.linked hid
  have functions := fun g hg p => passedFunction_inside (g := g) (p := p) h.linked hid hg
  have events := fun g hg p => passedEvent_inside (g := g) (p := p) h.linked hid hg
  refine (exportDependencies visits visits' _).andThen fun _ => ?_
  refine (Agree.of_keeps
    (.forM fun _ _ => .forM fun p _ => keeps_exportDependencies visits p)
    (.forM fun _ _ => .forM fun p _ => keeps_exportDependencies visits' p) fun _ _ => rfl).andThen
    fun _ => ?_
  exact (h.classMembers hid _ properties functions events).andThen fun _ => .pure rfl

end

theorem renders {id : TypeId} (hid : id < s.store.size) {code code' : Code}
    (made : Renders C s id code) (made' : Renders C s' (f id) code') : code = code' := by
  have node := h.embeds.node id hid
  have interfaces := h.embeds.isInterface hid
  cases made with
  | interface variant interface during made =>
    cases made' with
    | interface _ _ during' made' =>
      rw [node] at made'
      rw [((h.interfaceUnit hid).results during during' made made').2.2]
    | plainClass _ plain => rw [interfaces, interface] at plain; cases plain
    | struct variant' | enum variant' =>
      rw [node, TypeNode.relocate_variant] at variant'
      rw [TypeNode.not_isClass (by simp [variant'])] at variant
      cases variant
  | plainClass variant plain visits during made =>
    cases made' with
    | interface _ interface => rw [interfaces, plain] at interface; cases interface
    | plainClass _ _ visits' during' made' =>
      rw [node] at made'
      rw [((h.classUnit visits visits' hid).results during during' made made').2.2]
    | struct variant' | enum variant' =>
      rw [node, TypeNode.relocate_variant] at variant'
      rw [TypeNode.not_isClass (by simp [variant'])] at variant
      cases variant
  | struct variant _ passed during made =>
    cases made' with
    | interface variant' | plainClass variant' =>
      rw [node, TypeNode.relocate_isClass, TypeNode.not_isClass (.inl variant)] at variant'
      cases variant'
    | struct _ _ passed' during' made' =>
      have inside := fun p => passedProperty_inside (p := p) h.linked hid
      rw [passed' h.exact, h.passedProperties hid, node] at made'
      rw [passed h.exact] at made
      rw [((h.structUnit hid inside).results during during' made made').2.2]
    | enum variant' =>
      rw [node, TypeNode.relocate_variant, variant] at variant'
      cases variant'
  | enum variant during made =>
    cases made' with
    | interface variant' | plainClass variant' =>
      rw [node, TypeNode.relocate_isClass, TypeNode.not_isClass (.inr variant)] at variant'
      cases variant'
    | struct variant' =>
      rw [node, TypeNode.relocate_variant, variant] at variant'
      cases variant'
    | enum _ during' made' =>
      rw [node] at made'
      rw [((h.enumUnit id).results during during' made made').2.2]

end Twins

/-- Twin sessions whose graphs find the same types by name. -/
structure GraphTwins (f : TypeId → TypeId) (C : Setting) (s s' : Session) : Prop
    extends Twins f C s s' where
  found : ∀ name, s'.findType? name = (s.findType? name).map f
  inside : ∀ name, ∀ id ∈ s.findType? name, id < s.store.size
  world : ∀ m, s.findModule? worldModule = some m → m.name = worldModule
  world' : ∀ m, s'.findModule? worldModule = some m → m.name = worldModule

/-- Namespace of the world class when the graph does not hold the class. -/
abbrev worldSpace : String := Naming.moduleNamespace worldModule.plain

theorem space_of_alike {m : OutputModule} (h : m.name.alike worldModule) : m.space = worldSpace := by
  have named : m.name = worldModule := (Value.alike_text_right _ _).1 h
  rw [OutputModule.space, OutputModule.label, named]

theorem spaceOf_worldModule (r : Registry) : r.spaceOf worldModule = worldSpace := by
  unfold Registry.spaceOf
  split
  · next m found =>
    exact space_of_alike (List.find?_some (p := fun m : OutputModule => m.name.alike worldModule) found)
  · rfl

theorem overrideType_missing
    (world : ∀ m, s.findModule? worldModule = some m → m.name = worldModule) {className : Name}
    (missing : s.findType? className = none) {type : String} (ht : During C s t)
    (h : overrideType className t = (.ok type, u)) : type = worldSpace ++ "." ++ className.plain := by
  obtain ⟨_, _, hget, h⟩ := bind_eq_ok.1 h
  obtain ⟨rfl, rfl⟩ := get_eq_ok.1 hget
  have types : t.findType? className = none := by
    rw [← missing, findType?, findType?, ht.graph, ht.rules.2]
  have modules : t.findModule? worldModule = s.findModule? worldModule := by
    rw [findModule?, findModule?, ht.graph]
  cases declared : s.findModule? worldModule with
  | some m =>
    simp only [types, modules, declared] at h
    obtain ⟨space, v, hspace, h⟩ := bind_eq_ok.1 h
    obtain ⟨known, w, hknown, hspace⟩ := bind_eq_ok.1 hspace
    obtain ⟨rfl, rfl⟩ := pure_eq_ok.1 hspace
    obtain ⟨rfl, rfl⟩ := pure_eq_ok.1 h
    have found := register_ok hknown
    rw [world m declared] at found
    have alike := List.find?_some (p := fun m : OutputModule => m.name.alike worldModule) found
    rw [space_of_alike alike]
  | none =>
    simp only [types, modules, declared] at h
    obtain ⟨space, v, hspace, h⟩ := bind_eq_ok.1 h
    obtain ⟨rfl, rfl⟩ := pure_eq_ok.1 hspace
    obtain ⟨rfl, rfl⟩ := pure_eq_ok.1 h
    rw [spaceOf_worldModule]

def Forwards (C : Setting) (s : Session) (e : ExtensionMethod) (made : Forwarder) : Prop :=
  ∃ t u, During C s t ∧ forwarder e t = (.ok made, u)

theorem forwards_of_mapM (k : Knows C s) {methods : List ExtensionMethod} {made : List Forwarder}
    (ht : During C s t) (h : methods.mapM forwarder t = (.ok made, u)) :
    List.Forall₂ (Forwards C s) methods made := by
  induction methods generalizing t made with
  | nil =>
    rw [List.mapM_nil] at h
    obtain ⟨rfl, rfl⟩ := pure_eq_ok.1 h
    exact .nil
  | cons e rest ih =>
    rw [List.mapM_cons] at h
    obtain ⟨first, v, hfirst, h⟩ := bind_eq_ok.1 h
    obtain ⟨others, w, hothers, h⟩ := bind_eq_ok.1 h
    obtain ⟨rfl, rfl⟩ := pure_eq_ok.1 h
    exact .cons ⟨t, v, ht, hfirst⟩ (ih (((steady_during k).forwarder e).result ht hfirst) hothers)

namespace GraphTwins
variable (h : GraphTwins f C s s')
include h

theorem overrideType (className : Name) :
    Same C s s' (overrideType className) (overrideType className) := by
  constructor
  intro t t' x y u u' ht ht' hx hy
  refine ⟨((steady_during h.knows).overrideType _).result ht hx,
    ((steady_during h.knows').overrideType _).result ht' hy, ?_⟩
  have moved := h.found className
  cases known : s.findType? className with
  | none =>
    rw [known] at moved
    rw [overrideType_missing h.world known ht hx, overrideType_missing h.world' moved ht' hy]
  | some id =>
    rw [known] at moved
    have first : t.findType? className = some id := by
      rw [← known, findType?, findType?, ht.graph, ht.rules.2]
    have second : t'.findType? className = some (f id) := by
      rw [← Option.map_some, ← moved, findType?, findType?, ht'.graph, ht'.rules.2]
    obtain ⟨_, _, hget, hx⟩ := bind_eq_ok.1 hx
    obtain ⟨rfl, rfl⟩ := get_eq_ok.1 hget
    obtain ⟨_, _, hget, hy⟩ := bind_eq_ok.1 hy
    obtain ⟨rfl, rfl⟩ := get_eq_ok.1 hget
    simp only [first] at hx
    simp only [second] at hy
    exact ((h.qualifiedName (h.inside className id known)).results ht ht' hx hy).2.2

theorem receiverType {e : ExtensionMethod} (he : e.Inside s.store) :
    Same C s s' (receiverType e) (receiverType (e.relocate f)) := by
  unfold Session.receiverType ExtensionMethod.relocate
  cases e.receiver.override with
  | some className => exact h.overrideType className
  | none =>
    simp only [Function.relocate_params, List.getElem?_map]
    cases found : e.function.params[e.receiver.position]? with
    | none => exact .throw_left _ _
    | some p => exact h.scriptType (he.params p (List.mem_of_getElem? found))

theorem forwarder {e : ExtensionMethod} (he : e.Inside s.store) :
    Same C s s' (forwarder e) (forwarder (e.relocate f)) := by
  refine h.typeAt_bind he.library ?_
  refine (Agree.same_ofExcept _).andThen fun name => (h.receiverType he).andThen fun receiver => ?_
  have parameters : Same C s s' ((e.function.argumentsBut e.receiver.position).mapM parameter)
      (((e.function.relocate f).argumentsBut e.receiver.position).mapM parameter) := by
    rw [Function.relocate_argumentsBut]
    exact Agree.mapM fun p hp => h.parameter (he.params p (Function.mem_params_of_argumentsBut hp))
  have passed : (e.function.relocate f).positioned.map (fun a => forwarded (e.relocate f) a.1 a.2) =
      e.function.positioned.map fun a => forwarded e a.1 a.2 := by
    rw [Function.relocate_positioned, List.map_map]
    refine List.map_congr_left fun a _ => ?_
    simp [forwarded, ExtensionMethod.relocate]
  refine parameters.andThen fun shown => (h.qualifiedName he.library).andThen fun library =>
    (h.returnType he.params).andThen fun returned => .pure ?_
  have returns : (e.function.relocate f).returned?.isSome = e.function.returned?.isSome := by
    simp
  exact congrArg₂ (fun a b => ({
    name := name.plain
    returnType := returned
    returnsValue := a
    receiverType := receiver
    parameters := shown
    library
    arguments := b } : Forwarder)) returns.symm passed.symm

theorem forwards {e : ExtensionMethod} (he : e.Inside s.store) {made made' : Forwarder}
    (hmade : Forwards C s e made) (hmade' : Forwards C s' (e.relocate f) made') : made = made' := by
  obtain ⟨t, u, ht, h₁⟩ := hmade
  obtain ⟨t', u', ht', h₂⟩ := hmade'
  exact ((h.forwarder he).results ht ht' h₁ h₂).2.2

end GraphTwins

end Session

end ScriptGlue
