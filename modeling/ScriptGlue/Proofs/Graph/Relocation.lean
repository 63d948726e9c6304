import Mathlib.Data.List.Nodup
import Mathlib.Data.List.Perm.Subperm
import ScriptGlue.Graph.Hierarchy

/-! # Relocation

The same declarations may lie at other positions of another store: a store that has grown, or the
store of a document that lists its types in another order. A store embeds in another along a map of
positions if every type lies at the mapped position with its links mapped too. What a session asks
of a type by names and links has the same answer there.
-/
namespace ScriptGlue

mutual

def Property.relocate (f : TypeId → TypeId) : Property → Property
  | ⟨name, kind, dim, refName, ref, inner, value, flags, metadata, owner⟩ =>
    ⟨name, kind, dim, refName, ref.map f, relocateElement f inner, relocateElement f value, flags,
      metadata, owner⟩

def relocateElement (f : TypeId → TypeId) : Option Property → Option Property
  | some p => some (Property.relocate f p)
  | none => none

end

mutual

def Property.targets : Property → List TypeId
  | ⟨_, _, _, _, ref, inner, value, _, _, _⟩ =>
    ref.toList ++ elementTargets inner ++ elementTargets value

def elementTargets : Option Property → List TypeId
  | some p => Property.targets p
  | none => []

end

def Function.relocate (f : TypeId → TypeId) (g : Function) : Function :=
  { g with params := g.params.map (Property.relocate f) }

def ClassBody.relocate (f : TypeId → TypeId) (c : ClassBody) : ClassBody :=
  { c with
    properties := c.properties.map (Property.relocate f)
    functions := c.functions.map (Function.relocate f)
    super := c.super.map f
    interfaces := c.interfaces.map f }

def TypeBody.relocate (f : TypeId → TypeId) : TypeBody → TypeBody
  | .plainClass c => .plainClass (c.relocate f)
  | .interface c => .interface (c.relocate f)
  | .struct properties => .struct (properties.map (Property.relocate f))
  | .enum entries underlying => .enum entries underlying

def TypeNode.relocate (f : TypeId → TypeId) (t : TypeNode) : TypeNode :=
  { t with body := t.body.relocate f }

def TypeNode.links (t : TypeNode) : List TypeId :=
  t.super.toList ++ t.interfaces ++ t.functions.flatMap (fun g => g.params.flatMap Property.targets) ++
    (t.properties?.getD []).flatMap Property.targets

namespace Property
variable (f : TypeId → TypeId) (p : Property)

@[simp] theorem relocate_name : (p.relocate f).name = p.name := by cases p; rfl

@[simp] theorem relocate_kind : (p.relocate f).kind = p.kind := by cases p; rfl

@[simp] theorem relocate_arrayDim : (p.relocate f).arrayDim = p.arrayDim := by cases p; rfl

@[simp] theorem relocate_refName : (p.relocate f).refName = p.refName := by cases p; rfl

@[simp] theorem relocate_ref : (p.relocate f).ref = p.ref.map f := by cases p; rfl

@[simp] theorem relocate_inner : (p.relocate f).inner = relocateElement f p.inner := by
  cases p; rfl

@[simp] theorem relocate_value : (p.relocate f).value = relocateElement f p.value := by
  cases p; rfl

@[simp] theorem relocate_flags : (p.relocate f).flags = p.flags := by cases p; rfl

@[simp] theorem relocate_has (flag : Flag) : (p.relocate f).has flag = p.has flag := by
  simp [has]

@[simp] theorem relocate_label : (p.relocate f).label = p.label := by simp [label]

@[simp] theorem relocate_isReturn : (p.relocate f).isReturn = p.isReturn := by simp [isReturn]

@[simp] theorem relocate_isPureOut : (p.relocate f).isPureOut = p.isPureOut := by simp [isPureOut]

@[simp] theorem relocate_isFixedArray : (p.relocate f).isFixedArray = p.isFixedArray := by
  simp [isFixedArray]

theorem relocate_elements : (p.relocate f).elements = p.elements.map (relocateElement f) := by
  unfold elements
  rw [relocate_kind]
  split <;> simp

end Property

namespace Function
variable (f : TypeId → TypeId) (g : Function)

@[simp] theorem relocate_name : (g.relocate f).name = g.name := rfl

@[simp] theorem relocate_has (flag : Flag) : (g.relocate f).has flag = g.has flag := rfl

@[simp] theorem relocate_label : (g.relocate f).label = g.label := rfl

@[simp] theorem relocate_metadata : (g.relocate f).metadata = g.metadata := rfl

@[simp] theorem relocate_category : (g.relocate f).category = g.category := rfl

@[simp] theorem relocate_params : (g.relocate f).params = g.params.map (Property.relocate f) := rfl

end Function

namespace TypeNode
variable (f : TypeId → TypeId) (t : TypeNode)

@[simp] theorem relocate_name : (t.relocate f).name = t.name := rfl

@[simp] theorem relocate_home : (t.relocate f).home = t.home := rfl

@[simp] theorem relocate_label : (t.relocate f).label = t.label := rfl

@[simp] theorem relocate_has (flag : Flag) : (t.relocate f).has flag = t.has flag := rfl

@[simp] theorem relocate_variant : (t.relocate f).variant = t.variant := by
  unfold variant relocate
  cases t.body <;> rfl

@[simp] theorem relocate_classBody? :
    (t.relocate f).classBody? = t.classBody?.map (ClassBody.relocate f) := by
  unfold classBody? relocate
  cases t.body <;> rfl

@[simp] theorem relocate_isClass : (t.relocate f).isClass = t.isClass := by simp [isClass]

@[simp] theorem relocate_isEnum : (t.relocate f).isEnum = t.isEnum := by simp [isEnum]

@[simp] theorem relocate_isPlainStruct : (t.relocate f).isPlainStruct = t.isPlainStruct := by
  simp [isPlainStruct]

@[simp] theorem relocate_properties? :
    (t.relocate f).properties? = t.properties?.map (List.map (Property.relocate f)) := by
  unfold properties? relocate
  cases t.body <;> rfl

@[simp] theorem relocate_super : (t.relocate f).super = t.super.map f := by
  unfold super
  rw [relocate_classBody?]
  cases t.classBody? <;> rfl

@[simp] theorem relocate_functions :
    (t.relocate f).functions = t.functions.map (Function.relocate f) := by
  unfold functions
  rw [relocate_classBody?]
  cases t.classBody? <;> rfl

@[simp] theorem relocate_interfaces : (t.relocate f).interfaces = t.interfaces.map f := by
  unfold interfaces
  rw [relocate_classBody?]
  cases t.classBody? <;> rfl

end TypeNode

mutual

theorem Property.relocate_id : ∀ p : Property, p.relocate id = p
  | ⟨_, _, _, _, _, inner, value, _, _, _⟩ => by
    simp only [Property.relocate, relocateElement_id inner, relocateElement_id value,
      Option.map_id_fun, id]

theorem relocateElement_id : ∀ p : Option Property, relocateElement id p = p
  | some p => congrArg some (Property.relocate_id p)
  | none => rfl

end

theorem Property.map_relocate_id (ps : List Property) : ps.map (Property.relocate id) = ps :=
  List.map_id'' Property.relocate_id ps

theorem Function.relocate_id (g : Function) : g.relocate id = g := by
  simp [Function.relocate, funext Property.relocate_id]

theorem TypeNode.relocate_id (t : TypeNode) : t.relocate id = t := by
  have properties : Property.relocate id = id := funext Property.relocate_id
  have functions : Function.relocate id = id := funext Function.relocate_id
  have bodies : ∀ c : ClassBody, c.relocate id = c := fun c => by
    simp [ClassBody.relocate, properties, functions]
  unfold TypeNode.relocate
  cases body : t.body <;> simp [TypeBody.relocate, bodies, properties, ← body]

def TypeStore.Linked (store : TypeStore) : Prop :=
  ∀ id < store.size, ∀ d ∈ (store.type id).links, d < store.size

def Property.Inside (store : TypeStore) (p : Property) : Prop := ∀ d ∈ p.targets, d < store.size

theorem Property.inside_mk {store : TypeStore} {name : Name} {kind : PropertyKind} {dim : Int}
    {refName : Value} {ref : Option TypeId} {inner value : Option Property} {flags : Flags}
    {metadata : Metadata} {owner : Name} :
    Inside store ⟨name, kind, dim, refName, ref, inner, value, flags, metadata, owner⟩ ↔
      (∀ d ∈ ref, d < store.size) ∧ (∀ d ∈ elementTargets inner, d < store.size) ∧
        ∀ d ∈ elementTargets value, d < store.size := by
  simp only [Inside, targets, List.mem_append, Option.mem_toList, Option.mem_def, or_imp,
    forall_and, and_assoc]

/-- Every type of a store lies in another one, its links moved along. -/
structure Embeds (f : TypeId → TypeId) (σ τ : TypeStore) : Prop where
  linked : σ.Linked
  inside : ∀ id < σ.size, f id < τ.size
  node : ∀ id < σ.size, τ.type (f id) = (σ.type id).relocate f
  injective : ∀ a < σ.size, ∀ b < σ.size, f a = f b → a = b

theorem TypeStore.type_of_size_le {store : TypeStore} {id : TypeId} (h : store.size ≤ id) :
    store.type id = default := by
  simp [type, Array.getD, Nat.not_lt.2 h]

theorem TypeStore.lt_size_of_properties? {store : TypeStore} {id : TypeId} {ps : List Property}
    (h : (store.type id).properties? = some ps) : id < store.size := by
  by_contra outside
  rw [type_of_size_le (Nat.le_of_not_lt outside)] at h
  cases h

theorem TypeStore.lt_size_of_isSome {store : TypeStore} {id : TypeId}
    (h : (store.type id).properties?.isSome) : id < store.size :=
  lt_size_of_properties? (Option.eq_some_of_isSome h)

namespace TypeStore.Linked
variable {store : TypeStore} (h : store.Linked) {id d : TypeId} (hid : id < store.size)
include h hid

theorem super (hd : (store.type id).super = some d) : d < store.size :=
  h id hid d (by simp [TypeNode.links, hd])

theorem interfaces (hd : d ∈ (store.type id).interfaces) : d < store.size :=
  h id hid d (by simp [TypeNode.links, hd])

theorem property {p : Property} (hp : p ∈ (store.type id).properties?.getD []) :
    p.Inside store := fun d hd =>
  h id hid d (List.mem_append_right _ (List.mem_flatMap.2 ⟨p, hp, hd⟩))

theorem param {g : Function} {p : Property} (hg : g ∈ (store.type id).functions)
    (hp : p ∈ g.params) : p.Inside store := fun d hd =>
  h id hid d (List.mem_append_left _ (List.mem_append_right _
    (List.mem_flatMap.2 ⟨g, hg, List.mem_flatMap.2 ⟨p, hp, hd⟩⟩)))

end TypeStore.Linked

theorem length_le_of_nodup {n : Nat} {ids : List TypeId} (distinct : ids.Nodup)
    (h : ∀ d ∈ ids, d < n) : ids.length ≤ n := by
  have inside : ids ⊆ List.range n := fun d hd => List.mem_range.2 (h d hd)
  have := (List.subperm_of_subset distinct inside).length_le
  simpa using this

theorem superChain_stable {store : TypeStore} (h : store.Linked) {fuel more : Nat}
    {seen : List TypeId} {ref : Option TypeId} (distinct : seen.Nodup)
    (hseen : ∀ d ∈ seen, d < store.size) (href : ∀ d ∈ ref, d < store.size)
    (enough : store.size < fuel + seen.length) (plenty : store.size < more + seen.length) :
    superChain store fuel seen ref = superChain store more seen ref := by
  induction fuel generalizing more seen ref with
  | zero =>
    have := length_le_of_nodup distinct hseen
    omega
  | succ fuel ih =>
    have := length_le_of_nodup distinct hseen
    obtain ⟨more, rfl⟩ : ∃ n, more = n + 1 := ⟨more - 1, by omega⟩
    cases ref with
    | none => rfl
    | some id =>
      have hid := href id rfl
      simp only [superChain]
      split
      · rfl
      · next fresh =>
        have fresh : id ∉ seen := by simpa using fresh
        have hseen' : ∀ d ∈ id :: seen, d < store.size := by
          simpa [hid] using hseen
        have distinct' : (id :: seen).Nodup := List.nodup_cons.2 ⟨fresh, distinct⟩
        congr 1
        exact ih distinct' hseen' (fun d hd => h.super hid hd)
          (by simp only [List.length_cons]; omega) (by simp only [List.length_cons]; omega)

namespace Embeds
variable {f : TypeId → TypeId} {σ τ : TypeStore} (h : Embeds f σ τ)
include h

theorem size_le : σ.size ≤ τ.size := by
  have distinct : ((List.range σ.size).map f).Nodup :=
    List.Nodup.map_on (fun a ha b hb => h.injective a (List.mem_range.1 ha) b (List.mem_range.1 hb))
      List.nodup_range
  have := length_le_of_nodup (n := τ.size) distinct (by simpa using h.inside)
  simpa using this

theorem name {id : TypeId} (hid : id < σ.size) : (τ.type (f id)).name = (σ.type id).name := by
  simp [h.node id hid]

theorem superChain {fuel : Nat} {seen : List TypeId} {ref : Option TypeId}
    (hseen : ∀ d ∈ seen, d < σ.size) (href : ∀ d ∈ ref, d < σ.size) :
    superChain τ fuel (seen.map f) (ref.map f) = (superChain σ fuel seen ref).map f := by
  induction fuel generalizing seen ref with
  | zero => rfl
  | succ fuel ih =>
    cases ref with
    | none => rfl
    | some id =>
      have hid := href id rfl
      have met : (seen.map f).contains (f id) = seen.contains id := by
        rw [Bool.eq_iff_iff, List.contains_iff_mem, List.contains_iff_mem, List.mem_map]
        constructor
        · rintro ⟨d, hd, he⟩
          exact h.injective d (hseen d hd) id hid he ▸ hd
        · intro hd
          exact ⟨id, hd, rfl⟩
      simp only [ScriptGlue.superChain, Option.map_some, met]
      split
      · rfl
      · have hseen' : ∀ d ∈ id :: seen, d < σ.size := by simpa [hid] using hseen
        have := ih hseen' fun d (hd : d ∈ (σ.type id).super) => h.linked.super hid hd
        rw [h.node id hid, TypeNode.relocate_super, List.map_cons, ← this, List.map_cons]

theorem ancestors {id : TypeId} (hid : id < σ.size) :
    ancestors τ (f id) = (ancestors σ id).map f := by
  have links : ∀ d ∈ (σ.type id).super, d < σ.size := fun d hd => h.linked.super hid hd
  have size := h.size_le
  simp only [ScriptGlue.ancestors]
  have stable : ScriptGlue.superChain σ (σ.size + 1) [] (σ.type id).super =
      ScriptGlue.superChain σ (τ.size + 1) [] (σ.type id).super :=
    superChain_stable h.linked .nil (by simp) links (by simp) (by simp only [List.length_nil]; omega)
  rw [stable, ← h.superChain (by simp) links, h.node id hid, TypeNode.relocate_super, List.map_nil]

theorem ancestor_lt {id a : TypeId} (hid : id < σ.size) (ha : a ∈ ScriptGlue.ancestors σ id) :
    a < σ.size := by
  have chain : ∀ fuel seen ref, (∀ d ∈ ref, d < σ.size) →
      ∀ a ∈ ScriptGlue.superChain σ fuel seen ref, a < σ.size := by
    intro fuel
    induction fuel with
    | zero => simp [ScriptGlue.superChain]
    | succ fuel ih =>
      intro seen ref href a ha
      cases ref with
      | none => simp [ScriptGlue.superChain] at ha
      | some b =>
        simp only [ScriptGlue.superChain] at ha
        split at ha
        · cases ha
        · obtain rfl | ha := List.mem_cons.1 ha
          · exact href a rfl
          · exact ih _ _ (fun d hd => h.linked.super (href b rfl) hd) a ha
  exact chain _ _ _ (fun d hd => h.linked.super hid hd) a ha

theorem any_ancestor {id : TypeId} (hid : id < σ.size) (test : Name → Bool) :
    ((ScriptGlue.ancestors τ (f id)).any fun a => test (τ.type a).name) =
      (ScriptGlue.ancestors σ id).any fun a => test (σ.type a).name := by
  rw [h.ancestors hid, List.any_map, Bool.eq_iff_iff, List.any_eq_true, List.any_eq_true]
  refine exists_congr fun a => and_congr_right fun ha => ?_
  simp only [Function.comp_apply, h.name (h.ancestor_lt hid ha)]

theorem isChildOf {id : TypeId} (hid : id < σ.size) (name : Name) :
    isChildOf τ (f id) name = isChildOf σ id name := by
  simp only [ScriptGlue.isChildOf, h.name hid, h.any_ancestor hid fun n => n.same name]

theorem isInterface {id : TypeId} (hid : id < σ.size) :
    isInterface τ (f id) = isInterface σ id := by
  simp only [ScriptGlue.isInterface, h.isChildOf hid, h.node id hid, TypeNode.relocate_variant]

end Embeds

end ScriptGlue
