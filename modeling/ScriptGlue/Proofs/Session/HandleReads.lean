import ScriptGlue.Proofs.Session.Batch
import ScriptGlue.Proofs.Session.CallTransfers
import ScriptGlue.Proofs.Session.Careful
import ScriptGlue.Proofs.Session.SharedNames

/-! # Handles that members read

What is kept for a property: its offset, its length if it is an array of fixed size, and its native
property if it is a container. The members made of a property that fits read nothing else, and those
of a function read what is kept for its parameters, the function itself and the size of its
parameters.
-/
namespace ScriptGlue
open ScriptGlue.Action

namespace Session

variable {σ : TypeStore} {s u : Session} {f : Function} {p : Property} {fs : List Function}
  {owner : Name} {slot : String}

theorem simpleMarshaller_reads {kind : PropertyKind} {refName : Value} {ref : Option TypeId}
    {m : Marshaller} (h : simpleMarshaller kind refName ref s = (.ok m, u)) : m.reads = [] := by
  unfold simpleMarshaller at h
  cases kind
  case struct =>
    obtain ⟨blittable, _, -, h⟩ := bind_eq_ok.1 h
    obtain ⟨type, _, -, h⟩ := bind_eq_ok.1 h
    obtain ⟨rfl, -⟩ := pure_eq_ok.1 h
    cases blittable <;> rfl
  all_goals first
    | (obtain ⟨rfl, -⟩ := pure_eq_ok.1 h
       rfl)
    | (obtain ⟨type, _, -, h⟩ := bind_eq_ok.1 h
       obtain ⟨rfl, -⟩ := pure_eq_ok.1 h
       rfl)

theorem elementMarshaller_reads {e : Option Property} {m : Marshaller}
    (element : ∃ q, e = some q ∧ q.IsElement σ) (h : elementMarshaller e s = (.ok m, u)) :
    m.reads = [] := by
  obtain ⟨q, rfl, element⟩ := element
  rw [elementMarshaller, Careful.marshallerAt_single element.single] at h
  exact simpleMarshaller_reads h

/-- The marshaller of a property that fits reads the property's handle if it is a container, and
nothing else: its elements are no containers. -/
theorem marshallerAt_reads {m : Marshaller} (fits : p.Fits σ)
    (h : marshallerAt p slot s = (.ok m, u)) {r : Handle} (hr : r ∈ m.reads) :
    p.kind.isContainer ∧ r = .property slot := by
  cases single : p.kind.isContainer with
  | false =>
    rw [Careful.marshallerAt_single single] at h
    rw [simpleMarshaller_reads h] at hr
    cases hr
  | true =>
    -- elements are no containers, so their marshallers read nothing
    have elements := fits.elements single
    obtain ⟨name, kind, dim, refName, ref, inner, value, flags, metadata, owner⟩ := p
    unfold marshallerAt at h
    cases kind
    case array | set =>
      obtain ⟨element, _, hinner, h⟩ := bind_eq_ok.1 h
      obtain ⟨types, _, -, h⟩ := bind_eq_ok.1 h
      obtain ⟨rfl, -⟩ := pure_eq_ok.1 h
      have none := elementMarshaller_reads (elements inner (by simp [Property.elements])) hinner
      simpa [Marshaller.reads, none] using hr
    case map =>
      obtain ⟨key, _, hinner, h⟩ := bind_eq_ok.1 h
      obtain ⟨val, _, hvalue, h⟩ := bind_eq_ok.1 h
      obtain ⟨types, _, -, h⟩ := bind_eq_ok.1 h
      obtain ⟨rfl, -⟩ := pure_eq_ok.1 h
      have keys := elementMarshaller_reads (elements inner (by simp [Property.elements])) hinner
      have values := elementMarshaller_reads (elements value (by simp [Property.elements])) hvalue
      simpa [Marshaller.reads, keys, values] using hr
    all_goals cases single

theorem marshaller_reads {m : Marshaller} (fits : p.Fits σ) (named : slot = "" → p.label = "")
    (h : marshaller p slot s = (.ok m, u)) {r : Handle} (hr : r ∈ m.reads) :
    p.kind.isContainer ∧ r = .property slot := by
  unfold marshaller at h
  split at h
  · next none =>
    rw [named none] at h
    exact none ▸ marshallerAt_reads fits h hr
  · exact marshallerAt_reads fits h hr

def keptHandles (slot : String) (p : Property) : List Handle :=
  .offset slot :: ((if p.isFixedArray then [.length slot] else []) ++
    if p.kind.isContainer then [.property slot] else [])

theorem handleFields_handles (modifier : FieldModifier) (slot : String) (p : Property) :
    (handleFields modifier slot p).map Field.handle = keptHandles slot p := by
  unfold handleFields keptHandles
  split <;> split <;> rfl

section
variable {m : Transfer} {buffer object : String} {place : Displacement} (fits : p.Fits σ)
  (named : slot = "" → p.label = "")
include fits named

/-- What moves a value reads the handles of its property and those of its place. -/
theorem mem_reads_of_parts (marshals : ∃ s u, marshaller p slot s = (.ok m.marshaller, u))
    (length : ∀ r ∈ m.length, r ∈ keptHandles slot p) {r : Handle} (hr : r ∈ m.reads) :
    r ∈ keptHandles slot p ∨ r ∈ m.displacement.reads := by
  obtain ⟨s, u, marshals⟩ := marshals
  simp only [Transfer.reads, List.mem_append] at hr
  obtain (hr | hr) | hr := hr
  · exact .inl (length r (Option.mem_toList.1 hr))
  · obtain ⟨container, rfl⟩ := marshaller_reads fits named marshals hr
    exact .inl (by simp [keptHandles, container])
  · exact .inr hr

theorem mem_reads_of_transfer (h : transfer p slot object buffer place s = (.ok m, u))
    {r : Handle} (hr : r ∈ m.reads) : r ∈ keptHandles slot p ∨ r ∈ place.reads := by
  obtain ⟨x, v, marshals, h⟩ := bind_eq_ok.1 h
  obtain ⟨rfl, -⟩ := pure_eq_ok.1 h
  refine mem_reads_of_parts fits named ⟨_, v, marshals⟩ (fun r hr => ?_) hr
  unfold keptHandles
  split at hr
  · next fixed => simpa [fixed] using .inr (.inl (Option.some.inj hr).symm)
  · cases hr

theorem mem_reads_of_moves (moves : Moves p slot object buffer place m) {r : Handle}
    (hr : r ∈ m.reads) : r ∈ keptHandles slot p ∨ r ∈ place.reads := by
  rw [← moves.place]
  exact mem_reads_of_parts fits named moves.marshaller (by simp [moves.single]) hr

end

theorem reads_of_showsProperty {w : WrapperProperty} (shows : ShowsProperty p w)
    (fits : p.Fits σ) {r : Handle} (hr : r ∈ w.reads) : r ∈ keptHandles p.label p := by
  obtain ⟨s, u, marshals⟩ := shows.marshaller
  simp only [WrapperProperty.reads, shows.native, shows.fixed, List.cons_append, List.mem_cons,
    List.mem_append] at hr
  obtain rfl | hr | hr := hr
  · exact List.mem_cons_self
  · unfold keptHandles
    split at hr
    · next fixed => simpa [fixed] using .inr (.inl (by simpa using hr))
    · cases hr
  · obtain ⟨container, rfl⟩ := marshaller_reads fits id marshals hr
    simp [keptHandles, container]

theorem slotOf_ne_empty (function : String) (p : Property) : slotOf function p ≠ "" := by
  intro none
  have ends := congrArg String.length none
  simp [slotOf, parameterSlot] at ends

section
variable {x : Statement} {object buffer : String} {place : Displacement} (fits : p.Fits σ)
include fits

theorem reads_of_moves {m : Transfer} (moves : Moves p (slotOf f.label p) object buffer place m)
    (own : place.reads ⊆ [.offset (slotOf f.label p)]) :
    m.reads ⊆ keptHandles (slotOf f.label p) p := by
  intro r hr
  obtain hr | hr := mem_reads_of_moves fits (fun none => absurd none (slotOf_ne_empty _ _)) moves hr
  · exact hr
  · rw [List.mem_singleton.1 (own hr)]
    exact List.mem_cons_self

theorem reads_of_writesArgument (h : WritesArgument f object buffer p x) :
    x.reads ⊆ keptHandles (slotOf f.label p) p := by
  obtain ⟨m, rfl, moves, -⟩ := h
  exact reads_of_moves fits moves (List.Subset.refl _)

theorem reads_of_readsArgument {target : String}
    (h : ReadsArgument f object buffer target p x) :
    x.reads ⊆ keptHandles (slotOf f.label p) p := by
  obtain ⟨m, rfl, moves, -⟩ := h
  exact reads_of_moves fits moves (List.Subset.refl _)

theorem reads_of_takesArgument (h : TakesArgument f p x) :
    x.reads ⊆ keptHandles (slotOf f.label p) p := by
  unfold TakesArgument at h
  split at h
  · obtain ⟨type, rfl, -⟩ := h
    exact List.nil_subset _
  · obtain ⟨type, h⟩ := h
    exact reads_of_readsArgument fits h

theorem reads_of_writesResult (h : WritesResult f p x) :
    x.reads ⊆ keptHandles (slotOf f.label p) p := by
  obtain ⟨m, rfl, moves, -⟩ := h
  exact reads_of_moves fits moves (List.nil_subset _)

omit fits in
theorem reads_of_setsDefault (h : SetsDefault p x) :
    x.reads ⊆ keptHandles (slotOf f.label p) p := by
  rw [h.1]
  exact List.nil_subset _

omit fits in
theorem reads_of_returnsDefault (h : ReturnsDefault p x) :
    x.reads ⊆ keptHandles (slotOf f.label p) p := by
  rw [h.1]
  exact List.nil_subset _

end

def parameterHandles (f : Function) : List Handle :=
  f.params.flatMap fun p => keptHandles (slotOf f.label p) p

section
variable (fits : ∀ p ∈ f.params, p.Fits σ)
include fits

theorem reads_of_forall₂ {qs : List Property} {xs : List Statement}
    {Made : Property → Statement → Prop} (inside : ∀ p ∈ qs, p ∈ f.params)
    (made : ∀ p x, p.Fits σ → Made p x → x.reads ⊆ keptHandles (slotOf f.label p) p)
    (h : List.Forall₂ Made qs xs) : xs.flatMap Statement.reads ⊆ parameterHandles f := by
  intro r hr
  obtain ⟨x, hx, hr⟩ := List.mem_flatMap.1 hr
  obtain ⟨p, hp, hmade⟩ := exists_of_forall₂ h.flip hx
  exact List.mem_flatMap.2 ⟨p, inside p hp, made p x (fits p (inside p hp)) hmade hr⟩

theorem reads_of_callsWith {w : Wrapper} (h : CallsWith f w) :
    w.inputs.flatMap Statement.reads ⊆ parameterHandles f ∧
      w.outputs.flatMap Statement.reads ⊆ parameterHandles f := by
  obtain ⟨back, result, outputs, hback, hresult⟩ := h.outputs
  constructor
  · exact reads_of_forall₂ fits
      (fun p hp => mem_params_of_arguments (List.mem_of_mem_filter hp))
      (fun p x fits => reads_of_writesArgument fits) h.inputs
  · rw [outputs, List.flatMap_append]
    refine List.append_subset.2 ⟨?_, ?_⟩
    · exact reads_of_forall₂ fits
        (fun p hp => mem_params_of_arguments (List.mem_of_mem_filter hp))
        (fun p x fits => reads_of_readsArgument fits) hback
    · exact reads_of_forall₂ fits (fun p hp => mem_params_of_returned hp)
        (fun p x fits => reads_of_readsArgument fits) hresult

theorem reads_of_handlesWith {e : EventStub} (h : HandlesWith f e) :
    e.reads ⊆ parameterHandles f := by
  obtain ⟨back, result, outputs, hback, hresult⟩ := h.outputs
  rw [EventStub.reads, outputs, List.flatMap_append]
  refine List.append_subset.2 ⟨?_, List.append_subset.2 ⟨?_, List.append_subset.2 ⟨?_, ?_⟩⟩⟩
  · obtain ⟨assigned, given, defaults, hassigned, hgiven⟩ := h.defaults
    rw [defaults, List.flatMap_append]
    refine List.append_subset.2 ⟨?_, ?_⟩
    · exact reads_of_forall₂ fits
        (fun p hp => mem_params_of_arguments (List.mem_of_mem_filter hp))
        (fun p x _ => reads_of_setsDefault) hassigned
    · exact reads_of_forall₂ fits (fun p hp => mem_params_of_returned hp)
        (fun p x _ => reads_of_returnsDefault) hgiven
  · exact reads_of_forall₂ fits (fun p hp => mem_params_of_arguments hp)
      (fun p x fits => reads_of_takesArgument fits) h.takes
  · exact reads_of_forall₂ fits
      (fun p hp => mem_params_of_arguments (List.mem_of_mem_filter hp))
      (fun p x fits => reads_of_writesArgument fits) hback
  · exact reads_of_forall₂ fits (fun p hp => mem_params_of_returned hp)
      (fun p x fits => reads_of_writesResult fits) hresult

end

structure MakesWrapper (f : Function) (w : Wrapper) : Prop extends CallsWith f w where
  native : w.native = f.label
  isStatic : w.isStatic = f.has .static
  fields : w.fields = ⟨.static, .function f.label⟩ :: blockFields f
  exchange : w.exchange.isSome = !f.params.isEmpty

structure MakesStub (f : Function) (e : EventStub) : Prop extends HandlesWith f e where
  fields : e.fields = if f.params.isEmpty then [] else blockFields f

theorem makesWrapper {w : Wrapper} (single : ∀ p ∈ f.params, p.arrayDim = 1)
    (h : wrapper f owner s = (.ok w, u)) : MakesWrapper f w := by
  have calls := callsWith_of_wrapper single h
  obtain ⟨name, _, -, h⟩ := bind_eq_ok.1 h
  obtain ⟨returns, _, -, h⟩ := bind_eq_ok.1 h
  obtain ⟨parameters, _, -, h⟩ := bind_eq_ok.1 h
  split at h
  · next empty =>
    obtain ⟨idle, _, nothing, h⟩ := bind_eq_ok.1 h
    obtain ⟨rfl, -⟩ := pure_eq_ok.1 nothing
    obtain ⟨rfl, -⟩ := pure_eq_ok.1 h
    exact ⟨calls, rfl, rfl, rfl, by simp [empty]⟩
  · next some =>
    obtain ⟨exchange, _, made, h⟩ := bind_eq_ok.1 h
    obtain ⟨x, _, -, made⟩ := bind_eq_ok.1 made
    obtain ⟨rfl, -⟩ := pure_eq_ok.1 made
    obtain ⟨rfl, -⟩ := pure_eq_ok.1 h
    exact ⟨calls, rfl, rfl, rfl, by simp [some]⟩

theorem makesStub {e : EventStub} (single : ∀ p ∈ f.params, p.arrayDim = 1)
    (h : eventStub f owner s = (.ok e, u)) : MakesStub f e := by
  have handles := handlesWith_of_eventStub single h
  obtain ⟨name, _, -, h⟩ := bind_eq_ok.1 h
  obtain ⟨returns, _, -, h⟩ := bind_eq_ok.1 h
  obtain ⟨parameters, _, -, h⟩ := bind_eq_ok.1 h
  obtain ⟨inputs, _, -, h⟩ := bind_eq_ok.1 h
  obtain ⟨back, _, -, h⟩ := bind_eq_ok.1 h
  obtain ⟨result, _, -, h⟩ := bind_eq_ok.1 h
  obtain ⟨rfl, -⟩ := pure_eq_ok.1 h
  exact ⟨handles, rfl⟩

theorem makesWrappers {id : TypeId} {isLibrary : Bool} {ws : List Wrapper}
    (single : ∀ f ∈ fs, ∀ p ∈ f.params, p.arrayDim = 1)
    (h : wrappers id owner isLibrary fs s = (.ok ws, u)) : List.Forall₂ MakesWrapper fs ws := by
  induction fs generalizing s ws with
  | nil =>
    obtain ⟨rfl, -⟩ := pure_eq_ok.1 h
    exact .nil
  | cons f rest ih =>
    obtain ⟨here, others⟩ := List.forall_mem_cons.1 single
    obtain ⟨w, _, made, h⟩ := bind_eq_ok.1 h
    have finish {v : Session} (h : (do
        let others ← wrappers id owner isLibrary rest
        return w :: others : Generation (List Wrapper)) v = (.ok ws, u)) :
        List.Forall₂ MakesWrapper (f :: rest) ws := by
      obtain ⟨ws, _, later, h⟩ := bind_eq_ok.1 h
      obtain ⟨rfl, rfl⟩ := pure_eq_ok.1 h
      exact .cons (makesWrapper here made) (ih others later)
    split at h
    · obtain ⟨_, _, -, h⟩ := bind_eq_ok.1 h
      exact finish h
    · exact finish h

/-- What a wrapper reads: the type if it is static, its function, the size of its parameters and
what is kept for them. -/
theorem reads_of_makesWrapper {w : Wrapper} (fits : ∀ p ∈ f.params, p.Fits σ)
    (h : MakesWrapper f w) {r : Handle} (hr : r ∈ w.reads) :
    (f.has .static ∧ r = .nativeType) ∨ r = .function f.label ∨
      (f.params ≠ [] ∧ r = .paramsSize f.label) ∨ r ∈ parameterHandles f := by
  obtain ⟨inputs, outputs⟩ := reads_of_callsWith fits h.toCallsWith
  have exchange := h.exchange
  simp only [Wrapper.reads, Wrapper.handle, h.native, h.isStatic, List.mem_append] at hr
  obtain (hr | hr) | hr := hr
  · split at hr
    · next static => exact .inl ⟨static, List.mem_singleton.1 hr⟩
    · cases hr
  · exact .inr (.inl (List.mem_singleton.1 hr))
  · split at hr
    · cases hr
    · next x known =>
      simp only [known, Option.isSome_some, Bool.true_eq, Bool.not_eq_true', List.isEmpty_eq_false_iff]
        at exchange
      simp only [Wrapper.inputs, Wrapper.outputs, known, Option.map_some, Option.getD_some]
        at inputs outputs
      obtain rfl | hr := List.mem_cons.1 hr
      · exact .inr (.inr (.inl ⟨exchange, rfl⟩))
      · exact .inr (.inr (.inr ((List.mem_append.1 hr).elim (inputs ·) (outputs ·))))

theorem handles_of_propertyFields (isReadonly : Bool) (p : Property) :
    (propertyFields p isReadonly).map Field.handle = keptHandles p.label p :=
  handleFields_handles _ _ p

theorem targets_of_blockLookups (f : Function) :
    (blockLookups f).map Lookup.target = (blockFields f).map Field.handle := by
  have each (p : Property) : (parameterLookups f.label p).map Lookup.target =
      (parameterFields f.label p).map Field.handle := by
    unfold parameterLookups parameterFields
    split <;> rfl
  unfold blockLookups blockFields
  simp only [List.map_append, List.map_flatMap, each]
  split <;> rfl

theorem parameterHandles_subset (single : ∀ p ∈ f.params, p.arrayDim = 1) :
    parameterHandles f ⊆ (blockFields f).map Field.handle := by
  intro r hr
  obtain ⟨p, hp, hr⟩ := List.mem_flatMap.1 hr
  have same : keptHandles (slotOf f.label p) p = (parameterFields f.label p).map Field.handle := by
    unfold keptHandles parameterFields
    rw [if_neg (by simp [Property.isFixedArray, single p hp])]
    split <;> rfl
  rw [same] at hr
  unfold blockFields
  rw [List.map_append, List.map_flatMap]
  exact List.mem_append_right _ (List.mem_flatMap.2 ⟨p, hp, hr⟩)

theorem exists_propertyLookup {r : Handle} (hr : r ∈ keptHandles p.label p)
    (plain : ∀ slot, r ≠ .length slot) : ∃ l ∈ propertyLookups p p.label, l.target = r := by
  unfold keptHandles at hr
  unfold propertyLookups
  simp only [List.mem_cons, List.mem_append] at hr
  obtain rfl | hr | hr := hr
  · exact ⟨_, List.mem_cons_self, rfl⟩
  · split at hr
    · exact absurd (List.mem_singleton.1 hr) (plain _)
    · cases hr
  · split at hr
    · next container =>
      rw [if_pos container, List.mem_singleton.1 hr]
      exact ⟨_, List.mem_cons_of_mem _ (List.mem_singleton_self _), rfl⟩
    · cases hr

theorem targets_of_propertyLookups {l : Lookup} (hl : l ∈ propertyLookups p p.label) :
    l.target ∈ keptHandles p.label p := by
  unfold propertyLookups at hl
  unfold keptHandles
  obtain rfl | hl := List.mem_cons.1 hl
  · exact List.mem_cons_self
  · split at hl
    · next container =>
      rw [List.mem_singleton.1 hl]
      simp [container]
    · cases hl

end Session

end ScriptGlue
