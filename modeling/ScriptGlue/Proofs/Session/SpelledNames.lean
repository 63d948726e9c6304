import ScriptGlue.Proofs.Code.PrintedUnits
import ScriptGlue.Proofs.Session.CarefulExports

/-! # Names that are spelled in units

The names of a graph that units print: those of types, modules and members, of a delegate's type and
of the entries of an enum. Declarations and lookups of handles are spelled with them as they are.
-/
namespace ScriptGlue
open ScriptGlue.Action Text Code

variable {exact : Prop} {σ : TypeStore}

/-- The names of a property, of its elements and of a delegate's type stay on their lines. -/
structure Property.InlineNames (p : Property) : Prop where
  label : Inline p.label
  delegate : p.kind.isDelegate → Inline p.refName.plain
  elements : ∀ e ∈ p.elements, ∀ q ∈ e, Inline q.label

/-- The names of a function and of its parameters stay on their lines. -/
structure Function.InlineNames (f : Function) : Prop where
  label : Inline f.label
  params : ∀ p ∈ f.params, p.InlineNames

namespace TypeNode

def entries (t : TypeNode) : List Value :=
  match t.body with
  | .enum entries _ => entries
  | _ => []

/-- The names of a type, its module and its members stay on their lines. -/
structure InlineNames (t : TypeNode) : Prop where
  label : Inline t.label
  home : Inline t.home.name.plain
  properties : ∀ ps ∈ t.properties?, ∀ p ∈ ps, p.InlineNames
  functions : ∀ f ∈ t.functions, f.InlineNames
  entries : ∀ e ∈ t.entries, Inline e.plain

/-- The names that may stand first on a line do not indent it. A property and what a call sets are
assigned to, and may lose blanks and equality signs at the end there. -/
structure FlushNames (t : TypeNode) : Prop where
  properties : ∀ ps ∈ t.properties?, ∀ p ∈ ps, Firm p.label
  functions : ∀ f ∈ t.functions, Flush f.label
  outputs : ∀ f ∈ t.functions, ∀ p ∈ f.params, p.has .out → Firm p.label
  entries : ∀ e ∈ t.entries, Flush (Session.textOf (Naming.enumEntry e))

end TypeNode

instance (p : Property) : Decidable p.InlineNames :=
  decidable_of_iff (Inline p.label ∧ (p.kind.isDelegate → Inline p.refName.plain) ∧
      ∀ e ∈ p.elements, ∀ q ∈ e, Inline q.label)
    ⟨fun ⟨label, delegate, elements⟩ => ⟨label, delegate, elements⟩,
      fun h => ⟨h.label, h.delegate, h.elements⟩⟩

instance (f : Function) : Decidable f.InlineNames :=
  decidable_of_iff (Inline f.label ∧ ∀ p ∈ f.params, p.InlineNames)
    ⟨fun ⟨label, params⟩ => ⟨label, params⟩, fun h => ⟨h.label, h.params⟩⟩

instance (t : TypeNode) : Decidable t.InlineNames :=
  decidable_of_iff (Inline t.label ∧ Inline t.home.name.plain ∧
      (∀ ps ∈ t.properties?, ∀ p ∈ ps, p.InlineNames) ∧ (∀ f ∈ t.functions, f.InlineNames) ∧
      ∀ e ∈ t.entries, Inline e.plain)
    ⟨fun ⟨label, home, properties, functions, entries⟩ =>
      ⟨label, home, properties, functions, entries⟩,
      fun h => ⟨h.label, h.home, h.properties, h.functions, h.entries⟩⟩

instance (t : TypeNode) : Decidable t.FlushNames :=
  decidable_of_iff ((∀ ps ∈ t.properties?, ∀ p ∈ ps, Firm p.label) ∧
      (∀ f ∈ t.functions, Flush f.label) ∧
      (∀ f ∈ t.functions, ∀ p ∈ f.params, p.has .out → Firm p.label) ∧
      ∀ e ∈ t.entries, Flush (Session.textOf (Naming.enumEntry e)))
    ⟨fun ⟨properties, functions, outputs, entries⟩ => ⟨properties, functions, outputs, entries⟩,
      fun h => ⟨h.properties, h.functions, h.outputs, h.entries⟩⟩

/-- The names of a function and of its parameters stay on their lines, and indent none if
`exact`. -/
structure Function.Spelled (exact : Prop) (f : Function) : Prop where
  names : f.InlineNames
  flush : exact → Flush f.label
  outputs : exact → ∀ p ∈ f.params, p.has .out → Firm p.label

namespace TypeStore

def InlineNames (σ : TypeStore) : Prop := ∀ id < σ.size, (σ.type id).InlineNames

def FlushNames (σ : TypeStore) : Prop := ∀ id < σ.size, (σ.type id).FlushNames

instance (σ : TypeStore) : Decidable σ.InlineNames :=
  inferInstanceAs (Decidable (∀ id < σ.size, (σ.type id).InlineNames))

instance (σ : TypeStore) : Decidable σ.FlushNames :=
  inferInstanceAs (Decidable (∀ id < σ.size, (σ.type id).FlushNames))

/-- The names of all types stay on their lines, and indent none if `exact`. -/
structure Spelled (exact : Prop) (σ : TypeStore) : Prop where
  inline : ∀ id, (σ.type id).InlineNames
  flush : exact → ∀ id, (σ.type id).FlushNames

theorem spelled_of_names (inline : σ.InlineNames) (flush : exact → σ.FlushNames) :
    σ.Spelled exact where
  inline id := by
    by_cases inside : id < σ.size
    · exact inline id inside
    · rw [type_of_size_le (Nat.le_of_not_lt inside)]
      decide +kernel
  flush exactly id := by
    by_cases inside : id < σ.size
    · exact flush exactly id inside
    · rw [type_of_size_le (Nat.le_of_not_lt inside)]
      decide +kernel

theorem Spelled.function (h : σ.Spelled exact) {f : Function}
    (declared : ∃ d, f ∈ (σ.type d).functions) : f.Spelled exact := by
  obtain ⟨d, hd⟩ := declared
  exact ⟨(h.inline d).functions f hd, fun exactly => (h.flush exactly d).functions f hd,
    fun exactly => (h.flush exactly d).outputs f hd⟩

end TypeStore

namespace Session

section
variable {t : TypeNode} {p : Property} {owner shown : Name}

theorem inline_scriptLabel (h : Inline t.label) : Inline (scriptLabel t) :=
  Naming.stable_inline.escaped h

theorem inline_propertyText (h : Inline p.label) : Inline (propertyText p owner) := by
  unfold propertyText textOf
  split
  · next named => exact Naming.stable_inline.property h named
  · exact inline_empty

theorem inline_parameterText (h : Inline p.label) : Inline (parameterText p) := by
  unfold parameterText textOf
  split
  · next named => exact Naming.stable_inline.parameter h named
  · exact inline_empty

theorem firm_propertyText (h : Firm p.label) (named : propertyName p owner = .ok shown) :
    Firm (propertyText p owner) := by
  rw [propertyText, named]
  exact Naming.stable_firm.property h named

theorem firm_parameterText (h : Firm p.label) (named : parameterName p = .ok shown) :
    Firm (parameterText p) := by
  rw [parameterText, named]
  exact Naming.stable_firm.parameter h named

end

section
variable {p : Property} {f : Function} {function native : String}

theorem inline_slotOf (owner : Inline function) (label : Inline p.label) :
    Inline (slotOf function p) :=
  inline_append.2 ⟨inline_append.2 ⟨owner, by decide⟩, label⟩

theorem flush_slotOf (owner : Flush function) : Flush (slotOf function p) :=
  ((owner.led_append ⟨by decide, by decide⟩ : Led (function ++ "_")).append _).flush

theorem stem_of_mem_handleFields {modifier : FieldModifier} {slot : String} :
    ∀ g ∈ handleFields modifier slot p, g.handle.stem = slot := by
  unfold handleFields
  split <;> split <;> simp [Handle.stem]

theorem stem_of_mem_parameterFields :
    ∀ g ∈ parameterFields function p, g.handle.stem = slotOf function p := by
  unfold parameterFields
  split <;> simp [Handle.stem]

theorem inline_propertyFields {isReadonly : Bool} (label : Inline p.label) :
    ∀ g ∈ propertyFields p isReadonly, Inline g.handle.stem := fun g hg => by
  rwa [stem_of_mem_handleFields g hg]

theorem inline_blockFields (names : f.InlineNames) :
    ∀ g ∈ blockFields f, Inline g.handle.stem := by
  refine List.forall_mem_append.2 ⟨?_, fun g hg => ?_⟩
  · split
    · exact fun _ hg => absurd hg List.not_mem_nil
    · exact List.forall_mem_singleton.2 names.label
  · obtain ⟨p, hp, hg⟩ := List.mem_flatMap.1 hg
    rw [stem_of_mem_parameterFields g hg]
    exact inline_slotOf names.label (names.params p hp).label

theorem inline_parameterOffset (names : f.InlineNames) (hp : p ∈ f.params) :
    Inline (parameterOffset f p).text :=
  Handle.inline_text (inline_slotOf names.label (names.params p hp).label)

theorem printed_lookup {l : Lookup} {slot : String} {owner : Handle}
    (target : l.target.stem = slot) (query : l.query.stems = [owner.stem, native])
    (inline : Inline slot) (flush : exact → Flush slot) (asked : Inline owner.stem)
    (name : Inline native) : l.Printed exact where
  target := target ▸ inline
  query := by simp [query, asked, name]
  flush exactly := target ▸ flush exactly

theorem printed_propertyLookups (inline : Inline native) (flush : exact → Flush native) :
    ∀ l ∈ propertyLookups p native, l.Printed exact := by
  intro l hl
  have known : l.target.stem = native ∧ l.query.stems = [Handle.nativeType.stem, native] := by
    revert l
    unfold propertyLookups
    split <;> simp [Handle.stem, Query.stems]
  exact printed_lookup known.1 known.2 inline flush inline_empty inline

theorem printed_parameterLookups (owner : Inline function) (label : Inline p.label)
    (flush : exact → Flush function) : ∀ l ∈ parameterLookups function p, l.Printed exact := by
  intro l hl
  have known : l.target.stem = slotOf function p ∧
      l.query.stems = [(Handle.function function).stem, p.label] := by
    revert l
    unfold parameterLookups
    split <;> simp [Handle.stem, Query.stems]
  exact printed_lookup known.1 known.2 (inline_slotOf owner label)
    (fun exactly => flush_slotOf (flush exactly)) owner label

section
variable (names : f.InlineNames) (flush : exact → Flush f.label)
include names flush

theorem printed_functionLookup (isLocal : Bool) : (functionLookup f isLocal).Printed exact where
  target := names.label
  query := List.forall_mem_singleton.2 names.label
  flush := flush

theorem printed_blockLookups : ∀ l ∈ blockLookups f, l.Printed exact := by
  refine List.forall_mem_append.2 ⟨?_, fun l hl => ?_⟩
  · split
    · exact fun _ hl => absurd hl List.not_mem_nil
    · exact List.forall_mem_singleton.2
        ⟨names.label, List.forall_mem_singleton.2 names.label, flush⟩
  · obtain ⟨p, hp, hl⟩ := List.mem_flatMap.1 hl
    exact printed_parameterLookups names.label (names.params p hp).label flush l hl

theorem printed_functionLookups : ∀ l ∈ functionLookups f, l.Printed exact :=
  List.forall_mem_cons.2
    ⟨printed_functionLookup names flush false, printed_blockLookups names flush⟩

theorem printed_eventLookups : ∀ l ∈ eventLookups f, l.Printed exact := by
  unfold eventLookups
  split
  · exact fun _ hl => absurd hl List.not_mem_nil
  · exact List.forall_mem_cons.2
      ⟨printed_functionLookup names flush true, printed_blockLookups names flush⟩

end

section
variable {ps : List Property} (properties : ∀ p ∈ ps, Inline p.label ∧ (exact → Flush p.label))
include properties

theorem printed_distinctLookups (owner : Name) (taken : List Name) :
    ∀ l ∈ distinctLookups owner taken ps, l.Printed exact := by
  induction ps generalizing taken with
  | nil => exact fun _ hl => absurd hl List.not_mem_nil
  | cons p rest ih =>
    obtain ⟨⟨inline, flush⟩, others⟩ := List.forall_mem_cons.1 properties
    unfold distinctLookups
    split
    · exact ih others taken
    · split
      · exact ih others taken
      · exact List.forall_mem_append.2 ⟨printed_propertyLookups inline flush, ih others _⟩

theorem printed_staticConstructor {t : TypeNode} {functions events : List Function}
    (label : Inline t.label)
    (called : ∀ f ∈ functions ++ events, f.InlineNames ∧ (exact → Flush f.label)) :
    ∀ c ∈ staticConstructor t ps functions events, c.Printed exact := by
  have type (isLocal : Bool) {query : Query} (asked : query.stems = [t.label]) :
      Lookup.Printed exact { isLocal, target := .nativeType, query } :=
    ⟨inline_empty, by simp [asked, label], fun _ => (by decide : Flush "")⟩
  have size : Lookup.Printed exact { target := .dataSize, query := .structSize } :=
    ⟨inline_empty, fun _ h => absurd h List.not_mem_nil, fun _ => (by decide : Flush "")⟩
  have grouped {group : Function → List Lookup} {fs : List Function}
      (each : ∀ f ∈ fs, ∀ l ∈ group f, l.Printed exact) :
      ∀ l ∈ (fs.map group).flatten, l.Printed exact := fun l hl => by
    obtain ⟨ls, hls, hl⟩ := List.mem_flatten.1 hl
    obtain ⟨f, hf, rfl⟩ := List.mem_map.1 hls
    exact each f hf l hl
  have fields (c : Prop) [Decidable c] {g : Field} (stem : g.handle.stem = "") :
      ∀ x ∈ (if c then [g] else []), Inline x.handle.stem := by
    split
    · exact List.forall_mem_singleton.2 (stem ▸ inline_empty)
    · exact fun _ hx => absurd hx List.not_mem_nil
  have named := inline_scriptLabel label
  have asked := printed_distinctLookups properties (scriptName t) []
  intro c hc
  unfold staticConstructor at hc
  dsimp only at hc
  cases isClass : t.isClass with
  | false =>
    simp only [isClass, Bool.false_and, Bool.false_eq_true, ↓reduceIte] at hc
    cases hc
    exact ⟨List.forall_mem_append.2 ⟨fields _ rfl, List.forall_mem_singleton.2 inline_empty⟩, named,
      List.forall_mem_cons.2 ⟨type _ rfl, List.forall_mem_append.2
        ⟨asked, List.forall_mem_singleton.2 size⟩⟩⟩
  | true =>
    simp only [isClass, Bool.true_and, ↓reduceIte] at hc
    split at hc
    · cases hc
    · cases hc
      refine ⟨List.forall_mem_append.2 ⟨fields _ rfl, fun _ h => absurd h List.not_mem_nil⟩, named,
        List.forall_mem_cons.2 ⟨type _ rfl, List.forall_mem_append.2
          ⟨asked, List.forall_mem_append.2 ⟨grouped fun f hf => ?_, grouped fun f hf => ?_⟩⟩⟩⟩
      · obtain ⟨names, flush⟩ := called f (List.mem_append_left _ hf)
        exact printed_functionLookups names flush
      · obtain ⟨names, flush⟩ := called f (List.mem_append_right _ hf)
        exact printed_eventLookups names flush

end

end

end Session

end ScriptGlue
