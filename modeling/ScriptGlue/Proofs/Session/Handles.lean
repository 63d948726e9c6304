import ScriptGlue.Proofs.Session.GivenNames
import ScriptGlue.Proofs.Session.HandleReads

/-! # Handles of units

The bodies of a unit read native handles, its static constructor looks them up, and its members
declare them. What is read is declared and looked up, and what a lookup reads was looked up before.
In a class this holds whatever the names; a struct keeps handles for all its properties and looks up
one of each script name, so there it takes names that are apart.
-/
namespace ScriptGlue
open ScriptGlue.Action Handle

theorem Handle.eq_of_text {h k : Handle} (same : h.text = k.text) : h = k := by
  have ends := congrArg (fun word : String => word.toList.reverse.take 5) same
  cases h <;> cases k <;> simp [text] at ends same ⊢ <;> assumption

/-- What the bodies of a type's unit read is declared, and looked up unless it is a constant; the
length of an array of fixed size is the constant that its property says. What the static constructor
gives a value is declared in the unit, or there and then if nothing else reads it; what it reads it
has given a value before. -/
structure Provided (t : TypeNode) (fields : List Field) (lookups : List Lookup)
    (reads : List Handle) : Prop where
  declared : ∀ h ∈ reads, ∃ f ∈ fields, f.handle = h
  lengths : ∀ f ∈ fields, ∀ slot, f.handle = .length slot →
    ∃ p ∈ t.properties?.getD [], p.label = slot ∧ f.modifier = .constant p.arrayDim
  assigned : ∀ h ∈ reads, (∀ slot, h ≠ .length slot) → ∃ l ∈ lookups, l.target = h
  targets : ∀ l ∈ lookups, (∃ f ∈ fields, f.handle = l.target) ∨
    l.isLocal ∧ ∀ h ∈ reads, h.text ≠ l.target.text
  ordered : ∀ before l after, lookups = before ++ l :: after →
    ∀ h ∈ l.query.reads, ∃ k ∈ before, k.target = h

def InOrder : List Handle → List Lookup → Prop
  | _, [] => True
  | known, l :: rest => l.query.reads ⊆ known ∧ InOrder (l.target :: known) rest

namespace InOrder
variable {known more : List Handle} {ls ks : List Lookup}

theorem mono (h : InOrder known ls) (sub : known ⊆ more) : InOrder more ls := by
  induction ls generalizing known more with
  | nil => trivial
  | cons l rest ih =>
    exact ⟨List.Subset.trans h.1 sub, ih h.2 (List.cons_subset_cons _ sub)⟩

theorem append (h : InOrder known ls) (g : InOrder known ks) : InOrder known (ls ++ ks) := by
  induction ls generalizing known with
  | nil => exact g
  | cons l rest ih => exact ⟨h.1, ih h.2 (g.mono (List.subset_cons_self _ _))⟩

theorem flatMap {α : Type} {f : α → List Lookup} {xs : List α}
    (h : ∀ x ∈ xs, InOrder known (f x)) : InOrder known (xs.flatMap f) := by
  induction xs with
  | nil => trivial
  | cons x xs ih =>
    rw [List.flatMap_cons]
    exact (h x List.mem_cons_self).append (ih fun y hy => h y (List.mem_cons_of_mem _ hy))

theorem earlier (h : InOrder known ls) {before after : List Lookup} {l : Lookup}
    (split : ls = before ++ l :: after) {r : Handle} (hr : r ∈ l.query.reads) :
    r ∈ known ∨ ∃ k ∈ before, k.target = r := by
  subst split
  induction before generalizing known with
  | nil => exact .inl (h.1 hr)
  | cons k before ih =>
    obtain hr | ⟨k', hk', same⟩ := ih h.2
    · obtain rfl | hr := List.mem_cons.1 hr
      · exact .inr ⟨k, List.mem_cons_self, rfl⟩
      · exact .inl hr
    · exact .inr ⟨k', List.mem_cons_of_mem k hk', same⟩

end InOrder

namespace Session

variable {σ : TypeStore} {s u v : Session} {t : TypeNode} {f : Function} {p : Property}
  {ps : List Property} {fs es : List Function}

theorem length_of_propertyFields {isReadonly : Bool} {g : Field}
    (hg : g ∈ propertyFields p isReadonly) {slot : String} (same : g.handle = .length slot) :
    p.label = slot ∧ g.modifier = .constant p.arrayDim := by
  simp only [propertyFields, handleFields, List.cons_append, List.mem_cons, List.mem_append] at hg
  obtain rfl | hg | hg := hg
  · cases same
  · split at hg
    · cases List.mem_singleton.1 hg
      exact ⟨Handle.length.inj same, rfl⟩
    · cases hg
  · split at hg
    · cases List.mem_singleton.1 hg
      cases same
    · cases hg

theorem no_length_of_blockFields {g : Field} (hg : g ∈ blockFields f) (slot : String) :
    g.handle ≠ .length slot := by
  intro same
  simp only [blockFields, parameterFields, List.mem_append, List.mem_flatMap, List.mem_cons] at hg
  obtain hg | ⟨p, -, rfl | hg⟩ := hg
  · split at hg
    · cases hg
    · cases List.mem_singleton.1 hg
      cases same
  · cases same
  · split at hg
    · cases List.mem_singleton.1 hg
      cases same
    · cases hg

theorem inOrder_property (p : Property) :
    InOrder [.nativeType] (propertyLookups p p.label) := by
  unfold propertyLookups
  split <;> simp [InOrder, Query.reads]

theorem inOrder_parameter {function : String} (p : Property) :
    InOrder [.function function] (parameterLookups function p) := by
  unfold parameterLookups
  split <;> simp [InOrder, Query.reads]

theorem inOrder_block (f : Function) : InOrder [.function f.label] (blockLookups f) := by
  refine InOrder.append ?_ (InOrder.flatMap fun p _ => inOrder_parameter p)
  split <;> simp [InOrder, Query.reads]

theorem inOrder_function (f : Function) (isLocal : Bool) :
    InOrder [.nativeType] (functionLookup f isLocal :: blockLookups f) :=
  ⟨by simp [functionLookup, Query.reads], (inOrder_block f).mono (by simp [functionLookup])⟩

theorem staticConstructor_class (ps : List Property) (fs es : List Function)
    (isClass : t.isClass) :
    (staticConstructor t ps fs es = none ∧ ps = [] ∧ fs = [] ∧ es = []) ∨
      ∃ c, staticConstructor t ps fs es = some c ∧
        c.fields = (if fs.any fun f => f.has .static then [⟨.staticReadonly, .nativeType⟩] else []) ∧
        c.lookups = ⟨!fs.any fun f => f.has .static, .nativeType, .classNamed t.label⟩ ::
          (distinctLookups (scriptName t) [] ps ++
            (fs.flatMap functionLookups ++ es.flatMap eventLookups)) := by
  unfold staticConstructor
  simp only [isClass, Bool.true_and, ↓reduceIte]
  split
  · next empty =>
    simp only [Bool.and_eq_true, List.isEmpty_iff] at empty
    exact .inl ⟨rfl, empty.1.1, empty.1.2, empty.2⟩
  · exact .inr ⟨_, rfl, by simp,
      by simp [StaticConstructor.lookups, Construction.lookups, List.flatMap]⟩

theorem staticConstructor_struct (ps : List Property) (isStruct : t.isClass = false) :
    ∃ c, staticConstructor t ps [] [] = some c ∧
      c.fields = [⟨.publicStaticReadonly, .dataSize⟩] ∧
      c.lookups = ⟨true, .nativeType, .structNamed t.label⟩ ::
        (distinctLookups (scriptName t) [] ps ++ [⟨false, .dataSize, .structSize⟩]) := by
  exact ⟨_, by simp [staticConstructor, isStruct]; rfl, rfl, rfl⟩

/-- The native call that gives a handle of a type its value. -/
inductive Asks (t : TypeNode) : Handle → String → Prop
  | classType (isClass : t.isClass) : Asks t .nativeType
      ("UCoreUObjectExporter.CallGetNativeClassFromName(\"" ++ t.label ++ "\")")
  | structType (isStruct : t.isClass = false) : Asks t .nativeType
      ("UCoreUObjectExporter.CallGetNativeStructFromName(\"" ++ t.label ++ "\")")
  | size : Asks t .dataSize
      ("UScriptStructExporter.CallGetNativeStructSize(" ++ "NativeClassPtr" ++ ")")
  | offset (label : String) : Asks t (.offset label)
      ("FPropertyExporter.CallGetPropertyOffsetFromName(" ++ "NativeClassPtr" ++ ", \"" ++ label ++ "\")")
  | property (label : String) : Asks t (.property label)
      ("FPropertyExporter.CallGetNativePropertyFromName(" ++ "NativeClassPtr" ++ ", \"" ++ label ++ "\")")
  | function (label : String) : Asks t (.function label)
      ("UClassExporter.CallGetNativeFunctionFromClassAndName(" ++ "NativeClassPtr" ++ ", \"" ++
        label ++ "\")")
  | paramsSize (function : String) : Asks t (.paramsSize function)
      ("UFunctionExporter.CallGetNativeFunctionParamsSize(" ++ (function ++ "_NativeFunction") ++ ")")
  | parameterOffset (function label : String) : Asks t (.offset (function ++ "_" ++ label))
      ("FPropertyExporter.CallGetPropertyOffsetFromName(" ++ (function ++ "_NativeFunction") ++
        ", \"" ++ label ++ "\")")
  | parameterProperty (function label : String) : Asks t (.property (function ++ "_" ++ label))
      ("FPropertyExporter.CallGetNativePropertyFromName(" ++ (function ++ "_NativeFunction") ++
        ", \"" ++ label ++ "\")")

def KnownName (σ : TypeStore) (reads : List Handle) (name : String) : Prop :=
  GivenName σ name ∨ ∃ h ∈ reads, name = h.text

/-- The lookup asks for its target, and names no other handles but those that it reads. -/
structure LooksUp (σ : TypeStore) (t : TypeNode) (l : Lookup) : Prop where
  asks : Asks t l.target l.query.expression
  reads : NamedIn (KnownName σ l.query.reads) l.query.expression

theorem Given.known {text : String} {reads : List Handle} (h : Given σ text) :
    NamedIn (KnownName σ reads) text :=
  h.trans fun _ name => .of_mem (.inl name)

theorem looksUp {l : Lookup} (asks : Asks t l.target l.query.expression)
    (names : ∀ x ∈ l.query.names, GivenName σ x) : LooksUp σ t l :=
  ⟨asks, Query.namedIn (fun x hx => (names x hx).given.known) fun h hh => .inr ⟨h, hh, rfl⟩⟩

theorem looksUp_property (held : σ.Holds p) :
    ∀ l ∈ propertyLookups p p.label, LooksUp σ t l := by
  have name : ∀ x ∈ [p.label], GivenName σ x := by simpa using .propertyLabel held
  refine List.forall_mem_cons.2 ⟨looksUp (.offset _) name, ?_⟩
  split
  · exact List.forall_mem_singleton.2 (looksUp (.property _) name)
  · exact fun _ hl => absurd hl List.not_mem_nil

section
variable (declared : ∃ d, f ∈ (σ.type d).functions)
include declared

theorem looksUp_parameter (hp : p ∈ f.params) :
    ∀ l ∈ parameterLookups f.label p, LooksUp σ t l := by
  obtain ⟨d, hd⟩ := declared
  have name : ∀ x ∈ [p.label], GivenName σ x := by
    simpa using .propertyLabel (.inr ⟨d, f, hd, hp⟩)
  refine List.forall_mem_cons.2 ⟨looksUp (.parameterOffset _ _) name, ?_⟩
  split
  · exact List.forall_mem_singleton.2 (looksUp (.parameterProperty _ _) name)
  · exact fun _ hl => absurd hl List.not_mem_nil

theorem looksUp_block : ∀ l ∈ blockLookups f, LooksUp σ t l := by
  refine List.forall_mem_append.2 ⟨?_, fun l hl => ?_⟩
  · split
    · exact fun _ hl => absurd hl List.not_mem_nil
    · exact List.forall_mem_singleton.2
        (looksUp (.paramsSize _) fun _ hx => absurd hx List.not_mem_nil)
  · obtain ⟨p, hp, hl⟩ := List.mem_flatMap.1 hl
    exact looksUp_parameter declared hp l hl

theorem looksUp_function (isLocal : Bool) :
    ∀ l ∈ functionLookup f isLocal :: blockLookups f, LooksUp σ t l :=
  List.forall_mem_cons.2
    ⟨looksUp (.function _) (List.forall_mem_singleton.2 (.functionLabel declared)),
      looksUp_block declared⟩

end

/-- What a unit has of handles: what is read is provided, the code declares and assigns it, the
calls that it is assigned from are those that ask for it, and no line names a handle that is neither
read nor in a name of the graph. -/
structure Provides (σ : TypeStore) (t : TypeNode) (fields : List Field) (lookups : List Lookup)
    (reads : List Handle) (code : Code) : Prop extends Provided t fields lookups reads where
  prints : Prints (KnownName σ reads) (scriptLabel t) fields lookups code
  looksUp : ∀ l ∈ lookups, LooksUp σ t l

end Session

end ScriptGlue
