import ScriptGlue.Proofs.Session.Handles
import ScriptGlue.Proofs.Session.Vetted

/-! # Handles of classes

The unit of a class provides every handle that the bodies of its members read, whatever the names:
of properties that share a script name one has a member, and that one alone is looked up.
-/
namespace ScriptGlue
open ScriptGlue.Action

namespace Session

variable {σ : TypeStore} {t : TypeNode} {f : Function} {p : Property} {ps : List Property}
  {fs es : List Function}

structure MakesClass (t : TypeNode) (ps : List Property) (fs es : List Function)
    (unit : ClassUnit) : Prop where
  construction : unit.construction = staticConstructor t ps fs es
  properties : List.Forall₂ ShowsProperty (firstNamed (scriptName t) [] ps) unit.properties
  functions : List.Forall₂ MakesWrapper fs unit.functions
  events : List.Forall₂ MakesStub es unit.events

/-- Where a handle that the unit of a class reads comes from. -/
inductive ClassHandle (t : TypeNode) (ps : List Property) (fs es : List Function) :
    Handle → Prop
  | property {p : Property} {r : Handle} (hp : p ∈ firstNamed (scriptName t) [] ps)
      (hr : r ∈ keptHandles p.label p) : ClassHandle t ps fs es r
  | type {f : Function} (hf : f ∈ fs) (static : f.has .static) : ClassHandle t ps fs es .nativeType
  | function {f : Function} (hf : f ∈ fs) : ClassHandle t ps fs es (.function f.label)
  | block {f : Function} {r : Handle} (hf : f ∈ fs ∨ f ∈ es)
      (hr : r ∈ (blockFields f).map Field.handle) : ClassHandle t ps fs es r

namespace MakesClass
variable {unit : ClassUnit} (made : MakesClass t ps fs es unit)
include made

theorem property_declared (hp : p ∈ firstNamed (scriptName t) [] ps) :
    propertyFields p false ⊆ unit.fields := by
  obtain ⟨w, hw, shows⟩ := exists_of_forall₂ made.properties hp
  intro g hg
  exact List.mem_append_left _ (List.mem_append_left _ (List.mem_append_right _
    (List.mem_flatMap.2 ⟨w, hw, shows.fields ▸ hg⟩)))

theorem function_declared (hf : f ∈ fs) :
    ⟨.static, .function f.label⟩ ∈ unit.fields ∧ blockFields f ⊆ unit.fields := by
  obtain ⟨w, hw, makes⟩ := exists_of_forall₂ made.functions hf
  have all : w.fields ⊆ unit.fields := fun g hg => List.mem_append_left _
    (List.mem_append_right _ (List.mem_flatMap.2 ⟨w, hw, hg⟩))
  rw [makes.fields] at all
  exact List.cons_subset.1 all

theorem event_declared (hf : f ∈ es) : blockFields f ⊆ unit.fields := by
  obtain ⟨e, he, makes⟩ := exists_of_forall₂ made.events hf
  have all : e.fields ⊆ unit.fields := fun g hg =>
    List.mem_append_right _ (List.mem_flatMap.2 ⟨e, he, hg⟩)
  rw [makes.fields] at all
  split at all
  · next empty => simp [blockFields, List.isEmpty_iff.1 empty]
  · exact all

variable (isClass : t.isClass)
include isClass

theorem type_declared (hf : f ∈ fs) (static : f.has .static) :
    ⟨.staticReadonly, .nativeType⟩ ∈ unit.fields := by
  obtain ⟨-, -, none, -⟩ | ⟨c, known, fields, -⟩ := staticConstructor_class ps fs es isClass
  · rw [none] at hf
    cases hf
  · refine List.mem_append_left _ (List.mem_append_left _ (List.mem_append_left _ ?_))
    rw [made.construction, known, Option.map_some, Option.getD_some, fields,
      if_pos (List.any_eq_true.2 ⟨f, hf, static⟩)]
    exact List.mem_singleton_self _

theorem declared {r : Handle} (hr : ClassHandle t ps fs es r) : ∃ g ∈ unit.fields, g.handle = r := by
  cases hr with
  | property hp hr =>
    rw [← handles_of_propertyFields false] at hr
    obtain ⟨g, hg, same⟩ := List.mem_map.1 hr
    exact ⟨g, made.property_declared hp hg, same⟩
  | type hf static => exact ⟨_, made.type_declared isClass hf static, rfl⟩
  | function hf => exact ⟨_, (made.function_declared hf).1, rfl⟩
  | block hf hr =>
    obtain ⟨g, hg, same⟩ := List.mem_map.1 hr
    exact ⟨g, hf.elim (fun hf => (made.function_declared hf).2 hg)
      (fun hf => made.event_declared hf hg), same⟩

/-- The lookups of the unit: none if there are no members, else the type, then the properties, the
functions and the events. -/
theorem lookups_eq : (unit.lookups = [] ∧ ps = [] ∧ fs = [] ∧ es = []) ∨
    unit.lookups = ⟨!fs.any fun f => f.has .static, .nativeType, .classNamed t.label⟩ ::
      (((firstNamed (scriptName t) [] ps).flatMap fun p => propertyLookups p p.label) ++
        (fs.flatMap functionLookups ++ es.flatMap eventLookups)) := by
  unfold ClassUnit.lookups
  rw [made.construction]
  obtain ⟨none, empty⟩ | ⟨c, known, -, lookups⟩ := staticConstructor_class ps fs es isClass
  · exact .inl ⟨by rw [none]; rfl, empty⟩
  · rw [distinctLookups_eq] at lookups
    exact .inr (by rw [known]; exact lookups)

theorem inOrder : InOrder [] unit.lookups := by
  obtain ⟨none, -⟩ | lookups := made.lookups_eq isClass
  · rw [none]
    trivial
  · rw [lookups]
    refine ⟨by simp [Query.reads], InOrder.append ?_ (InOrder.append ?_ ?_)⟩
    · exact InOrder.flatMap fun p _ => inOrder_property p
    · exact InOrder.flatMap fun f _ => inOrder_function f false
    · refine InOrder.flatMap fun f _ => ?_
      unfold eventLookups
      split
      · trivial
      · exact inOrder_function f true

theorem assigned {r : Handle} (hr : ClassHandle t ps fs es r) (plain : ∀ slot, r ≠ .length slot) :
    ∃ l ∈ unit.lookups, l.target = r := by
  obtain ⟨-, rfl, rfl, rfl⟩ | lookups := made.lookups_eq isClass
  · cases hr with
    | property hp _ => cases hp
    | type hf _ => cases hf
    | function hf => cases hf
    | block hf _ => exact hf.elim (fun hf => by cases hf) fun hf => by cases hf
  · rw [lookups]
    cases hr with
    | property hp hr =>
      obtain ⟨l, hl, same⟩ := exists_propertyLookup hr plain
      exact ⟨l, List.mem_cons_of_mem _ (List.mem_append_left _ (List.mem_flatMap.2 ⟨_, hp, hl⟩)),
        same⟩
    | type hf _ => exact ⟨_, List.mem_cons_self, rfl⟩
    | @function f hf =>
      exact ⟨functionLookup f false, List.mem_cons_of_mem _ (List.mem_append_right _
        (List.mem_append_left _ (List.mem_flatMap.2 ⟨f, hf, List.mem_cons_self⟩))), rfl⟩
    | @block f _ hf hr =>
      have some : f.params.isEmpty = false := by
        rw [List.isEmpty_eq_false_iff]
        intro none
        simp [blockFields, none] at hr
      rw [← targets_of_blockLookups] at hr
      obtain ⟨l, hl, same⟩ := List.mem_map.1 hr
      refine ⟨l, List.mem_cons_of_mem _ (List.mem_append_right _ (List.mem_append.2 ?_)), same⟩
      refine hf.imp (fun hf => List.mem_flatMap.2 ⟨f, hf, List.mem_cons_of_mem _ hl⟩) fun hf => ?_
      refine List.mem_flatMap.2 ⟨f, hf, ?_⟩
      rw [eventLookups, if_neg (by simp [some])]
      exact List.mem_cons_of_mem _ hl

/-- What the static constructor gives a value is a field, or it is the type or the function of an
event and declared there. -/
theorem target {l : Lookup} (hl : l ∈ unit.lookups) :
    l.isLocal ∨ ∃ g ∈ unit.fields, g.handle = l.target := by
  have block {f : Function} (sub : blockFields f ⊆ unit.fields) (hl : l ∈ blockLookups f) :
      ∃ g ∈ unit.fields, g.handle = l.target := by
    have ht : l.target ∈ (blockLookups f).map Lookup.target := List.mem_map_of_mem hl
    rw [targets_of_blockLookups] at ht
    obtain ⟨g, hg, same⟩ := List.mem_map.1 ht
    exact ⟨g, sub hg, same⟩
  obtain ⟨none, -⟩ | lookups := made.lookups_eq isClass
  · rw [none] at hl
    cases hl
  · rw [lookups, List.mem_cons, List.mem_append, List.mem_append] at hl
    obtain rfl | hl | hl | hl := hl
    -- a static function makes the type a field; else it is declared where it is looked up
    · cases static : fs.any fun f => f.has .static with
      | false => exact .inl rfl
      | true =>
        obtain ⟨f, hf, static⟩ := List.any_eq_true.1 static
        exact .inr ⟨_, made.type_declared isClass hf static, rfl⟩
    · obtain ⟨p, hp, hl⟩ := List.mem_flatMap.1 hl
      exact .inr (made.declared isClass (.property hp (targets_of_propertyLookups hl)))
    · obtain ⟨f, hf, hl⟩ := List.mem_flatMap.1 hl
      obtain ⟨function, sub⟩ := made.function_declared hf
      obtain rfl | hl := List.mem_cons.1 hl
      · exact .inr ⟨_, function, rfl⟩
      · exact .inr (block sub hl)
    · obtain ⟨f, hf, hl⟩ := List.mem_flatMap.1 hl
      unfold eventLookups at hl
      split at hl
      · cases hl
      · obtain rfl | hl := List.mem_cons.1 hl
        · exact .inl rfl
        · exact .inr (block (made.event_declared hf) hl)

omit isClass in
theorem classHandle_of_reads (fits : ∀ p ∈ ps, p.Fits σ) (passable : ∀ f ∈ fs ++ es, f.Passable σ)
    {r : Handle} (hr : r ∈ unit.reads) : ClassHandle t ps fs es r := by
  have ofBlock {f : Function} (hf : f ∈ fs ∨ f ∈ es) (hr : r ∈ parameterHandles f) :
      ClassHandle t ps fs es r :=
    .block hf (parameterHandles_subset
      (fun p hp => (passable f (List.mem_append.2 hf) p hp).2) hr)
  have fitting {f : Function} (hf : f ∈ fs ∨ f ∈ es) : ∀ p ∈ f.params, p.Fits σ := fun p hp =>
    (passable f (List.mem_append.2 hf) p hp).1
  simp only [ClassUnit.reads, List.mem_append, List.mem_flatMap] at hr
  obtain (⟨w, hw, hr⟩ | ⟨w, hw, hr⟩) | ⟨e, he, hr⟩ := hr
  · obtain ⟨p, hp, shows⟩ := exists_of_forall₂ made.properties.flip hw
    have mem := (firstNamed_sublist _ _ _).subset hp
    exact .property hp (reads_of_showsProperty shows (fits p mem) hr)
  · obtain ⟨f, hf, makes⟩ := exists_of_forall₂ made.functions.flip hw
    obtain ⟨static, rfl⟩ | rfl | ⟨some, rfl⟩ | hr :=
      reads_of_makesWrapper (fitting (.inl hf)) makes hr
    · exact .type hf static
    · exact .function hf
    · refine .block (.inl hf) ?_
      simp [blockFields, some]
    · exact ofBlock (.inl hf) hr
  · obtain ⟨f, hf, makes⟩ := exists_of_forall₂ made.events.flip he
    exact ofBlock (.inr hf) (reads_of_handlesWith (fitting (.inr hf)) makes.toHandlesWith hr)

theorem lengths {g : Field} (hg : g ∈ unit.fields) {slot : String}
    (same : g.handle = .length slot) :
    ∃ p ∈ ps, p.label = slot ∧ g.modifier = .constant p.arrayDim := by
  simp only [ClassUnit.fields, List.mem_append, List.mem_flatMap] at hg
  obtain ((hg | ⟨w, hw, hg⟩) | ⟨w, hw, hg⟩) | ⟨e, he, hg⟩ := hg
  · rw [made.construction] at hg
    obtain ⟨none, -⟩ | ⟨c, known, fields, -⟩ := staticConstructor_class ps fs es isClass
    · simp [none] at hg
    · rw [known, Option.map_some, Option.getD_some, fields] at hg
      split at hg
      · cases List.mem_singleton.1 hg
        cases same
      · cases hg
  · obtain ⟨p, hp, shows⟩ := exists_of_forall₂ made.properties.flip hw
    rw [shows.fields] at hg
    exact ⟨p, (firstNamed_sublist _ _ _).subset hp, length_of_propertyFields hg same⟩
  · obtain ⟨f, -, makes⟩ := exists_of_forall₂ made.functions.flip hw
    rw [makes.fields] at hg
    obtain rfl | hg := List.mem_cons.1 hg
    · cases same
    · exact absurd same (no_length_of_blockFields hg slot)
  · obtain ⟨f, -, makes⟩ := exists_of_forall₂ made.events.flip he
    rw [makes.fields] at hg
    split at hg
    · cases hg
    · exact absurd same (no_length_of_blockFields hg slot)

theorem provided (passed : ∀ p ∈ ps, p ∈ t.properties?.getD [] ∧ p.Fits σ)
    (passable : ∀ f ∈ fs ++ es, f.Passable σ) :
    Provided t unit.fields unit.lookups unit.reads := by
  have reads {r : Handle} (hr : r ∈ unit.reads) : ClassHandle t ps fs es r :=
    made.classHandle_of_reads (fun p hp => (passed p hp).2) passable hr
  refine {
    declared := fun r hr => made.declared isClass (reads hr)
    lengths := fun g hg slot same => ?_
    assigned := fun r hr plain => made.assigned isClass (reads hr) plain
    targets := fun l hl => ?_
    ordered := fun before l after split r hr => ?_ }
  · obtain ⟨p, hp, constant⟩ := made.lengths isClass hg same
    exact ⟨p, (passed p hp).1, constant⟩
  · by_cases known : ∃ g ∈ unit.fields, g.handle = l.target
    · exact .inl known
    · refine .inr ⟨(made.target isClass hl).resolve_right known, fun r hr same => known ?_⟩
      cases Handle.eq_of_text same
      exact made.declared isClass (reads hr)
  · exact ((made.inOrder isClass).earlier split hr).resolve_left List.not_mem_nil

theorem looksUp (held : ∀ p ∈ ps, σ.Holds p)
    (declared : ∀ f ∈ fs ++ es, ∃ d, f ∈ (σ.type d).functions) (own : ∃ id, t = σ.type id) :
    ∀ l ∈ unit.lookups, LooksUp σ t l := by
  obtain ⟨id, rfl⟩ := own
  intro l hl
  obtain ⟨none, -⟩ | lookups := made.lookups_eq isClass
  · rw [none] at hl
    cases hl
  · rw [lookups, List.mem_cons, List.mem_append, List.mem_append] at hl
    obtain rfl | hl | hl | hl := hl
    · exact Session.looksUp (.classType isClass) (List.forall_mem_singleton.2 (.typeLabel id))
    · obtain ⟨p, hp, hl⟩ := List.mem_flatMap.1 hl
      exact looksUp_property (held p ((firstNamed_sublist _ _ _).subset hp)) l hl
    · obtain ⟨f, hf, hl⟩ := List.mem_flatMap.1 hl
      exact looksUp_function (declared f (List.mem_append_left _ hf)) false l hl
    · obtain ⟨f, hf, hl⟩ := List.mem_flatMap.1 hl
      unfold eventLookups at hl
      split at hl
      · cases hl
      · exact looksUp_function (declared f (List.mem_append_right _ hf)) true l hl

theorem provides {id : TypeId} (own : t = σ.type id) (passed : PassedOf σ id ps)
    (good : ∀ f ∈ fs ++ es, DeclaredPassable σ f) (name : unit.name = scriptLabel t)
    (properties : ∀ x ∈ unit.properties.flatMap WrapperProperty.texts, Given σ x)
    (functions : ∀ x ∈ unit.functions.flatMap Wrapper.texts, Given σ x)
    (events : ∀ x ∈ unit.events.flatMap EventStub.texts, Given σ x) :
    Provides σ t unit.fields unit.lookups unit.reads unit.body := by
  subst own
  have type : Given σ (scriptLabel (σ.type id)) := (GivenName.type id).given
  have held := Given.good_passed passed
  obtain ⟨declared, hdeclared, all⟩ := passed
  refine ⟨made.provided isClass (fun p hp => ⟨?_, (all p hp).2.toFits⟩)
    fun f hf => (good f hf).passable, ClassUnit.prints (fun x hx => Given.known ?_)
      (fun h hh => .inr ⟨h, hh, rfl⟩) fun c hc =>
        Given.constructor_typeName c (made.construction ▸ hc), made.looksUp isClass (fun p hp => (held p hp).1)
        (fun f hf => (good f hf).declared) ⟨id, rfl⟩⟩
  · rw [hdeclared]
    exact (all p hp).1
  · simp only [ClassUnit.texts, List.mem_append, List.mem_cons, Option.mem_toList,
      Option.map_eq_some_iff, made.construction] at hx
    obtain (((rfl | ⟨c, hc, rfl⟩) | hx) | hx) | hx := hx
    · rwa [name]
    · rwa [Given.constructor_typeName c hc]
    · exact properties x hx
    · exact functions x hx
    · exact events x hx

end MakesClass

theorem classMembers_makes {id : TypeId} {s u : Session}
    (single : ∀ f ∈ fs ++ es, ∀ p ∈ f.params, p.arrayDim = 1)
    {members : Option StaticConstructor × List WrapperProperty × List Wrapper × List EventStub}
    (h : classMembers id t ps fs es s = (.ok members, u)) :
    members.1 = staticConstructor t ps fs es ∧
      List.Forall₂ ShowsProperty (firstNamed (scriptName t) [] ps) members.2.1 ∧
      List.Forall₂ MakesWrapper fs members.2.2.1 ∧ List.Forall₂ MakesStub es members.2.2.2 := by
  obtain ⟨_, _, -, h⟩ := bind_eq_ok.1 h
  obtain ⟨shown, _, properties, h⟩ := bind_eq_ok.1 h
  obtain ⟨_, _, -, h⟩ := bind_eq_ok.1 h
  obtain ⟨called, _, functions, h⟩ := bind_eq_ok.1 h
  obtain ⟨stubs, _, events, h⟩ := bind_eq_ok.1 h
  obtain ⟨rfl, -⟩ := pure_eq_ok.1 h
  have stubbed := (List.forall₂_and_left es stubs).2
    ⟨fun f hf => single f (List.mem_append_right _ hf), mapM_eq_ok events⟩
  exact ⟨rfl, wrapperProperties_ok properties,
    makesWrappers (fun f hf => single f (List.mem_append_left _ hf)) functions,
    stubbed.imp fun f e ⟨single, _, _, made⟩ => makesStub single made⟩

/-- The unit of a class provides what it reads, whatever the visits to what the class needs do, as
long as they leave the members of the session vetted. -/
theorem classUnit_provides {visit : Visit} {id : TypeId} (isClass : (σ.type id).isClass)
    (visits : ∀ force id, Tame (Vetted σ) (fun _ => Vetted σ) (visit force id)) :
    Meets (Vetted σ) (fun _ => Vetted σ) (classUnit visit id (σ.type id)) fun unit =>
      Provides σ (σ.type id) unit.fields unit.lookups unit.reads unit.body := by
  have vetted := attentive_vetted (σ := σ)
  have visited (force : Bool) (d : TypeId) (_ : False → d < σ.size) := visits force d
  have held (f : Function) : Tame (Vetted σ) (fun _ => Vetted σ)
      (f.params.forM (exportDependencies visit)) :=
    .forM fun p _ => tame_exportDependencies visited p False.elim
  refine (tame_visitSome visited False.elim).bind fun _ _ =>
    (vetted.spaceOf False.elim).bind fun space _ => .get_bind fun s _ => ?_
  refine (vetted.exportInterfaces visited space [] False.elim).bind fun _ _ =>
    (vetted.superClassName _).bind fun _ _ =>
      (Meets.mapM fun d _ => vetted.qualifiedName d).bind fun _ _ =>
        (vetted.exportedProperties False.elim).bind fun ps passed =>
          (vetted.exportedFunctions False.elim id).bind fun ⟨fs, es⟩ good => ?_
  refine (vetted.passedDependencies visited passed).bind fun _ _ =>
    (Meets.forM fun f _ => held f).bind fun _ _ => ?_
  have passable : ∀ f ∈ fs ++ es, DeclaredPassable σ f :=
    List.forall_mem_append.2 ⟨fun f hf => (good.1 f hf).2, good.2⟩
  have names := Given.classMembers vetted good.1 passed good.2
  refine (names.and (names.ensures fun s x t h =>
    classMembers_makes (fun f hf p hp => ((passable f hf).passable p hp).2) h)).bind ?_
  rintro ⟨construction, shown, called, stubs⟩
    ⟨⟨shownNames, calledNames, stubNames⟩, constructed, properties, functions, events⟩
  exact .pure (MakesClass.provides ⟨constructed, properties, functions, events⟩ isClass rfl passed
    passable rfl shownNames calledNames stubNames)

end Session

end ScriptGlue
