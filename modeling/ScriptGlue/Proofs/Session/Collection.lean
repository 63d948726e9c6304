import ScriptGlue.Proofs.Session.Batch
import ScriptGlue.Proofs.Session.Frames

/-! # The extension methods of a generation

The export of a library class collects its extension methods in the order of its functions. A fault
may break this off, so that a part of them is collected; a generation that gives a result has
collected all those of the types it marked, and none of any other type.
-/
namespace ScriptGlue.Session
open ScriptGlue.Action

variable {s t u : Session}

structure Gathers (t : Session) (new : List ExtensionMethod) (u : Session) : Prop where
  rules : SameRules t u
  exported : u.exported = t.exported
  extensions : u.extensions = t.extensions ++ new

theorem Gathers.refl (t : Session) : Gathers t [] t :=
  ⟨.refl t, rfl, (List.append_nil _).symm⟩

theorem inert_gathers (t : Session) (new : List ExtensionMethod) :
    Inert (Gathers t new) (Gathers t new) where
  faulted _ h := h
  refused _ _ h := ⟨h.rules, h.exported, h.extensions⟩
  accepted _ _ _ _ h := ⟨h.rules, h.exported, h.extensions⟩
  recorded _ _ h := ⟨h.rules, h.exported, h.extensions⟩
  registered _ _ _ _ _ h := ⟨h.rules, h.exported, h.extensions⟩
  measured _ _ _ h := ⟨h.rules, h.exported, h.extensions⟩

def GathersSome (t : Session) (all : List ExtensionMethod) (u : Session) : Prop :=
  ∃ new, new <+: all ∧ Gathers t new u

theorem leads_gathers {α : Type} {a : Generation α} {new all : List ExtensionMethod}
    (part : new <+: all)
    (keeps : ∀ {I J : Session → Prop}, Steady (fun _ => True) I J → Keeps I J a) :
    Leads (Gathers t new) a (Gathers t new) fun _ => GathersSome t all :=
  have kept := keeps (inert_gathers t new).steady
  ⟨fun hs he => kept.result hs he, fun hs he => ⟨new, part, kept.fault hs he⟩⟩

theorem addExtension_gathers {id : TypeId} {f : Function} {new all : List ExtensionMethod}
    (static : f.has .static) (part : new ++ (methodOf? id f).toList <+: all) :
    Leads (Gathers t new) (addExtension id f) (Gathers t (new ++ (methodOf? id f).toList))
      fun _ => GathersSome t all := by
  have before : new <+: all := (List.prefix_append _ _).trans part
  refine Leads.bind (leads_gathers before fun _ => Keeps.get.bind fun _ => .pure _) fun node => ?_
  unfold methodOf? at part ⊢
  rw [if_pos static] at part ⊢
  cases resolved : Receiver.resolve (some Receiver.worldClass) f with
  | none =>
    refine .pure (fun u h => ?_) _
    simpa using h
  | some receiver =>
    rw [resolved] at part
    refine Leads.bind (Q := Gathers t (new ++ [{ function := f, receiver, library := id }])) ?_
      fun _ => leads_gathers part fun steady => steady.tell _ _ _
    refine ⟨fun h he => ?_, fun _ he => by cases he⟩
    obtain rfl := modify_eq_ok.1 he
    exact ⟨h.rules, h.exported, by rw [h.extensions, List.append_assoc]⟩

theorem wrappers_gathers {id : TypeId} {owner : Name} {isLibrary : Bool} {fs : List Function}
    {new all : List ExtensionMethod}
    (part : new ++ (if isLibrary then fs.filterMap (methodOf? id) else []) <+: all) :
    Leads (Gathers t new) (wrappers id owner isLibrary fs)
      (Gathers t (new ++ if isLibrary then fs.filterMap (methodOf? id) else []))
      fun _ => GathersSome t all := by
  induction fs generalizing new with
  | nil =>
    refine .pure (fun u h => ?_) _
    simpa using h
  | cons f fs ih =>
    have before : new <+: all := (List.prefix_append _ _).trans part
    refine Leads.bind (leads_gathers before fun steady => steady.wrapper f owner) fun shown => ?_
    have split : (if isLibrary then (f :: fs).filterMap (methodOf? id) else []) =
        (if isLibrary then (methodOf? id f).toList else []) ++
          if isLibrary then fs.filterMap (methodOf? id) else [] := by
      cases isLibrary with
      | false => rfl
      | true => cases found : methodOf? id f <;> simp [found]
    rw [split, ← List.append_assoc] at part ⊢
    have rest : Leads (Gathers t (new ++ if isLibrary then (methodOf? id f).toList else [])) (do
        let others ← wrappers id owner isLibrary fs
        return shown :: others)
        (Gathers t (new ++ (if isLibrary then (methodOf? id f).toList else []) ++
          if isLibrary then fs.filterMap (methodOf? id) else [])) fun _ => GathersSome t all :=
      (ih part).bind fun _ => .pure (fun _ h => h) _
    cases added : isLibrary && f.has .static with
    | true =>
      obtain ⟨rfl, static⟩ := Bool.and_eq_true_iff.1 added
      simp only [↓reduceIte]
      exact (addExtension_gathers static ((List.prefix_append _ _).trans part)).bind fun _ => rest
    | false =>
      simp only [Bool.false_eq_true, ↓reduceIte]
      have none : (if isLibrary then (methodOf? id f).toList else []) = [] := by
        cases isLibrary with
        | false => rfl
        | true =>
          simp only [Bool.true_and] at added
          simp [methodOf?, added]
      rw [none, List.append_nil] at rest ⊢
      exact rest

theorem classMembers_gathers {id : TypeId} {node : TypeNode} {ps : List Property}
    {functions events : List Function} :
    Leads (Gathers t []) (classMembers id node ps functions events)
      (Gathers t (if isChildOf t.store id functionLibraryClass then
        functions.filterMap (methodOf? id) else []))
      fun _ => GathersSome t (if isChildOf t.store id functionLibraryClass then
        functions.filterMap (methodOf? id) else []) := by
  refine Leads.bind (leads_gathers List.nil_prefix fun steady => Keeps.forM fun _ _ =>
    (Keeps.ofExcept steady.faulted _).bind fun _ => .pure _) fun _ => ?_
  refine Leads.bind (leads_gathers List.nil_prefix fun steady => steady.wrapperProperties _ _ _)
    fun shown => ?_
  refine .of_meets (Q := Gathers t _) (Meets.get_bind (f := fun s => Pure.pure s) fun s hs =>
    .pure (Q := fun v : Session => v.store = t.store) hs.rules.2) fun v store => ?_
  rw [store]
  refine Leads.bind (wrappers_gathers (by simp)) fun called => ?_
  rw [List.nil_append]
  exact Leads.bind (leads_gathers List.prefix_rfl fun steady => Keeps.mapM fun f _ =>
    steady.eventStub f _) fun _ => .pure (fun _ h => h) _

def methodsFrom (id : TypeId) (es : List ExtensionMethod) : List ExtensionMethod :=
  es.filter fun e => e.library = id

theorem methodsFrom_append (id : TypeId) (es more : List ExtensionMethod) :
    methodsFrom id (es ++ more) = methodsFrom id es ++ methodsFrom id more := List.filter_append ..

theorem methodsFrom_eq_self {id : TypeId} {es : List ExtensionMethod}
    (h : ∀ e ∈ es, e.library = id) : methodsFrom id es = es :=
  List.filter_eq_self.2 fun e he => by simpa using h e he

theorem methodsFrom_eq_nil {id : TypeId} {es : List ExtensionMethod}
    (h : ∀ e ∈ es, e.library ≠ id) : methodsFrom id es = [] :=
  List.filter_eq_nil_iff.2 fun e he => by simpa using h e he

structure Extends (base : Session) (new : List ExtensionMethod) (s : Session) : Prop where
  rules : SameRules base s
  marked : base.exported ⊆ s.exported
  inside : ∀ id ∈ s.exported, id ∈ base.exported ∨ id < base.store.size
  extensions : s.extensions = base.extensions ++ new
  libraries : ∀ e ∈ new, e.library ∈ s.exported ∧ e.library ∉ base.exported

theorem Extends.of_same {base : Session} {new : List ExtensionMethod} (h : Extends base new s)
    (rules : SameRules s t) (exported : t.exported = s.exported)
    (extensions : t.extensions = s.extensions) : Extends base new t where
  rules := h.rules.trans rules
  marked := exported ▸ h.marked
  inside := exported ▸ h.inside
  extensions := extensions.trans h.extensions
  libraries := exported ▸ h.libraries

/-- Every type that was marked has all its extension methods collected, but for those whose exports
are in progress and are not flagged. -/
def Collects (base : Session) (stack : Stack) (s : Session) : Prop :=
  ((stack.map Prod.fst).Nodup ∧ ∀ id ∈ stack.map Prod.fst, id ∈ s.exported ∧ id ∉ base.exported) ∧
    ∃ new, Extends base new s ∧ ∀ id ∈ s.exported, id ∉ base.exported →
      methodsFrom id new = if (id, false) ∈ stack then [] else base.methodsOf id

def CollectsSome (base s : Session) : Prop :=
  ∃ new, Extends base new s ∧ ∀ id, methodsFrom id new <+: base.methodsOf id

variable {base : Session} {stack : Stack} {id : TypeId}

theorem Collects.of_same (h : Collects base stack s) (rules : SameRules s t)
    (exported : t.exported = s.exported) (extensions : t.extensions = s.extensions) :
    Collects base stack t := by
  obtain ⟨progress, new, joined, collected⟩ := h
  exact ⟨exported ▸ progress, new, joined.of_same rules exported extensions, exported ▸ collected⟩

theorem Extends.not_exported {new : List ExtensionMethod} (h : Extends base new s)
    (outside : id ∉ s.exported ∨ id ∈ base.exported) : methodsFrom id new = [] :=
  methodsFrom_eq_nil fun e he same => outside.elim (fun no => no (same ▸ (h.libraries e he).1))
    fun old => (h.libraries e he).2 (same ▸ old)

theorem Collects.some (h : Collects base stack s) : CollectsSome base s := by
  obtain ⟨-, new, joined, collected⟩ := h
  refine ⟨new, joined, fun id => ?_⟩
  by_cases fresh : id ∈ s.exported ∧ id ∉ base.exported
  · rw [collected id fresh.1 fresh.2]
    split
    · exact List.nil_prefix
    · exact List.prefix_rfl
  · rw [joined.not_exported (by rwa [not_and_or, not_not] at fresh)]
    exact List.nil_prefix

theorem inert_collects (base : Session) (stack : Stack) :
    Inert (Collects base stack) fun s => ∀ _ : Fault, CollectsSome base s where
  faulted _ h _ := h.some
  refused _ _ h := h.of_same ⟨rfl, rfl⟩ rfl rfl
  accepted _ _ _ _ h := h.of_same ⟨rfl, rfl⟩ rfl rfl
  recorded _ _ h := h.of_same ⟨rfl, rfl⟩ rfl rfl
  registered _ _ _ _ _ h := h.of_same ⟨rfl, rfl⟩ rfl rfl
  measured _ _ _ h := h.of_same ⟨rfl, rfl⟩ rfl rfl

theorem saving_collects (base : Session) (stack : Stack) :
    Saving (Collects base stack) fun s => ∀ _ : Fault, CollectsSome base s where
  toSteady := (inert_collects base stack).steady
  saved := keeps_saveUnit (fun _ h _ => h.some) fun _ _ h => h.of_same ⟨rfl, rfl⟩ rfl rfl

theorem Collects.marking (h : Collects base stack s) (inside : id < base.store.size)
    (fresh : id ∉ s.exported) :
    Collects base ((id, false) :: stack) { s with exported := id :: s.exported } := by
  obtain ⟨⟨distinct, progress⟩, new, joined, collected⟩ := h
  have idle : id ∉ stack.map Prod.fst := fun hid => fresh (progress id hid).1
  have new_type : id ∉ base.exported := fun old => fresh (joined.marked old)
  refine ⟨⟨List.nodup_cons.2 ⟨idle, distinct⟩, fun d hd => ?_⟩, new, ?_, fun d hd old => ?_⟩
  · obtain rfl | hd := List.mem_cons.1 hd
    · exact ⟨List.mem_cons_self, new_type⟩
    · exact ⟨List.mem_cons_of_mem _ (progress d hd).1, (progress d hd).2⟩
  · exact {
      rules := joined.rules
      marked := List.subset_cons_of_subset id joined.marked
      inside := List.forall_mem_cons.2 ⟨.inr inside, joined.inside⟩
      extensions := joined.extensions
      libraries := fun e he => ⟨List.mem_cons_of_mem _ (joined.libraries e he).1,
        (joined.libraries e he).2⟩ }
  · obtain rfl | hd := List.mem_cons.1 hd
    · rw [if_pos List.mem_cons_self, joined.not_exported (.inl fresh)]
    · have other : d ≠ id := fun same => fresh (same ▸ hd)
      rw [collected d hd old]
      simp [other]

theorem Extends.gather {new more : List ExtensionMethod} (h : Extends base new s)
    (marked : id ∈ s.exported ∧ id ∉ base.exported) (own : ∀ e ∈ more, e.library = id)
    (g : Gathers s more t) : Extends base (new ++ more) t where
  rules := h.rules.trans g.rules
  marked := g.exported ▸ h.marked
  inside := g.exported ▸ h.inside
  extensions := by rw [g.extensions, h.extensions, List.append_assoc]
  libraries e he := by
    rw [g.exported]
    obtain he | he := List.mem_append.1 he
    · exact h.libraries e he
    · exact own e he ▸ marked

/-- The type of an export in progress that is not flagged has nothing collected so far. -/
theorem Collects.gather (h : Collects base ((id, false) :: stack) s)
    (g : Gathers s (base.methodsOf id) t) : Collects base ((id, true) :: stack) t := by
  obtain ⟨⟨distinct, progress⟩, new, joined, collected⟩ := h
  have marked := progress id List.mem_cons_self
  have own : ∀ e ∈ base.methodsOf id, e.library = id := fun e he => library_of_mem_methodsOf he
  refine ⟨⟨distinct, by rwa [g.exported]⟩, _, joined.gather marked own g, fun d hd old => ?_⟩
  rw [g.exported] at hd
  rw [methodsFrom_append, collected d hd old]
  by_cases same : d = id
  · subst same
    have idle : (d, false) ∉ stack := fun again =>
      (List.nodup_cons.1 distinct).1 (List.mem_map_of_mem again)
    rw [if_pos List.mem_cons_self, if_neg (by simpa using idle), methodsFrom_eq_self own,
      List.nil_append]
  · rw [methodsFrom_eq_nil fun e he other => same (other.symm.trans (own e he)), List.append_nil]
    simp [same]

theorem Collects.gatherSome (h : Collects base ((id, false) :: stack) s)
    (g : GathersSome s (base.methodsOf id) t) : CollectsSome base t := by
  obtain ⟨more, part, g⟩ := g
  have own : ∀ e ∈ more, e.library = id := fun e he => library_of_mem_methodsOf (part.subset he)
  have some := h.some
  obtain ⟨⟨-, progress⟩, new, joined, collected⟩ := h
  have marked := progress id List.mem_cons_self
  refine ⟨_, joined.gather marked own g, fun d => ?_⟩
  rw [methodsFrom_append]
  by_cases same : d = id
  · subst same
    rwa [collected d marked.1 marked.2, if_pos List.mem_cons_self, methodsFrom_eq_self own,
      List.nil_append]
  · rw [methodsFrom_eq_nil fun e he other => same (other.symm.trans (own e he)), List.append_nil]
    obtain ⟨new', joined', part'⟩ := some
    have : new' = new :=
      List.append_cancel_left (joined'.extensions.symm.trans joined.extensions)
    exact this ▸ part' d

theorem Collects.ended {b : Bool} (h : Collects base ((id, b) :: stack) s)
    (all : b = false → base.methodsOf id = []) : Collects base stack s := by
  obtain ⟨⟨distinct, progress⟩, new, joined, collected⟩ := h
  have idle : (id, false) ∉ stack := fun again =>
    (List.nodup_cons.1 distinct).1 (List.mem_map.2 ⟨_, again, rfl⟩)
  refine ⟨⟨(List.nodup_cons.1 distinct).2, fun d hd => progress d (List.mem_cons_of_mem _ hd)⟩, new,
    joined, fun d hd old => ?_⟩
  rw [collected d hd old]
  by_cases same : d = id
  · subst same
    cases b with
    | true => simp
    | false => simp [all rfl]
  · simp [same]

theorem nesting_collects (base : Session) :
    Nesting base (fun stack x => Collects base stack x.1) fun _ x => CollectsSome base x.1 where
  rules _ _ h := by
    obtain ⟨-, _, joined, -⟩ := h
    exact joined.rules
  inert stack _ := inert_collects base stack
  passedOver _ _ _ _ h := h.of_same ⟨rfl, rfl⟩ rfl rfl
  marked _ _ _ _ inside fresh h := h.marking inside fresh
  gathered stack id ps events variant plain := by
    have all {s : Session} (hs : Collects base ((id, false) :: stack) s) :
        (if isChildOf s.store id functionLibraryClass then
          (base.passedFunctions (base.store.type id)).filterMap (methodOf? id) else []) =
          base.methodsOf id := by
      obtain ⟨-, _, joined, -⟩ := hs
      rw [methodsOf_class variant plain, joined.rules.2]
    constructor
    · rintro ⟨s, notes⟩ t x hs he
      obtain ⟨run, rfl⟩ := Prod.mk.inj he
      have gathered := classMembers_gathers.result (.refl s) (Prod.ext run rfl)
      exact hs.gather (all hs ▸ gathered)
    · rintro ⟨s, notes⟩ t e hs he
      obtain ⟨run, rfl⟩ := Prod.mk.inj he
      have gathered := classMembers_gathers.fault (.refl s) (Prod.ext run rfl)
      exact hs.gatherSome (all hs ▸ gathered)
  saved stack id b code all := by
    have kept := (saving_collects base stack).saveTypeUnit (base.store.type id) code
    constructor
    · rintro ⟨s, notes⟩ t x hs he
      obtain ⟨run, rfl⟩ := Prod.mk.inj he
      exact kept.result (hs.ended all) (Prod.ext run rfl)
    · rintro ⟨s, notes⟩ t e hs he
      obtain ⟨run, rfl⟩ := Prod.mk.inj he
      exact kept.fault (hs.ended all) (Prod.ext run rfl) e
  extensions s notes name _ _ := by
    have kept := (saving_collects base []).saveExtensions name
    constructor
    · exact fun hs he => ⟨trivial, kept.result hs he⟩
    · exact fun {_ _ e} hs he => kept.fault hs he e

end ScriptGlue.Session
