import ScriptGlue.Proofs.Graph.Growth
import ScriptGlue.Proofs.Names

/-! # Links of a graph

Every document that joins a graph links its own types and no others, each name to the newest type
of that name once all types of the document are there. So the links of a type say what was newest
when the type was read, and keep saying it when the graph grows.
-/
namespace ScriptGlue

mutual

/-- The property and its elements, however deep, refer to what is found under their type names, and
to nothing where there is no type name. -/
def Property.Resolved (find : Name → Option TypeId) : Property → Prop
  | ⟨_, _, _, refName, ref, inner, value, _, _, _⟩ =>
    ref = (if refName.truthy then find refName else none) ∧ elementResolved find inner ∧
      elementResolved find value

def elementResolved (find : Name → Option TypeId) : Option Property → Prop
  | some p => Property.Resolved find p
  | none => True

end

section
variable {find seek : Name → Option TypeId}

mutual

theorem Property.link_resolved : ∀ p : Property, p.targets = [] →
    (∀ name ∈ p.refNames, find name = seek name) → (p.link find).Resolved seek
  | ⟨_, _, _, refName, ref, inner, value, _, _, _⟩, unlinked, same => by
    simp only [Property.targets, List.append_eq_nil_iff, Option.toList_eq_nil_iff] at unlinked
    obtain ⟨⟨rfl, hinner⟩, hvalue⟩ := unlinked
    simp only [Property.refNames, List.mem_append] at same
    refine ⟨?_, linkElement_resolved inner hinner fun name h => same name (.inl (.inr h)),
      linkElement_resolved value hvalue fun name h => same name (.inr h)⟩
    split
    · next present => exact same refName (.inl (.inl (by simp [present])))
    · rfl

theorem linkElement_resolved : ∀ p : Option Property, elementTargets p = [] →
    (∀ name ∈ elementRefNames p, find name = seek name) → elementResolved seek (linkElement find p)
  | some p, unlinked, same => Property.link_resolved p unlinked same
  | none, _, _ => trivial

end

mutual

theorem Property.link_refNames : ∀ p : Property, (p.link find).refNames = p.refNames
  | ⟨_, _, _, refName, ref, inner, value, _, _, _⟩ => by
    simp only [Property.link, Property.refNames, linkElement_refNames inner,
      linkElement_refNames value]

theorem linkElement_refNames : ∀ p : Option Property,
    elementRefNames (linkElement find p) = elementRefNames p
  | some p => Property.link_refNames p
  | none => rfl

end

theorem map_link_resolved {ps : List Property} (unlinked : ps.flatMap Property.targets = [])
    (same : ∀ name ∈ ps.flatMap Property.refNames, find name = seek name) :
    ∀ p ∈ ps.map (Property.link find), p.Resolved seek := by
  intro _ linked
  obtain ⟨p, hp, rfl⟩ := List.mem_map.1 linked
  exact Property.link_resolved p (List.flatMap_eq_nil_iff.1 unlinked p hp)
    fun name h => same name (List.mem_flatMap.2 ⟨p, hp, h⟩)

end

/-- Every name the type declares leads to what is found under it: the super and the interfaces, in
order, to classes only, the properties and parameters to any type. -/
structure TypeNode.Resolved (find : Name → Option TypeId) (isClass : TypeId → Bool)
    (t : TypeNode) : Prop where
  super : ∀ c, t.classBody? = some c → c.super = (find c.superName).filter isClass
  interfaces : ∀ c, t.classBody? = some c →
    c.interfaces = c.interfaceNames.filterMap fun name => (find name).filter isClass
  params : ∀ f ∈ t.functions, ∀ p ∈ f.params, p.Resolved find
  properties : ∀ ps, t.properties? = some ps → ∀ p ∈ ps, p.Resolved find

/-- The module of a type and the types it refers to are called by texts. -/
structure TypeNode.TextLinked (t : TypeNode) : Prop where
  home : t.home.name.isText
  links : ∀ name ∈ t.linkNames, name.isText

instance (t : TypeNode) : Decidable t.TextLinked :=
  decidable_of_iff (t.home.name.isText ∧ ∀ name ∈ t.linkNames, name.isText)
    ⟨fun ⟨home, links⟩ => ⟨home, links⟩, fun h => ⟨h.home, h.links⟩⟩

namespace TypeNode
variable {find seek : Name → Option TypeId} {isClass : TypeId → Bool} {t : TypeNode}

@[simp] theorem link_name : (t.link find isClass).name = t.name := rfl

@[simp] theorem link_home : (t.link find isClass).home = t.home := rfl

@[simp] theorem link_isClass : (t.link find isClass).isClass = t.isClass := by
  obtain ⟨name, home, flags, body⟩ := t
  cases body <;> rfl

theorem link_resolved_of_class {c : ClassBody} (body : t.classBody? = some c)
    (body' : (t.link find isClass).classBody? = some (c.link find isClass))
    (properties : t.properties? = some c.properties)
    (properties' : (t.link find isClass).properties? = some (c.link find isClass).properties)
    (unlinked : t.links = []) (same : ∀ name ∈ t.linkNames, find name = seek name) :
    (t.link find isClass).Resolved seek isClass := by
  have functions' : (t.link find isClass).functions = c.functions.map (Function.link find) := by
    simp [functions, body', ClassBody.link]
  simp only [links, super, interfaces, functions, body, properties, Option.map_some,
    Option.getD_some, List.append_eq_nil_iff] at unlinked
  obtain ⟨⟨-, hparams⟩, hproperties⟩ := unlinked
  simp only [linkNames, body, List.mem_append, List.mem_cons] at same
  constructor
  · rintro _ hc
    obtain rfl := Option.some.inj (body'.symm.trans hc)
    simp only [ClassBody.link, same c.superName (.inl (.inl (.inl rfl)))]
  · rintro _ hc
    obtain rfl := Option.some.inj (body'.symm.trans hc)
    refine List.filterMap_congr fun name hname => ?_
    rw [same name (.inl (.inl (.inr hname)))]
  · intro _ linked
    rw [functions'] at linked
    obtain ⟨f, hf, rfl⟩ := List.mem_map.1 linked
    exact map_link_resolved (List.flatMap_eq_nil_iff.1 hparams f hf)
      fun name h => same name (.inl (.inr (List.mem_flatMap.2 ⟨f, hf, h⟩)))
  · rintro _ hps
    obtain rfl := Option.some.inj (properties'.symm.trans hps)
    exact map_link_resolved hproperties fun name h => same name (.inr h)

theorem link_resolved (unlinked : t.links = [])
    (same : ∀ name ∈ t.linkNames, find name = seek name) :
    (t.link find isClass).Resolved seek isClass := by
  obtain ⟨name, home, flags, body⟩ := t
  cases body with
  | plainClass c => exact link_resolved_of_class rfl rfl rfl rfl unlinked same
  | interface c => exact link_resolved_of_class rfl rfl rfl rfl unlinked same
  | struct ps =>
    refine ⟨fun _ h => (nomatch h), fun _ h => (nomatch h), fun _ h => (nomatch h), ?_⟩
    rintro _ ⟨⟩
    exact map_link_resolved unlinked same
  | enum entries underlying =>
    exact ⟨fun _ h => (nomatch h), fun _ h => (nomatch h), fun _ h => (nomatch h),
      fun _ h => (nomatch h)⟩

theorem link_linkNames : (t.link find isClass).linkNames = t.linkNames := by
  have properties (ps : List Property) :
      (ps.map (Property.link find)).flatMap Property.refNames = ps.flatMap Property.refNames := by
    simp only [List.flatMap_map, Property.link_refNames]
  have classes (c : ClassBody) : ((c.link find isClass).functions.flatMap fun f =>
      f.params.flatMap Property.refNames) =
      c.functions.flatMap fun f => f.params.flatMap Property.refNames := by
    simp only [ClassBody.link, Function.link, List.flatMap_map, properties]
  obtain ⟨name, home, flags, body⟩ := t
  cases body with
  | plainClass c | interface c =>
    show c.superName :: c.interfaceNames ++ _ ++ _ = c.superName :: c.interfaceNames ++ _ ++ _
    rw [classes]
    exact congrArg _ (properties c.properties)
  | struct ps => exact properties ps
  | enum entries underlying => rfl

end TypeNode

namespace ModuleTable

def Filed (modules : ModuleTable) : Prop :=
  ∀ entry ∈ modules, ∀ word, entry.2.name = .text word → entry.1 = .text word

theorem Filed.declare {modules : ModuleTable} (filed : modules.Filed) (m : NativeModule) :
    (modules.declare m).Filed := by
  intro entry he word named
  unfold ModuleTable.declare at he
  split at he
  · obtain ⟨known, hknown, rfl⟩ := List.mem_map.1 he
    by_cases alike : known.1.alike m.name
    · rw [if_pos alike] at named ⊢
      rw [named] at alike
      exact (Value.alike_text_right _ _).1 alike
    · rw [if_neg alike] at named ⊢
      exact filed known hknown word named
  · obtain he | he := List.mem_append.1 he
    · exact filed entry he word named
    · cases List.mem_singleton.1 he
      exact named

theorem find?_append {modules more : ModuleTable} {name : Name} {m : NativeModule}
    (h : modules.find? name = some m) : ModuleTable.find? (modules ++ more) name = some m := by
  obtain ⟨entry, found, rfl⟩ := Option.map_eq_some_iff.1 h
  simp [ModuleTable.find?, List.find?_append, found]

/-- A module that was found under some name, and is called by a text, is found under that text. -/
theorem Filed.find?_name {modules : ModuleTable} (filed : modules.Filed) {name : Name}
    {m : NativeModule} (found : modules.find? name = some m) {word : String}
    (named : m.name = .text word) : modules.find? (.text word) = some m := by
  obtain ⟨entry, hentry, rfl⟩ := Option.map_eq_some_iff.1 found
  have key := filed entry (List.mem_of_find?_eq_some hentry) word named
  have alike := List.find?_some hentry
  rw [key, Value.alike_text_left] at alike
  rwa [alike] at found

end ModuleTable

namespace Graph

/-- The declaration of a type: it gives the type its name, and the name under which its module is
known. -/
def Declares (modules : ModuleTable) (declaration : Value) (t : TypeNode) : Prop :=
  ∃ fields key, declaration = .object fields ∧ fields.lookup "name" = some t.name ∧
    fields.lookup "module" = some key ∧ modules.find? key = some t.home

/-- The declaration gives the type, all of it, where these modules are known. -/
def Gives (modules : ModuleTable) (declaration : Value) (t : TypeNode) : Prop :=
  ∃ fields key, declaration = .object fields ∧ Describes fields key t ∧
    modules.find? key = some t.home

theorem Gives.declares {modules : ModuleTable} {v : Value} {t : TypeNode} :
    Gives modules v t → Declares modules v t := by
  rintro ⟨fields, key, hv, described, found⟩
  exact ⟨fields, key, hv, described.name, described.module, found⟩

theorem Gives.mono {modules more : ModuleTable} (h : modules <+: more) {v : Value} {t : TypeNode} :
    Gives modules v t → Gives more v t := by
  rintro ⟨fields, key, hv, described, found⟩
  obtain ⟨rest, rfl⟩ := h
  exact ⟨fields, key, hv, described, ModuleTable.find?_append found⟩

theorem readType_modules {modules after : ModuleTable} {v : Value} {t : TypeNode}
    (h : readType modules v = .ok (t, after)) :
    modules <+: after ∧ (modules.Filed → after.Filed) ∧ Gives after v t := by
  obtain ⟨fields, key, rfl, described, ⟨found, rfl⟩ | ⟨missing, home, rfl⟩⟩ := readType_eq_ok h
  · exact ⟨List.prefix_rfl, id, fields, key, rfl, described, found⟩
  · refine ⟨List.prefix_append _ _, fun filed => ?_, fields, key, rfl, described, ?_⟩
    · exact List.forall_mem_append.2 ⟨filed, List.forall_mem_singleton.2 fun _ named => named⟩
    · have absent := Option.map_eq_none_iff.1 missing
      simp [ModuleTable.find?, List.find?_append, absent, Value.alike_self described.isKey, home]

theorem readTypes_modules {modules after : ModuleTable} {vs : List Value} {ts : List TypeNode}
    (h : readTypes modules vs = .ok (ts, after)) :
    modules <+: after ∧ (modules.Filed → after.Filed) ∧ List.Forall₂ (Gives after) vs ts := by
  induction vs generalizing modules ts with
  | nil =>
    cases h
    exact ⟨List.prefix_rfl, id, .nil⟩
  | cons v rest ih =>
    obtain ⟨⟨t, next⟩, ht, h⟩ := except_bind_eq_ok.1 h
    obtain ⟨⟨others, last⟩, hothers, h⟩ := except_bind_eq_ok.1 h
    cases h
    obtain ⟨first, filed, given⟩ := readType_modules ht
    obtain ⟨more, filed', all⟩ := ih hothers
    exact ⟨first.trans more, filed' ∘ filed, .cons (given.mono more) all⟩

def declarations (data : Value) : List Value :=
  match data with
  | .object fields => (itemsAt fields "types").toOption.getD []
  | _ => []

theorem readDocument_modules {known after : ModuleTable} {data : Value} {ts : List TypeNode}
    (h : readDocument known data = .ok (after, ts)) :
    (known.Filed → after.Filed) ∧ List.Forall₂ (Gives after) (declarations data) ts := by
  obtain ⟨fields, _, ms, vs, rfl, -, -, hvs, types⟩ := readDocument_eq_ok h
  obtain ⟨-, filed, all⟩ := readTypes_modules types
  refine ⟨fun known => filed ?_, by simpa [declarations, hvs, Except.toOption] using all⟩
  exact List.foldlRecOn (motive := ModuleTable.Filed) _ _ known fun _ filed m _ => filed.declare m

theorem newest?_text (store : TypeStore) (g : Graph) (word : String) :
    newest? store g.members (.text word) = g.find? store (.text word) := by
  simp only [newest?, Graph.find?, Value.same_text_right]

theorem lookup_filterMap (f : Name → Option TypeId) (names : List Name) (key : Name) :
    (names.filterMap fun name => (f name).map (name, ·)).lookup key =
      if key ∈ names then f key else none := by
  induction names with
  | nil => rfl
  | cons name rest ih =>
    by_cases same : key = name
    · subst same
      cases found : f key with
      | some d => simp [found]
      | none => simp [found, ih]
    · cases found : f name with
      | some d => simp [found, ih, same, List.lookup_cons, beq_false_of_ne same]
      | none => simp [found, ih, same]

theorem lookup_index (store : TypeStore) (g : Graph) (word : String) :
    (g.index store).lookup (.text word) = g.find? store (.text word) := by
  rw [index, lookup_filterMap, newest?_text]
  split
  · rfl
  · next absent =>
    symm
    rw [Graph.find?, List.find?_eq_none]
    intro id hid named
    rw [Value.same_text_right, Value.alike_text_right] at named
    refine absent (Value.text_mem_distinct (List.mem_map.2 ⟨id, List.mem_reverse.1 hid, named⟩))

/-- A graph that documents built in a store: each was merged into it, the first into an empty one,
and graphs of their own were read into the store besides. -/
inductive Loaded : TypeStore → Graph → Prop where
  | empty (store : TypeStore) : Loaded store {}
  | merged {store : TypeStore} {g : Graph} {data : Value} {ext : Extension} (before : Loaded store g)
      (h : extend store g data = .ok ext) : Loaded ext.store ext.graph
  | beside {store : TypeStore} {g other : Graph} {data : Value} {ext : Extension}
      (before : Loaded store g) (h : extend store other data = .ok ext) : Loaded ext.store g

theorem size_le_of_extend {store : TypeStore} {known : Graph} {data : Value} {ext : Extension}
    (h : extend store known data = .ok ext) : store.size ≤ ext.store.size := by
  obtain ⟨modules, nodes, -, -, -, hstore⟩ := extend_eq_ok h
  simp [hstore]

theorem Inside.extend {store : TypeStore} {known : Graph} {data : Value} {ext : Extension}
    (inside : known.Inside store) (h : Graph.extend store known data = .ok ext) :
    ext.graph.Inside ext.store := by
  obtain ⟨modules, nodes, -, hadded, hgraph, hstore⟩ := extend_eq_ok h
  intro id hid
  rw [hgraph] at hid
  obtain hid | hid := List.mem_append.1 hid
  · exact Nat.lt_of_lt_of_le (inside id hid) (size_le_of_extend h)
  · rw [hadded, List.mem_range'_1] at hid
    simpa [hstore] using hid.2

theorem filed_of_extend {store : TypeStore} {known : Graph} {data : Value} {ext : Extension}
    (filed : known.modules.Filed) (h : Graph.extend store known data = .ok ext) :
    ext.graph.modules.Filed := by
  obtain ⟨modules, nodes, hread, -, hgraph, -⟩ := extend_eq_ok h
  rw [hgraph]
  exact (readDocument_modules hread).1 filed

namespace Loaded
variable {store : TypeStore} {g : Graph}

theorem inside (h : Loaded store g) : g.Inside store := by
  induction h with
  | empty => exact fun _ hid => absurd hid List.not_mem_nil
  | merged _ h ih => exact ih.extend h
  | beside _ h ih => exact fun id hid => Nat.lt_of_lt_of_le (ih id hid) (size_le_of_extend h)

theorem filed (h : Loaded store g) : g.modules.Filed := by
  induction h with
  | empty => exact fun _ he => absurd he List.not_mem_nil
  | merged _ h ih => exact filed_of_extend ih h
  | beside _ _ ih => exact ih

end Loaded

theorem type_map_link {store : TypeStore} {nodes : List TypeNode} {link : TypeNode → TypeNode}
    {α : Type} {f : TypeNode → α} (keeps : ∀ t, f (link t) = f t) (id : TypeId) :
    f (TypeStore.type (store ++ (nodes.map link).toArray) id) =
      f (TypeStore.type (store ++ nodes.toArray) id) := by
  by_cases known : id < store.size
  · rw [type_append_left known, type_append_left known]
  · obtain ⟨i, rfl⟩ := Nat.exists_eq_add_of_le (Nat.le_of_not_lt known)
    by_cases hi : i < nodes.length
    · rw [type_append_right hi, type_append_right (by simpa using hi), List.getElem_map, keeps]
    · rw [TypeStore.type_of_size_le, TypeStore.type_of_size_le] <;> simp <;> omega

/-- The types that a document adds are linked to what is found in the graph that it leaves, by any
search that finds the newest types under their names. -/
theorem resolved_of_extend {store : TypeStore} {known : Graph} {data : Value} {ext : Extension}
    (h : extend store known data = .ok ext) {id : TypeId} (new : store.size ≤ id)
    (hid : id < ext.store.size) {find : Name → Option TypeId}
    (newest : ∀ name ∈ (ext.store.type id).linkNames,
      newest? ext.store ext.graph.members name = find name) :
    (ext.store.type id).Resolved find fun d => (ext.store.type d).isClass := by
  obtain ⟨modules, nodes, hread, -, hgraph, hstore⟩ := extend_eq_ok h
  have names (name : Name) : newest? (store ++ nodes.toArray) (known.members ++ ext.added) name =
      newest? ext.store ext.graph.members name := by
    rw [hgraph, newest?, newest?, hstore]
    simp only [type_map_link (fun _ => TypeNode.link_name)]
  have classes : (fun d => (ext.store.type d).isClass) =
      fun d => (TypeStore.type (store ++ nodes.toArray) d).isClass := by
    funext d
    rw [hstore, type_map_link (fun _ => TypeNode.link_isClass)]
  obtain ⟨i, rfl⟩ := Nat.exists_eq_add_of_le new
  have hi : i < nodes.length := by simpa [hstore] using hid
  have linked : ext.store.type (store.size + i) = nodes[i].link
      (newest? (store ++ nodes.toArray) (known.members ++ ext.added))
        fun d => (ext.store.type d).isClass := by
    rw [classes, hstore, type_append_right (by simpa using hi), List.getElem_map]
  rw [linked, TypeNode.link_linkNames] at newest
  rw [linked]
  exact TypeNode.link_resolved (readDocument_links hread _ (List.getElem_mem hi))
    fun name hname => (names name).trans (newest name hname)

/-- The types that a document adds, linked to the newest types of their names in the graph that it
leaves. -/
theorem added_resolved {store : TypeStore} {known : Graph} {data : Value} {ext : Extension}
    (h : extend store known data = .ok ext) {id : TypeId} (hid : id ∈ ext.added)
    (texts : ∀ name ∈ (ext.store.type id).linkNames, name.isText) :
    (ext.store.type id).Resolved (ext.graph.find? ext.store) fun d => (ext.store.type d).isClass := by
  obtain ⟨modules, nodes, -, hadded, -, hstore⟩ := extend_eq_ok h
  rw [hadded, List.mem_range'_1] at hid
  refine resolved_of_extend h hid.1 (by simpa [hstore] using hid.2) fun name hname => ?_
  obtain ⟨word, rfl⟩ := Value.eq_text_of_isText (texts name hname)
  exact newest?_text _ _ word

/-- The types that a document adds are those that its declarations give. -/
theorem extend_declares {store : TypeStore} {known : Graph} {data : Value} {ext : Extension}
    (h : extend store known data = .ok ext) : List.Forall₂ (fun declaration id =>
      Declares ext.graph.modules declaration (ext.store.type id)) (declarations data) ext.added := by
  obtain ⟨modules, nodes, hread, hadded, hgraph, hstore⟩ := extend_eq_ok h
  have declared := (readDocument_modules hread).2.imp fun _ _ => Gives.declares
  rw [List.forall₂_iff_get] at declared ⊢
  obtain ⟨length, declared⟩ := declared
  refine ⟨by simp [hadded, length], fun i hi hi' => ?_⟩
  have node : i < nodes.length := by simpa [hadded] using hi'
  have name : (ext.store.type (store.size + i)).name = nodes[i].name := by
    rw [hstore, type_map_link (fun _ => TypeNode.link_name), type_append_right node]
  have home : (ext.store.type (store.size + i)).home = nodes[i].home := by
    rw [hstore, type_map_link (fun _ => TypeNode.link_home), type_append_right node]
  simpa [hadded, name, home, hgraph, Declares] using declared i hi node

/-- The modules of the types that a document adds are known in the graph that it leaves. -/
theorem home_known_of_extend {store : TypeStore} {known : Graph} {data : Value} {ext : Extension}
    (h : extend store known data = .ok ext) {id : TypeId} (hid : id ∈ ext.added) :
    ∃ key, ext.graph.modules.find? key = some (ext.store.type id).home := by
  have declared := extend_declares h
  obtain ⟨i, hi, rfl⟩ := List.mem_iff_getElem.1 hid
  obtain ⟨fields, key, -, -, -, found⟩ := declared.get (declared.length_eq ▸ hi) hi
  exact ⟨key, found⟩

/-- A document that joins a graph leaves the types before it as they are, and its own, one for each
declaration, are linked to the newest types of their names: by what the graph finds when the
document has joined it, which is also what its index says. Their modules are those that the graph
then knows under the names that the declarations give. -/
theorem extend_links_newest {store : TypeStore} {known : Graph} {data : Value} {ext : Extension}
    (loaded : Loaded store known) (h : extend store known data = .ok ext)
    (texts : ∀ id ∈ ext.added, (ext.store.type id).TextLinked) :
    ext.graph.members = known.members ++ ext.added ∧
      (∀ id ∈ known.members, ext.store.type id = store.type id) ∧
      List.Forall₂ (fun declaration id =>
        Declares ext.graph.modules declaration (ext.store.type id)) (declarations data) ext.added ∧
      (∀ id ∈ ext.added,
        (ext.store.type id).Resolved (ext.graph.find? ext.store)
            (fun d => (ext.store.type d).isClass) ∧
          ext.graph.modules.find? (ext.store.type id).home.name =
            some (ext.store.type id).home) ∧
      ∀ word, (ext.graph.index ext.store).lookup (.text word) =
        ext.graph.find? ext.store (.text word) := by
  obtain ⟨modules, nodes, hread, hadded, hgraph, hstore⟩ := extend_eq_ok h
  refine ⟨by rw [hgraph], fun id hid => ?_, extend_declares h, fun id hid => ⟨?_, ?_⟩,
    lookup_index _ _⟩
  · rw [hstore, type_append_left (loaded.inside id hid)]
  · exact added_resolved h hid (texts id hid).links
  · obtain ⟨key, found⟩ := home_known_of_extend h hid
    obtain ⟨word, named⟩ := Value.eq_text_of_isText (texts _ hid).home
    rw [named]
    exact (filed_of_extend loaded.filed h).find?_name found named

/-- A class called `Base` in a game module, and a class under it that returns one. -/
def firstDocument : Value :=
  .object [
    ("modules", .list [.object [("name", .text "M"), ("is_game_module", .bool true)]]),
    ("types", .list [
      .object [("kind", .text "class"), ("name", .text "Base"), ("module", .text "M")],
      .object [("kind", .text "class"), ("name", .text "Part"), ("module", .text "M"),
        ("super", .text "Base")]])]

/-- The module and the class `Base` are declared again, after a class that is under the new `Base`
and keeps a list of parts. -/
def secondDocument : Value :=
  .object [
    ("modules", .list [.object [("name", .text "M")]]),
    ("types", .list [
      .object [("kind", .text "class"), ("name", .text "Whole"), ("module", .text "M"),
        ("super", .text "Base"), ("properties", .list [
          .object [("name", .text "Parts"), ("kind", .text "array"),
            ("inner", .object [("name", .text "Part"), ("kind", .text "object"),
              ("type", .text "Part")])]])],
      .object [("kind", .text "class"), ("name", .text "Base"), ("module", .text "M")]])]

theorem secondDocument_runs : (match extend #[] {} firstDocument with
    | .ok first => match extend first.store first.graph secondDocument with
      | .ok ext => first.graph.members == [0, 1] && (first.store.type 1).super == some 0 &&
        ext.added == [2, 3] && ext.graph.find? ext.store (.text "Base") == some 3 &&
        (ext.store.type 2).super == some 3 &&
        decide (∀ id ∈ ext.added, (ext.store.type id).TextLinked)
      | _ => false
    | _ => false) = true := by decide +kernel

/-- The class of the second document is under the new `Base`, the one of the first document still
under the old. -/
theorem extend_links_newest_of_redeclared : ∃ first ext,
    extend #[] {} firstDocument = .ok first ∧
      extend first.store first.graph secondDocument = .ok ext ∧
      ext.graph.members = [0, 1, 2, 3] ∧ (ext.store.type 1).super = some 0 ∧
      (ext.graph.index ext.store).lookup (.text "Base") = some 3 ∧
      (ext.store.type 2).super = some 3 ∧
      (ext.store.type 2).Resolved (ext.graph.find? ext.store) fun d => (ext.store.type d).isClass := by
  have runs := secondDocument_runs
  split at runs
  · next first hfirst =>
    split at runs
    · next ext hext =>
      simp only [Bool.and_eq_true, beq_iff_eq, decide_eq_true_eq] at runs
      obtain ⟨⟨⟨⟨⟨members, super⟩, added⟩, newest⟩, under⟩, texts⟩ := runs
      obtain ⟨all, old, -, new, index⟩ :=
        extend_links_newest (.merged (.empty #[]) hfirst) hext texts
      refine ⟨first, ext, hfirst, hext, by rw [all, members, added]; rfl, ?_, ?_, under, ?_⟩
      · rw [old 1 (by simp [members]), super]
      · rw [index, newest]
      · exact (new 2 (by simp [added])).1
    · cases runs
  · cases runs

end Graph

end ScriptGlue
