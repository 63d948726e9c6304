import ScriptGlue.Graph.Link
import ScriptGlue.Proofs.Graph.Relocation

/-! # Growth of the store

A document as it is read has no links, and linking it only leads to types of the graph it joins or
of its own. So the types of a document join the store behind those read before, which stay as they
were, and no link leads out of it.
-/
namespace ScriptGlue

theorem except_bind_eq_ok {α β : Type} {r : Except Fault α} {f : α → Except Fault β} {y : β} :
    r >>= f = .ok y ↔ ∃ x, r = .ok x ∧ f x = .ok y := by
  cases r with
  | error e =>
    constructor
    · intro h
      cases h
    · rintro ⟨_, h, _⟩
      cases h
  | ok x =>
    constructor
    · intro h
      exact ⟨x, rfl, h⟩
    · rintro ⟨_, hx, h⟩
      cases hx
      exact h

theorem except_map_eq_ok {α β : Type} {r : Except Fault α} {f : α → β} {y : β}
    (h : f <$> r = .ok y) : ∃ x, r = .ok x ∧ f x = y := by
  cases r with
  | error e => cases h
  | ok x =>
    cases h
    exact ⟨x, rfl, rfl⟩

theorem except_mapM_eq_ok {α β : Type} {f : α → Except Fault β} {xs : List α} {ys : List β}
    (h : xs.mapM f = .ok ys) : ∀ y ∈ ys, ∃ x ∈ xs, f x = .ok y := by
  induction xs generalizing ys with
  | nil =>
    cases h
    simp
  | cons x xs ih =>
    rw [List.mapM_cons] at h
    obtain ⟨y, hy, h⟩ := except_bind_eq_ok.1 h
    obtain ⟨rest, hrest, h⟩ := except_bind_eq_ok.1 h
    cases h
    rintro z hz
    obtain rfl | hz := List.mem_cons.1 hz
    · exact ⟨x, List.mem_cons_self, hy⟩
    · obtain ⟨w, hw, hz⟩ := ih hrest z hz
      exact ⟨w, List.mem_cons_of_mem _ hw, hz⟩

namespace Graph

theorem isKey_of_keyed {v w : Value} (h : v.keyed = .ok w) : w.isKey := by
  unfold Value.keyed at h
  split at h
  · next key =>
    cases h
    exact key
  · cases h

theorem eq_of_keyed {v w : Value} (h : v.keyed = .ok w) : v = w := by
  unfold Value.keyed at h
  split at h
  · cases h
    rfl
  · cases h

theorem readElement_targets {fields : List (String × Value)}
    {elements : List (String × Except Fault Property)} {key : String} {e : Option Property}
    (unlinked : ∀ key p, elements.lookup key = some (.ok p) → p.targets = [])
    (h : readElement fields elements key = .ok e) : elementTargets e = [] := by
  unfold readElement at h
  split at h
  · next v read _ hread =>
    split at h
    · cases read with
      | error fault => cases h
      | ok p =>
        cases h
        exact unlinked key p hread
    · cases h
      rfl
  · cases h
    rfl

theorem assembleProperty_targets {owner : Name} {fields : List (String × Value)}
    {elements : List (String × Except Fault Property)} {p : Property}
    (unlinked : ∀ key p, elements.lookup key = some (.ok p) → p.targets = [])
    (h : assembleProperty owner fields elements = .ok p) : p.targets = [] := by
  obtain ⟨_, _, h⟩ := except_bind_eq_ok.1 h
  obtain ⟨_, _, h⟩ := except_bind_eq_ok.1 h
  obtain ⟨_, _, h⟩ := except_bind_eq_ok.1 h
  obtain ⟨inner, hinner, h⟩ := except_bind_eq_ok.1 h
  obtain ⟨value, hvalue, h⟩ := except_bind_eq_ok.1 h
  obtain ⟨_, _, h⟩ := except_bind_eq_ok.1 h
  obtain ⟨_, _, h⟩ := except_bind_eq_ok.1 h
  cases h
  simp [Property.targets, readElement_targets unlinked hinner, readElement_targets unlinked hvalue]

mutual

theorem readProperty_targets (owner : Name) :
    ∀ (v : Value) (p : Property), readProperty owner v = .ok p → p.targets = []
  | .object fields, p, h => by
    rw [readProperty] at h
    exact assembleProperty_targets (readEach_targets owner fields) h
  | .null, _, h | .bool _, _, h | .int _, _, h | .real _, _, h | .text _, _, h | .list _, _, h => by
    cases h

theorem readEach_targets (owner : Name) : ∀ (fields : List (String × Value)) (key : String)
    (p : Property), (readEach owner fields).lookup key = some (.ok p) → p.targets = []
  | [], _, _, h => by cases h
  | (k, v) :: rest, key, p, h => by
    rw [readEach, List.lookup_cons] at h
    split at h
    · exact readProperty_targets owner v p (Option.some.inj h)
    · exact readEach_targets owner rest key p h

end

theorem properties_targets {owner : Name} {vs : List Value} {ps : List Property}
    (h : vs.mapM (readProperty owner) = .ok ps) : ps.flatMap Property.targets = [] := by
  rw [List.flatMap_eq_nil_iff]
  intro p hp
  obtain ⟨v, _, hv⟩ := except_mapM_eq_ok h p hp
  exact readProperty_targets owner v p hv

theorem readFunction_targets {owner : Name} {v : Value} {g : Function}
    (h : readFunction owner v = .ok g) : g.params.flatMap Property.targets = [] := by
  cases v with
  | object fields =>
    obtain ⟨_, _, h⟩ := except_bind_eq_ok.1 h
    obtain ⟨params, hparams, h⟩ := except_bind_eq_ok.1 h
    obtain ⟨_, _, h⟩ := except_bind_eq_ok.1 h
    obtain ⟨_, _, h⟩ := except_bind_eq_ok.1 h
    obtain ⟨_, _, h⟩ := except_bind_eq_ok.1 h
    cases h
    exact properties_targets hparams
  | _ => cases h

theorem readClassBody_targets {owner : Name} {fields : List (String × Value)} {c : ClassBody}
    (h : readClassBody owner fields = .ok c) : c.super = none ∧ c.interfaces = [] ∧
      c.functions.flatMap (fun g => g.params.flatMap Property.targets) = [] ∧
      c.properties.flatMap Property.targets = [] := by
  obtain ⟨_, _, h⟩ := except_bind_eq_ok.1 h
  obtain ⟨properties, hproperties, h⟩ := except_bind_eq_ok.1 h
  obtain ⟨_, _, h⟩ := except_bind_eq_ok.1 h
  obtain ⟨functions, hfunctions, h⟩ := except_bind_eq_ok.1 h
  obtain ⟨_, _, h⟩ := except_bind_eq_ok.1 h
  cases h
  refine ⟨rfl, rfl, ?_, properties_targets hproperties⟩
  rw [List.flatMap_eq_nil_iff]
  intro g hg
  obtain ⟨v, _, hv⟩ := except_mapM_eq_ok hfunctions g hg
  exact readFunction_targets hv

theorem links_eq_nil_of_class {t : TypeNode} {c : ClassBody} (body : t.classBody? = some c)
    (properties : t.properties? = some c.properties) {owner : Name}
    {fields : List (String × Value)} (h : readClassBody owner fields = .ok c) : t.links = [] := by
  obtain ⟨super, interfaces, functions, members⟩ := readClassBody_targets h
  simp [TypeNode.links, TypeNode.super, TypeNode.interfaces, TypeNode.functions, body, properties,
    super, interfaces, functions, members]

theorem readBody_links {variant : Variant} {owner : Name} {fields : List (String × Value)}
    {t : TypeNode} (h : readBody variant owner fields = .ok t.body) : t.links = [] := by
  obtain ⟨name, home, flags, body⟩ := t
  cases variant with
  | enum =>
    obtain ⟨_, _, h⟩ := except_bind_eq_ok.1 h
    cases h
    rfl
  | struct =>
    obtain ⟨_, _, h⟩ := except_bind_eq_ok.1 h
    obtain ⟨ps, hps, h⟩ := except_bind_eq_ok.1 h
    cases h
    exact properties_targets hps
  | plainClass =>
    obtain ⟨c, read, rfl⟩ := except_map_eq_ok h
    exact links_eq_nil_of_class rfl rfl read
  | interface =>
    obtain ⟨c, read, rfl⟩ := except_map_eq_ok h
    exact links_eq_nil_of_class rfl rfl read

/-- The fields describe the type but for its module, which they give a key of. -/
structure Describes (fields : List (String × Value)) (key : Name) (t : TypeNode) : Prop where
  name : fields.lookup "name" = some t.name
  module : fields.lookup "module" = some key
  isKey : key.isKey
  flags : readFlags fields = .ok t.flags
  body : ∃ variant, readVariant fields = .ok variant ∧ readBody variant t.name fields = .ok t.body

/-- A type that is read is of the module that is known under its key, or of one that becomes known
by its name only. -/
theorem readType_eq_ok {modules after : ModuleTable} {v : Value} {t : TypeNode}
    (h : readType modules v = .ok (t, after)) : ∃ fields key, v = .object fields ∧
      Describes fields key t ∧ (modules.find? key = some t.home ∧ after = modules ∨
        modules.find? key = none ∧ t.home = { name := key } ∧
          after = modules ++ [(key, { name := key })]) := by
  cases v with
  | object fields =>
    obtain ⟨variant, hvariant, h⟩ := except_bind_eq_ok.1 h
    split at h
    · next name declared hname hmodule =>
      obtain ⟨key, hkey, h⟩ := except_bind_eq_ok.1 h
      obtain rfl : declared = key := eq_of_keyed hkey
      cases found : modules.find? declared with
      | some home =>
        rw [found] at h
        obtain ⟨flags, hflags, h⟩ := except_bind_eq_ok.1 h
        obtain ⟨body, hbody, h⟩ := except_bind_eq_ok.1 h
        cases h
        exact ⟨fields, declared, rfl,
          ⟨hname, hmodule, isKey_of_keyed hkey, hflags, variant, hvariant, hbody⟩, .inl ⟨found, rfl⟩⟩
      | none =>
        rw [found] at h
        obtain ⟨flags, hflags, h⟩ := except_bind_eq_ok.1 h
        obtain ⟨body, hbody, h⟩ := except_bind_eq_ok.1 h
        cases h
        exact ⟨fields, declared, rfl,
          ⟨hname, hmodule, isKey_of_keyed hkey, hflags, variant, hvariant, hbody⟩,
          .inr ⟨found, rfl, rfl⟩⟩
    · cases h
  | _ => cases h

theorem readType_links {modules after : ModuleTable} {v : Value} {t : TypeNode}
    (h : readType modules v = .ok (t, after)) : t.links = [] := by
  obtain ⟨fields, key, -, described, -⟩ := readType_eq_ok h
  obtain ⟨variant, -, body⟩ := described.body
  exact readBody_links body

theorem readTypes_links {modules after : ModuleTable} {vs : List Value} {ts : List TypeNode}
    (h : readTypes modules vs = .ok (ts, after)) : ∀ t ∈ ts, t.links = [] := by
  induction vs generalizing modules ts with
  | nil =>
    cases h
    simp
  | cons v vs ih =>
    obtain ⟨⟨t, known⟩, ht, h⟩ := except_bind_eq_ok.1 h
    obtain ⟨⟨rest, all⟩, hrest, h⟩ := except_bind_eq_ok.1 h
    cases h
    exact List.forall_mem_cons.2 ⟨readType_links ht, ih hrest⟩

/-- A document that is read declares its modules over the known ones, and then its types. -/
theorem readDocument_eq_ok {known after : ModuleTable} {data : Value} {ts : List TypeNode}
    (h : readDocument known data = .ok (after, ts)) : ∃ fields ms declared vs,
      data = .object fields ∧ itemsAt fields "modules" = .ok ms ∧ ms.mapM readModule = .ok declared ∧
        itemsAt fields "types" = .ok vs ∧
        readTypes (declared.foldl ModuleTable.declare known) vs = .ok (ts, after) := by
  cases data with
  | object fields =>
    obtain ⟨ms, hms, h⟩ := except_bind_eq_ok.1 h
    obtain ⟨modules, hmodules, h⟩ := except_bind_eq_ok.1 h
    obtain ⟨declared, hdeclared, hmodules⟩ := except_bind_eq_ok.1 hmodules
    obtain ⟨vs, hvs, h⟩ := except_bind_eq_ok.1 h
    obtain ⟨⟨nodes, last⟩, hnodes, h⟩ := except_bind_eq_ok.1 h
    cases h
    cases hmodules
    exact ⟨fields, ms, declared, vs, rfl, hms, hdeclared, hvs, hnodes⟩
  | _ => cases h

theorem readDocument_links {known after : ModuleTable} {data : Value} {ts : List TypeNode}
    (h : readDocument known data = .ok (after, ts)) : ∀ t ∈ ts, t.links = [] := by
  obtain ⟨_, _, _, _, -, -, -, -, types⟩ := readDocument_eq_ok h
  exact readTypes_links types

end Graph

section
variable {find : Name → Option TypeId} {d : TypeId}

mutual

theorem Property.link_targets : ∀ p : Property, d ∈ (p.link find).targets →
    d ∈ p.targets ∨ ∃ name, find name = some d
  | ⟨_, _, _, refName, ref, inner, value, _, _, _⟩, h => by
    simp only [Property.link, Property.targets, List.mem_append, Option.mem_toList] at h ⊢
    obtain (h | h) | h := h
    · split at h
      · exact .inr ⟨refName, h⟩
      · exact .inl (.inl (.inl h))
    · exact (linkElement_targets inner h).imp_left fun h => .inl (.inr h)
    · exact (linkElement_targets value h).imp_left .inr

theorem linkElement_targets : ∀ p : Option Property, d ∈ elementTargets (linkElement find p) →
    d ∈ elementTargets p ∨ ∃ name, find name = some d
  | some p, h => Property.link_targets p h
  | none, h => .inl h

end

theorem flatMap_link_targets {ps : List Property}
    (h : d ∈ (ps.map (Property.link find)).flatMap Property.targets) :
    d ∈ ps.flatMap Property.targets ∨ ∃ name, find name = some d := by
  rw [List.flatMap_map, List.mem_flatMap] at h
  obtain ⟨p, hp, hd⟩ := h
  exact (Property.link_targets p hd).imp_left fun hd => List.mem_flatMap.2 ⟨p, hp, hd⟩

theorem ClassBody.link_functions_targets {c : ClassBody} {isClass : TypeId → Bool}
    (h : d ∈ (c.link find isClass).functions.flatMap fun g => g.params.flatMap Property.targets) :
    d ∈ (c.functions.flatMap fun g => g.params.flatMap Property.targets) ∨
      ∃ name, find name = some d := by
  simp only [ClassBody.link, List.flatMap_map, List.mem_flatMap (l := c.functions)] at h
  obtain ⟨g, hg, hd⟩ := h
  exact (flatMap_link_targets hd).imp_left fun hd => List.mem_flatMap.2 ⟨g, hg, hd⟩

theorem TypeNode.link_links {t : TypeNode} {isClass : TypeId → Bool}
    (h : d ∈ (t.link find isClass).links) : d ∈ t.links ∨ ∃ name, find name = some d := by
  have ofClass (c : ClassBody) (body : t.classBody? = some c)
      (linked : (t.link find isClass).classBody? = some (c.link find isClass))
      (properties : t.properties? = some c.properties)
      (properties' : (t.link find isClass).properties? = some (c.link find isClass).properties) :
      d ∈ t.links ∨ ∃ name, find name = some d := by
    simp only [links, super, interfaces, functions, body, linked, properties, properties',
      List.mem_append, Option.mem_toList, Option.bind_some, Option.map_some, Option.getD_some] at h ⊢
    obtain ((h | h) | h) | h := h
    · exact .inr ⟨_, (Option.filter_eq_some_iff.1 h).1⟩
    · obtain ⟨name, _, found⟩ := List.mem_filterMap.1 h
      exact .inr ⟨name, (Option.filter_eq_some_iff.1 found).1⟩
    · exact (ClassBody.link_functions_targets h).imp_left fun h => .inl (.inr h)
    · exact (flatMap_link_targets h).imp_left .inr
  obtain ⟨name, home, flags, body⟩ := t
  cases body with
  | plainClass c => exact ofClass c rfl rfl rfl rfl
  | interface c => exact ofClass c rfl rfl rfl rfl
  | struct ps => exact flatMap_link_targets h
  | enum entries underlying => exact .inl h

end

namespace Graph

def Inside (store : TypeStore) (g : Graph) : Prop := ∀ id ∈ g.members, id < store.size

theorem newest?_mem {store : TypeStore} {members : List TypeId} {key : Name} {d : TypeId}
    (h : newest? store members key = some d) : d ∈ members :=
  List.mem_reverse.1 (List.mem_of_find?_eq_some h)

/-- What a document adds: its types, as they are read and then linked, behind those read before. -/
theorem extend_eq_ok {store : TypeStore} {known : Graph} {data : Value} {ext : Extension}
    (h : extend store known data = .ok ext) :
    ∃ modules nodes, readDocument known.modules data = .ok (modules, nodes) ∧
      ext.added = List.range' store.size nodes.length ∧
      ext.graph = { modules, members := known.members ++ ext.added } ∧
      ext.store = store ++ (nodes.map (TypeNode.link
        (newest? (store ++ nodes.toArray) (known.members ++ ext.added)) fun id =>
          (TypeStore.type (store ++ nodes.toArray) id).isClass)).toArray := by
  obtain ⟨⟨modules, nodes⟩, hread, h⟩ := except_bind_eq_ok.1 h
  obtain ⟨_, _, h⟩ := except_bind_eq_ok.1 h
  obtain ⟨_, _, h⟩ := except_bind_eq_ok.1 h
  cases h
  exact ⟨modules, nodes, hread, rfl, rfl, rfl⟩

theorem type_append_left {store more : TypeStore} {id : TypeId} (hid : id < store.size) :
    TypeStore.type (store ++ more) id = store.type id := by
  simp [TypeStore.type, Array.getD, hid, Nat.lt_add_right, Array.getElem_append_left]

theorem type_append_right {store : TypeStore} {nodes : List TypeNode} {i : Nat}
    (hi : i < nodes.length) :
    TypeStore.type (store ++ nodes.toArray) (store.size + i) = nodes[i] := by
  simp [TypeStore.type, Array.getD, hi, Array.getElem_append_right]

/-- The types of a document join the store behind the others, which stay as they are, and no link
leads out of the store. -/
theorem extend_grows {store : TypeStore} {known : Graph} {data : Value} {ext : Extension}
    (linked : store.Linked) (inside : known.Inside store)
    (h : extend store known data = .ok ext) :
    Embeds id store ext.store ∧ ext.store.Linked ∧ ext.graph.Inside ext.store := by
  obtain ⟨modules, nodes, hread, hadded, hgraph, hstore⟩ := extend_eq_ok h
  have size : ext.store.size = store.size + nodes.length := by simp [hstore]
  have members : ∀ id ∈ known.members ++ ext.added, id < ext.store.size := by
    intro id hid
    rw [size]
    obtain hid | hid := List.mem_append.1 hid
    · exact Nat.lt_add_right _ (inside id hid)
    · rw [hadded, List.mem_range'_1] at hid
      exact hid.2
  have old : ∀ id < store.size, ext.store.type id = store.type id := by
    intro id hid
    rw [hstore, type_append_left hid]
  refine ⟨⟨linked, fun id hid => ?_, fun id hid => ?_, fun _ _ _ _ same => same⟩, ?_, ?_⟩
  · show id < _
    omega
  · rw [TypeNode.relocate_id]
    exact old id hid
  · intro id hid d hd
    by_cases known : id < store.size
    · rw [old id known] at hd
      rw [size]
      exact Nat.lt_add_right _ (linked id known d hd)
    · obtain ⟨i, rfl⟩ := Nat.exists_eq_add_of_le (Nat.le_of_not_lt known)
      have hi : i < nodes.length := by omega
      rw [hstore, type_append_right (by simpa using hi), List.getElem_map] at hd
      obtain hd | ⟨name, found⟩ := TypeNode.link_links hd
      · rw [readDocument_links hread _ (List.getElem_mem hi)] at hd
        cases hd
      · exact members d (newest?_mem found)
  · rw [hgraph]
    exact members

def ModulesKeyed (modules : ModuleTable) : Prop := ∀ entry ∈ modules, entry.2.name.isKey

theorem ModulesKeyed.declare {modules : ModuleTable} (h : ModulesKeyed modules) {m : NativeModule}
    (hm : m.name.isKey) : ModulesKeyed (modules.declare m) := by
  intro entry he
  unfold ModuleTable.declare at he
  split at he
  · obtain ⟨known, hknown, rfl⟩ := List.mem_map.1 he
    split
    · exact hm
    · exact h known hknown
  · obtain he | he := List.mem_append.1 he
    · exact h entry he
    · cases List.mem_singleton.1 he
      exact hm

theorem readModule_keyed {v : Value} {m : NativeModule} (h : readModule v = .ok m) :
    m.name.isKey := by
  cases v with
  | object fields =>
    obtain ⟨_, -, h⟩ := except_bind_eq_ok.1 h
    obtain ⟨name, hname, h⟩ := except_bind_eq_ok.1 h
    cases h
    exact isKey_of_keyed hname
  | _ => cases h

theorem foldl_declare_keyed {known : ModuleTable} {vs : List Value} {ms : List NativeModule}
    (hknown : ModulesKeyed known) (h : vs.mapM readModule = .ok ms) :
    ModulesKeyed (ms.foldl ModuleTable.declare known) := by
  refine List.foldlRecOn (motive := ModulesKeyed) _ _ hknown fun modules keyed m hm => ?_
  obtain ⟨v, -, hv⟩ := except_mapM_eq_ok h m hm
  exact keyed.declare (readModule_keyed hv)

theorem readType_keyed {modules after : ModuleTable} {v : Value} {t : TypeNode}
    (keyed : ModulesKeyed modules) (h : readType modules v = .ok (t, after)) :
    ModulesKeyed after := by
  obtain ⟨fields, key, -, described, ⟨-, rfl⟩ | ⟨-, -, rfl⟩⟩ := readType_eq_ok h
  · exact keyed
  · exact List.forall_mem_append.2 ⟨keyed, List.forall_mem_singleton.2 described.isKey⟩

theorem readTypes_keyed {modules after : ModuleTable} {vs : List Value} {ts : List TypeNode}
    (keyed : ModulesKeyed modules) (h : readTypes modules vs = .ok (ts, after)) :
    ModulesKeyed after := by
  induction vs generalizing modules ts with
  | nil =>
    cases h
    exact keyed
  | cons v rest ih =>
    obtain ⟨⟨t, next⟩, ht, h⟩ := except_bind_eq_ok.1 h
    obtain ⟨⟨others, last⟩, hothers, h⟩ := except_bind_eq_ok.1 h
    cases h
    exact ih (readType_keyed keyed ht) hothers

theorem extend_modulesKeyed {store : TypeStore} {known : Graph} {data : Value} {ext : Extension}
    (keyed : ModulesKeyed known.modules) (h : extend store known data = .ok ext) :
    ModulesKeyed ext.graph.modules := by
  obtain ⟨modules, nodes, hread, _, hgraph, _⟩ := extend_eq_ok h
  obtain ⟨_, _, _, _, -, -, declared, -, types⟩ := readDocument_eq_ok hread
  rw [hgraph]
  exact readTypes_keyed (foldl_declare_keyed keyed declared) types

end Graph

end ScriptGlue
