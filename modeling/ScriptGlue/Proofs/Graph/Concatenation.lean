import ScriptGlue.Proofs.Graph.Reordering

/-! # Documents in two parts

A document that lists what one document lists and then what a second one lists has the types of the
first before those of the second. They are linked as they are where the second joins the first, if
the second gives no name that a type of the first is linked by, and declares no module that the
first knows.
-/
namespace ScriptGlue

namespace ModuleTable
variable {known : ModuleTable} {m : NativeModule} {ms : List NativeModule} {word : String}

/-- What is found by another name than that of a declared module was found before. -/
theorem find?_declare_of_ne (other : m.name ≠ .text word) :
    (known.declare m).find? (.text word) = known.find? (.text word) := by
  unfold declare
  split
  · have keys : ((fun entry : Name × NativeModule => entry.1.alike (.text word)) ∘
        fun entry : Name × NativeModule => if entry.1.alike m.name then (entry.1, m) else entry) =
        fun entry => entry.1.alike (.text word) := by
      funext entry
      simp only [Function.comp_apply]
      split <;> rfl
    rw [find?, find?, List.find?_map, keys]
    cases found : List.find? (fun entry : Name × NativeModule => entry.1.alike (.text word)) known with
    | none => rfl
    | some entry =>
      have key : entry.1 = .text word := (Value.alike_text_right _ _).1
        (List.find?_some (p := fun entry : Name × NativeModule => entry.1.alike (.text word)) found)
      have kept : entry.1.alike m.name = false := by
        rw [Bool.eq_false_iff, ne_eq, key, Value.alike_text_left]
        exact other
      simp [kept]
  · have missed : find? [(m.name, m)] (.text word) = none := by
      refine find?_eq_none.2 (List.forall_mem_singleton.2 ?_)
      rw [Bool.eq_false_iff, ne_eq, Value.alike_text_right]
      exact other
    rw [find?_append_text, missed, Option.or_none]

theorem find?_foldl_declare (others : ∀ m ∈ ms, m.name ≠ .text word) :
    (ms.foldl declare known).find? (.text word) = known.find? (.text word) := by
  induction ms generalizing known with
  | nil => rfl
  | cons m ms ih =>
    obtain ⟨first, rest⟩ := List.forall_mem_cons.1 others
    rw [List.foldl_cons, ih rest, find?_declare_of_ne first]

theorem find?_of_append {more : ModuleTable} {name : Name} (missing : known.find? name = none) :
    ModuleTable.find? (known ++ more) name = more.find? name := by
  have missing := Option.map_eq_none_iff.1 missing
  simp [find?, List.find?_append, missing]

theorem find?_eq_none_of_prefix {more : ModuleTable} {name : Name} (grows : known <+: more)
    (missing : more.find? name = none) : known.find? name = none := by
  obtain ⟨rest, rfl⟩ := grows
  exact find?_eq_none.2 fun entry he => find?_eq_none.1 missing entry (List.mem_append_left _ he)

end ModuleTable

namespace Graph

def moduleName (v : Value) : Option Name :=
  match v with
  | .object fields => fields.lookup "name"
  | _ => none

/-- The names in the list of modules of a document. -/
def moduleNames (data : Value) : List Name :=
  match data with
  | .object fields => ((itemsAt fields "modules").toOption.getD []).filterMap moduleName
  | _ => []

theorem moduleName_of_readModule {v : Value} {m : NativeModule} (h : readModule v = .ok m) :
    moduleName v = some m.name := by
  cases v with
  | object fields =>
    obtain ⟨name, hname, h⟩ := except_bind_eq_ok.1 h
    obtain ⟨keyed, hkeyed, h⟩ := except_bind_eq_ok.1 h
    cases h
    obtain rfl := eq_of_keyed hkeyed
    unfold required at hname
    split at hname
    · next found =>
      cases hname
      exact found
    · cases hname
  | _ => cases h

theorem mem_moduleNames {fields : List (String × Value)} {vs : List Value} {ms : List NativeModule}
    (hvs : itemsAt fields "modules" = .ok vs) (h : vs.mapM readModule = .ok ms) {m : NativeModule}
    (hm : m ∈ ms) : m.name ∈ moduleNames (.object fields) := by
  obtain ⟨v, hv, read⟩ := except_mapM_eq_ok h m hm
  rw [moduleNames, hvs]
  exact List.mem_filterMap.2 ⟨v, hv, moduleName_of_readModule read⟩

/-- The document lists the modules and the types of the first document and then those of the
second. -/
def Concatenated (first second both : Value) : Prop := ∃ fields fields' all ms ms' vs vs',
  first = .object fields ∧ second = .object fields' ∧ both = .object all ∧
    itemsAt fields "modules" = .ok ms ∧ itemsAt fields' "modules" = .ok ms' ∧
    itemsAt all "modules" = .ok (ms ++ ms') ∧ itemsAt fields "types" = .ok vs ∧
    itemsAt fields' "types" = .ok vs' ∧ itemsAt all "types" = .ok (vs ++ vs')

section
variable {first second both : Value} {known after all : ModuleTable} {ts ts' us : List TypeNode}
  (joined : Concatenated first second both) (h : readDocument [] first = .ok (known, ts))
  (h' : readDocument known second = .ok (after, ts')) (hall : readDocument [] both = .ok (all, us))
  (foreign : ∀ name ∈ moduleNames second, known.find? name = none)
include joined h h' hall foreign

/-- What is declared and read in two parts: the modules of the first document, those of the second,
and the types of both. -/
theorem readDocument_parts : ∃ vs vs' declared declared',
    readTypes declared vs = .ok (ts, known) ∧ readTypes (known ++ declared') vs' = .ok (ts', after) ∧
      readTypes (declared ++ declared') (vs ++ vs') = .ok (us, all) ∧ declared.Filed ∧
      declared'.Filed ∧ ∀ word, known.find? (.text word) ≠ none → declared'.find? (.text word) = none := by
  obtain ⟨_, _, _, ms, ms', vs, vs', rfl, rfl, rfl, hms, hms', hmss, hvs, hvs', hvss⟩ := joined
  obtain ⟨_, _, declared, _, ⟨⟩, same, hdeclared, hus, types⟩ := readDocument_eq_ok h
  cases hms.symm.trans same
  cases hvs.symm.trans hus
  obtain ⟨_, _, declared', _, ⟨⟩, same, hdeclared', hus, types'⟩ := readDocument_eq_ok h'
  cases hms'.symm.trans same
  cases hvs'.symm.trans hus
  obtain ⟨_, _, both, _, ⟨⟩, same, hboth, hus, typesAll⟩ := readDocument_eq_ok hall
  cases hmss.symm.trans same
  cases hvss.symm.trans hus
  rw [List.mapM_append, hdeclared, hdeclared'] at hboth
  cases hboth
  have new : ∀ m ∈ declared', known.find? m.name = none := fun m hm =>
    foreign _ (mem_moduleNames hms' hdeclared' hm)
  have grows := (readTypes_modules types).1
  have filed (ms : List NativeModule) : ModuleTable.Filed (ms.foldl ModuleTable.declare []) :=
    List.foldlRecOn (motive := ModuleTable.Filed) _ _ (fun _ he => absurd he List.not_mem_nil)
      fun _ filed m _ => filed.declare m
  have behind : declared'.foldl ModuleTable.declare (known ++ []) =
      known ++ declared'.foldl ModuleTable.declare [] := ModuleTable.foldl_declare_append new
  have behind' : declared'.foldl ModuleTable.declare (declared.foldl ModuleTable.declare [] ++ []) =
      declared.foldl ModuleTable.declare [] ++ declared'.foldl ModuleTable.declare [] :=
    ModuleTable.foldl_declare_append fun m hm =>
      ModuleTable.find?_eq_none_of_prefix grows (new m hm)
  rw [List.append_nil] at behind behind'
  rw [behind] at types'
  rw [List.foldl_append, behind'] at typesAll
  refine ⟨vs, vs', _, _, types, types', typesAll, filed _, filed _, fun word found => ?_⟩
  rw [ModuleTable.find?_foldl_declare fun m hm same => found (same ▸ new m hm)]
  rfl

/-- The types read in two parts are those read at once, and the same modules are known. -/
theorem readDocument_concatenated (texts : ∀ t ∈ us, t.home.name.isText) :
    us = ts ++ ts' ∧ (∀ word, after.find? (.text word) = all.find? (.text word)) ∧ known <+: after ∧
      ∀ name m, after.find? name = some m → ∃ key, all.find? key = some m := by
  obtain ⟨vs, vs', declared, declared', types, types', typesAll, filed, filed', new⟩ :=
    readDocument_parts joined h h' hall foreign
  obtain ⟨grows, filedKnown, given⟩ := readTypes_modules types
  obtain ⟨grows', filedAfter, given'⟩ := readTypes_modules types'
  obtain ⟨growsAll, filedAll, givenAll⟩ := readTypes_modules typesAll
  have known_after : known <+: after := (List.prefix_append _ _).trans grows'
  have same (word : String) : after.find? (.text word) = all.find? (.text word) := by
    have new := new word
    rw [find?_readTypes types] at new
    rw [find?_readTypes types', find?_readTypes typesAll, ModuleTable.find?_append_text,
      ModuleTable.find?_append_text, find?_readTypes types, List.filterMap_append, named?_append]
    cases declared.find? (.text word) with
    | some m => simp
    | none =>
      cases named : named? (vs.filterMap homeKey) word with
      | none => simp
      | some m => simp [new (by simp [named])]
  have parts : List.Forall₂ (Gives after) (vs ++ vs') (ts ++ ts') :=
    List.rel_append (given.imp fun _ _ => Gives.mono known_after) given'
  have split : us = ts ++ ts' := by
    refine (forall₂_gives_unique (filedAll ?_) texts (fun t ht => ?_) givenAll parts).symm
    · exact List.forall_mem_append.2 ⟨filed, filed'⟩
    · obtain ⟨word, named⟩ := Value.eq_text_of_isText (texts t ht)
      rw [named, same]
  have home {t : TypeNode} (ht : t ∈ us) : ∃ key, all.find? key = some t.home := by
    obtain ⟨i, hi, rfl⟩ := List.mem_iff_getElem.1 ht
    obtain ⟨fields, key, -, -, found⟩ := givenAll.get (givenAll.length_eq ▸ hi) hi
    exact ⟨key, found⟩
  refine ⟨split, same, known_after, fun name m found => ?_⟩
  obtain early | ⟨t, ht, rfl⟩ := home_of_find?_readTypes types' found
  · obtain ⟨rest, rfl⟩ := growsAll
    cases first : known.find? name with
    | some n =>
      rw [ModuleTable.find?_append first] at early
      cases early
      obtain early | ⟨t, ht, rfl⟩ := home_of_find?_readTypes types first
      · exact ⟨name, ModuleTable.find?_append (ModuleTable.find?_append early)⟩
      · exact home (split ▸ List.mem_append_left _ ht)
    | none =>
      rw [ModuleTable.find?_of_append first] at early
      rw [← ModuleTable.find?_of_append (ModuleTable.find?_eq_none_of_prefix grows first)] at early
      exact ⟨name, ModuleTable.find?_append early⟩
  · exact home (split ▸ List.mem_append_right _ ht)

end

theorem newest?_congr {σ τ : TypeStore} {members : List TypeId} {key : Name}
    (same : ∀ id ∈ members, (σ.type id).name = (τ.type id).name) :
    newest? σ members key = newest? τ members key := by
  rw [newest?, newest?, ← List.head?_filter, ← List.head?_filter]
  refine congrArg _ (List.filter_congr fun id hid => ?_)
  rw [same id (List.mem_reverse.1 hid)]

theorem newest?_append {σ : TypeStore} {members more : List TypeId} {key : Name}
    (others : ∀ d ∈ more, (σ.type d).name.alike key = false) :
    newest? σ (members ++ more) key = newest? σ members key := by
  have missed : more.reverse.find? (fun id => (σ.type id).name.alike key) = none :=
    List.find?_eq_none.2 fun d hd => by simp [others d (List.mem_reverse.1 hd)]
  rw [newest?, List.reverse_append, List.find?_append, missed, Option.none_or]
  rfl

/-- A type of a document on its own, linked to the types of the document. -/
abbrev linkAmong (nodes : List TypeNode) (t : TypeNode) : TypeNode :=
  t.link (newest? (#[] ++ nodes.toArray) (List.range nodes.length)) fun id =>
    (TypeStore.type (#[] ++ nodes.toArray) id).isClass

theorem store_ext {σ τ : TypeStore} (size : σ.size = τ.size)
    (same : ∀ id < σ.size, σ.type id = τ.type id) : σ = τ := by
  refine Array.ext size fun i hi hi' => ?_
  simpa [TypeStore.type, Array.getD, hi, hi'] using same i hi

section
variable {store all : TypeStore} {ts ts' : List TypeNode}

theorem type_first {i : TypeId} (hi : i < ts.length) :
    TypeStore.type (#[] ++ (ts ++ ts').toArray) i = TypeStore.type (#[] ++ ts.toArray) i := by
  have inside : i < (ts ++ ts').length := by
    rw [List.length_append]
    exact Nat.lt_add_right _ hi
  rw [type_ofDocument inside, type_ofDocument hi, List.getElem_append_left hi]

theorem range_parts :
    List.range ts.length ++ List.range' ts.length ts'.length = List.range (ts ++ ts').length := by
  rw [List.length_append, List.range_eq_range', List.range_eq_range', ← List.range'_append_1,
    Nat.zero_add]

theorem newest?_first {key : Name} (others : ∀ t ∈ ts', t.name.alike key = false) :
    newest? (#[] ++ (ts ++ ts').toArray) (List.range (ts ++ ts').length) key =
      newest? (#[] ++ ts.toArray) (List.range ts.length) key := by
  rw [← range_parts, newest?_append fun d hd => ?_]
  · exact newest?_congr fun i hi => by rw [type_first (List.mem_range.1 hi)]
  · obtain ⟨first, last⟩ := List.mem_range'_1.1 hd
    obtain ⟨i, rfl⟩ := Nat.exists_eq_add_of_le first
    have hi : i < ts'.length := Nat.lt_of_add_lt_add_left last
    rw [type_ofDocument (by simpa using hi), List.getElem_append_right (Nat.le_add_right ..)]
    exact others _ (List.getElem_mem _)

/-- A type is linked as it is without the types of names that it does not give. -/
theorem linkAmong_first {t : TypeNode} (unlinked : t.links = [])
    (texts : ∀ t' ∈ ts', t'.name.isText) (free : ∀ t' ∈ ts', t'.name ∉ t.linkNames) :
    linkAmong ts t = linkAmong (ts ++ ts') t := by
  rw [← TypeNode.relocate_id (linkAmong ts t)]
  refine TypeNode.link_relocate unlinked (fun key hkey => ?_) fun key _ d hd => ?_
  · rw [Option.map_id_fun, id]
    refine newest?_first fun t' ht' => ?_
    obtain ⟨word, named⟩ := Value.eq_text_of_isText (texts t' ht')
    rw [named, Bool.eq_false_iff, ne_eq, Value.alike_text_left]
    exact fun same => free t' ht' (named ▸ same ▸ hkey)
  · rw [id, type_first (List.mem_range.1 (newest?_mem hd))]

variable (size : store.size = ts.length)
  (linked : ∀ i (hi : i < ts.length), store.type i = linkAmong ts ts[i])
include size linked

/-- What linking does not touch is the same of the types that a document joined, linked as they are,
and of all types of both documents, not yet linked. -/
theorem type_joined {α : Type} {f : TypeNode → α} (keeps : ∀ t, f (linkAmong ts t) = f t)
    (id : TypeId) : f (TypeStore.type (store ++ ts'.toArray) id) =
      f (TypeStore.type (#[] ++ (ts ++ ts').toArray) id) := by
  by_cases first : id < ts.length
  · rw [type_append_left (size ▸ first), type_first first, type_ofDocument first, linked id first,
      keeps]
  · obtain ⟨i, rfl⟩ := Nat.exists_eq_add_of_le (Nat.le_of_not_lt first)
    by_cases hi : i < ts'.length
    · rw [← size, type_append_right hi, size, type_ofDocument (by simpa using hi),
        List.getElem_append_right (Nat.le_add_right ..)]
      simp
    · rw [TypeStore.type_of_size_le, TypeStore.type_of_size_le] <;> simp <;> omega

/-- The types that join the others are linked as they are with these in one document. -/
theorem link_joined : TypeNode.link
    (newest? (store ++ ts'.toArray) (List.range (ts ++ ts').length))
    (fun id => (TypeStore.type (store ++ ts'.toArray) id).isClass) = linkAmong (ts ++ ts') := by
  have found (key : Name) : newest? (store ++ ts'.toArray) (List.range (ts ++ ts').length) key =
      newest? (#[] ++ (ts ++ ts').toArray) (List.range (ts ++ ts').length) key :=
    newest?_congr fun id _ => type_joined size linked (fun _ => TypeNode.link_name) id
  have classes (id : TypeId) : (TypeStore.type (store ++ ts'.toArray) id).isClass =
      (TypeStore.type (#[] ++ (ts ++ ts').toArray) id).isClass :=
    type_joined size linked (fun _ => TypeNode.link_isClass) id
  funext t
  rw [linkAmong, funext found, funext classes]

theorem store_joined (sizeAll : all.size = (ts ++ ts').length)
    (linkedAll : ∀ i (hi : i < (ts ++ ts').length), all.type i = linkAmong (ts ++ ts') (ts ++ ts')[i])
    (unlinked : ∀ t ∈ ts, t.links = []) (texts : ∀ t' ∈ ts', t'.name.isText)
    (free : ∀ t ∈ ts, ∀ t' ∈ ts', t'.name ∉ t.linkNames) :
    store ++ (ts'.map (linkAmong (ts ++ ts'))).toArray = all := by
  refine store_ext (by simp [size, sizeAll]) fun i hi => ?_
  have hi : i < (ts ++ ts').length := by simpa [size] using hi
  rw [linkedAll i hi]
  by_cases first : i < ts.length
  · have mem : ts[i] ∈ ts := List.getElem_mem first
    rw [type_append_left (size ▸ first), linked i first, List.getElem_append_left first]
    exact linkAmong_first (unlinked _ mem) texts (free _ mem)
  · obtain ⟨j, rfl⟩ := Nat.exists_eq_add_of_le (Nat.le_of_not_lt first)
    have hj : j < ts'.length := by simpa using hi
    have late : TypeStore.type (store ++ (ts'.map (linkAmong (ts ++ ts'))).toArray) (store.size + j) =
        linkAmong (ts ++ ts') ts'[j] := by
      rw [type_append_right (by simpa using hj), List.getElem_map]
    rw [size] at late
    simpa using late

end

theorem mem_added_of_extend {store : TypeStore} {known : Graph} {data : Value} {ext : Extension}
    (h : extend store known data = .ok ext) {id : TypeId} (new : store.size ≤ id)
    (hid : id < ext.store.size) : id ∈ ext.added := by
  obtain ⟨modules, nodes, -, hadded, -, hstore⟩ := extend_eq_ok h
  rw [hadded, List.mem_range'_1]
  exact ⟨new, by simpa [hstore] using hid⟩

/-- A graph that a document joined, and the graph of all that was read for it: the types are the same
in both and lie at the same positions, and the same modules are known. -/
structure Parted (before after all : Extension) : Prop where
  embeds : Embeds id before.store after.store
  inside : before.graph.Inside before.store
  store : after.store = all.store
  members : all.graph.members = before.graph.members ++ after.added
  grows : before.graph.modules <+: after.graph.modules
  moved : Moved id all after

section
variable {first second both : Value} {before after all : Extension}
  (joined : Concatenated first second both) (h : ofDocument #[] first = .ok before)
  (h' : extend before.store before.graph second = .ok after) (hall : ofDocument #[] both = .ok all)
  (foreign : ∀ name ∈ moduleNames second, before.graph.modules.find? name = none)
  (free : ∀ id ∈ before.graph.members, ∀ d ∈ after.added,
    (after.store.type d).name ∉ (before.store.type id).linkNames)
  (distinct : all.store.Distinct)
include joined h h' hall foreign free distinct

/-- The types of both documents are linked alike in two parts and at once. -/
theorem extend_concatenated : Parted before after all := by
  obtain ⟨ts, hread, members, size, linked⟩ := ofDocument_eq_ok h
  obtain ⟨us, hreadAll, membersAll, sizeAll, linkedAll⟩ := ofDocument_eq_ok hall
  obtain ⟨modules, ts', hread', hadded, hgraph, hstore⟩ := extend_eq_ok h'
  have text (i : TypeId) (hi : i < us.length) : us[i].name.isText ∧ us[i].home.name.isText := by
    have names := distinct.names i (sizeAll ▸ hi)
    have homes := distinct.homes i (sizeAll ▸ hi)
    rw [linkedAll i hi, TypeNode.link_name] at names
    rw [linkedAll i hi, TypeNode.link_home] at homes
    exact ⟨names, homes⟩
  have texts : ∀ t ∈ us, t.name.isText ∧ t.home.name.isText := fun t ht => by
    obtain ⟨i, hi, rfl⟩ := List.mem_iff_getElem.1 ht
    exact text i hi
  obtain ⟨rfl, same, grows, declared⟩ :=
    readDocument_concatenated joined hread hread' hreadAll foreign fun t ht => (texts t ht).2
  rw [size] at hadded
  rw [members, hadded, range_parts, link_joined size linked] at hstore
  have free : ∀ t ∈ ts, ∀ t' ∈ ts', t'.name ∉ t.linkNames := by
    intro t ht t' ht'
    obtain ⟨i, hi, rfl⟩ := List.mem_iff_getElem.1 ht
    obtain ⟨j, hj, rfl⟩ := List.mem_iff_getElem.1 ht'
    have apart := free i (members ▸ List.mem_range.2 hi) (ts.length + j)
      (hadded ▸ List.mem_range'_1.2 ⟨Nat.le_add_right .., Nat.add_lt_add_left hj _⟩)
    rw [hstore, ← size, type_append_right (by simpa using hj), List.getElem_map, TypeNode.link_name,
      linked i hi, TypeNode.link_linkNames] at apart
    exact apart
  have store : after.store = all.store := hstore.trans (store_joined size linked sizeAll linkedAll
    (readDocument_links hread) (fun t ht => (texts t (List.mem_append_right _ ht)).1) free)
  have whole : after.graph.members = all.graph.members := by
    rw [hgraph, membersAll, members, hadded, range_parts]
  have alone {data : Value} {ext : Extension} (h : ofDocument #[] data = .ok ext) :=
    (extend_grows (fun _ hid => absurd hid (Nat.not_lt_zero _))
      (fun _ hid => absurd hid List.not_mem_nil) h).2
  refine ⟨(extend_grows (alone h).1 (alone h).2 h').1, (alone h).2, store, ?_, ?_,
    ⟨?_, ?_, fun key => ?_, ?_, ?_⟩⟩
  · rw [← whole, hgraph]
  · rw [hgraph]
    exact grows
  · rw [store]
    exact ⟨(alone hall).1, fun _ hid => hid, fun _ _ => (TypeNode.relocate_id _).symm,
      fun _ _ _ _ same => same⟩
  · rw [List.map_id, whole]
  · rw [Option.map_id_fun, id, Graph.find?, Graph.find?, whole, store]
  · rw [hgraph]
    exact same
  · rw [hgraph]
    exact declared

end

theorem Parted.find?_first {before after all : Extension} (parted : Parted before after all)
    {word : String} (others : ∀ d ∈ after.added, (after.store.type d).name ≠ .text word) :
    all.graph.find? all.store (.text word) = before.graph.find? before.store (.text word) := by
  rw [← newest?_text, ← newest?_text, ← parted.store, parted.members, newest?_append fun d hd => ?_]
  · refine newest?_congr fun id hid => ?_
    rw [← parted.embeds.name (parted.inside id hid)]
    rfl
  · rw [Bool.eq_false_iff, ne_eq, Value.alike_text_right]
    exact others d hd

end Graph

end ScriptGlue
