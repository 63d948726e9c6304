import Mathlib.Data.List.Perm.Basic
import ScriptGlue.Proofs.Graph.Declarations

/-! # Reordered documents

A document that lists its types in another order has the same types at other positions, if no two
have the same name: linked to the same types, of the same modules, and found by the same names.
-/
namespace ScriptGlue

section
variable {f : TypeId → TypeId} {find seek : Name → Option TypeId}

mutual

theorem Property.link_relocate : ∀ p : Property, p.targets = [] →
    (∀ name ∈ p.refNames, seek name = (find name).map f) → (p.link find).relocate f = p.link seek
  | ⟨_, _, _, refName, ref, inner, value, _, _, _⟩, unlinked, found => by
    simp only [Property.targets, List.append_eq_nil_iff, Option.toList_eq_nil_iff] at unlinked
    obtain ⟨⟨rfl, hinner⟩, hvalue⟩ := unlinked
    simp only [Property.refNames, List.mem_append] at found
    simp only [Property.link, Property.relocate,
      linkElement_relocate inner hinner fun name h => found name (.inl (.inr h)),
      linkElement_relocate value hvalue fun name h => found name (.inr h)]
    by_cases present : refName.truthy
    · simp only [present, if_true, found refName (.inl (.inl (by simp [present])))]
    · simp only [present]
      rfl

theorem linkElement_relocate : ∀ p : Option Property, elementTargets p = [] →
    (∀ name ∈ elementRefNames p, seek name = (find name).map f) →
      relocateElement f (linkElement find p) = linkElement seek p
  | some p, unlinked, found => congrArg some (Property.link_relocate p unlinked found)
  | none, _, _ => rfl

end

theorem map_link_relocate {ps : List Property} (unlinked : ps.flatMap Property.targets = [])
    (found : ∀ name ∈ ps.flatMap Property.refNames, seek name = (find name).map f) :
    (ps.map (Property.link find)).map (Property.relocate f) = ps.map (Property.link seek) := by
  rw [List.map_map]
  refine List.map_congr_left fun p hp => ?_
  exact Property.link_relocate p (List.flatMap_eq_nil_iff.1 unlinked p hp)
    fun name h => found name (List.mem_flatMap.2 ⟨p, hp, h⟩)

theorem filter_relocate {isClass isClass' : TypeId → Bool} {ref : Option TypeId}
    (same : ∀ d ∈ ref, isClass' (f d) = isClass d) :
    (ref.filter isClass).map f = (ref.map f).filter isClass' := by
  cases ref with
  | none => rfl
  | some d =>
    have same := same d rfl
    cases h : isClass d <;> simp [Option.filter, h, same]

theorem TypeNode.link_relocate {isClass isClass' : TypeId → Bool} {t : TypeNode}
    (unlinked : t.links = []) (found : ∀ name ∈ t.linkNames, seek name = (find name).map f)
    (classes : ∀ name ∈ t.linkNames, ∀ d ∈ find name, isClass' (f d) = isClass d) :
    (t.link find isClass).relocate f = t.link seek isClass' := by
  have ofClass (c : ClassBody) (body : t.classBody? = some c)
      (properties : t.properties? = some c.properties) :
      (c.link find isClass).relocate f = c.link seek isClass' := by
    simp only [links, super, interfaces, functions, body, properties, Option.map_some,
      Option.getD_some, List.append_eq_nil_iff] at unlinked
    obtain ⟨⟨-, hparams⟩, hproperties⟩ := unlinked
    simp only [linkNames, body, List.mem_append, List.mem_cons] at found classes
    have linked (name : Name) (h : name = c.superName ∨ name ∈ c.interfaceNames) :
        ((find name).filter isClass).map f = (seek name).filter isClass' := by
      rw [found name (.inl (.inl h)), filter_relocate (classes name (.inl (.inl h)))]
    have functions : (c.functions.map (Function.link find)).map (Function.relocate f) =
        c.functions.map (Function.link seek) := by
      rw [List.map_map]
      refine List.map_congr_left fun g hg => ?_
      have params := map_link_relocate (List.flatMap_eq_nil_iff.1 hparams g hg)
        fun name h => found name (.inl (.inr (List.mem_flatMap.2 ⟨g, hg, h⟩)))
      rw [Function.comp_apply, Function.relocate, Function.link, params]
      rfl
    have interfaces : (c.interfaceNames.filterMap fun n => (find n).filter isClass).map f =
        c.interfaceNames.filterMap fun n => (seek n).filter isClass' := by
      rw [List.map_filterMap]
      exact List.filterMap_congr fun name hname => linked name (.inr hname)
    simp only [ClassBody.link, ClassBody.relocate, linked _ (.inl rfl), functions, interfaces,
      map_link_relocate hproperties fun name h => found name (.inr h)]
  obtain ⟨name, home, flags, body⟩ := t
  cases body with
  | plainClass c => exact congrArg (fun c => TypeNode.mk name home flags (.plainClass c)) (ofClass c rfl rfl)
  | interface c => exact congrArg (fun c => TypeNode.mk name home flags (.interface c)) (ofClass c rfl rfl)
  | struct ps =>
    exact congrArg (fun ps => TypeNode.mk name home flags (.struct ps)) (map_link_relocate unlinked found)
  | enum entries underlying => rfl

end

theorem exists_positions {α : Type} {xs ys : List α} (perm : xs.Perm ys) (nodup : xs.Nodup) :
    ∃ f : Nat → Nat, (∀ i (hi : i < xs.length), ∃ hi' : f i < ys.length, ys[f i] = xs[i]) ∧
      ((List.range xs.length).map f).Perm (List.range ys.length) := by
  have somewhere (i : Nat) : ∃ j, ∀ hi : i < xs.length, ∃ hj : j < ys.length, ys[j] = xs[i] := by
    by_cases hi : i < xs.length
    · obtain ⟨j, hj, same⟩ := List.mem_iff_getElem.1 (perm.subset (List.getElem_mem hi))
      exact ⟨j, fun _ => ⟨hj, same⟩⟩
    · exact ⟨0, fun h => absurd h hi⟩
  choose f placed using somewhere
  refine ⟨f, placed, ?_⟩
  have apart : ((List.range xs.length).map f).Nodup := by
    refine List.nodup_range.map_on fun a ha b hb same => ?_
    have ha := List.mem_range.1 ha
    have hb := List.mem_range.1 hb
    obtain ⟨h, first⟩ := placed a ha
    obtain ⟨h', second⟩ := placed b hb
    have equal : xs[a] = xs[b] := by
      rw [← first, ← second]
      congr 1
    exact nodup.getElem_inj_iff.1 equal
  have inside : (List.range xs.length).map f ⊆ List.range ys.length := by
    intro j hj
    obtain ⟨i, hi, rfl⟩ := List.mem_map.1 hj
    exact List.mem_range.2 (placed i (List.mem_range.1 hi)).1
  exact (List.subperm_of_subset apart inside).perm_of_length_le (by simp [perm.length_eq])

/-- Where at most one item is sought, it is found wherever the items are moved. -/
theorem find?_of_moved {f : TypeId → TypeId} {ids ids' : List TypeId} {test test' : TypeId → Bool}
    (moved : (ids.map f).Perm ids') (same : ∀ a ∈ ids, test' (f a) = test a)
    (unique : ∀ a ∈ ids, ∀ b ∈ ids, test a → test b → a = b) :
    ids'.find? test' = (ids.find? test).map f := by
  have back {b : TypeId} (hb : b ∈ ids') (passes : test' b) : ∃ a ∈ ids, test a ∧ f a = b := by
    obtain ⟨a, ha, rfl⟩ := List.mem_map.1 (moved.mem_iff.2 hb)
    exact ⟨a, ha, same a ha ▸ passes, rfl⟩
  cases found : ids.find? test with
  | none =>
    rw [Option.map_none, List.find?_eq_none]
    intro b hb passes
    obtain ⟨a, ha, passes, -⟩ := back hb passes
    exact List.find?_eq_none.1 found a ha passes
  | some a =>
    have ha := List.mem_of_find?_eq_some found
    have passes := List.find?_some found
    cases found' : ids'.find? test' with
    | none =>
      refine absurd ?_ (List.find?_eq_none.1 found' (f a) (moved.subset (List.mem_map_of_mem ha)))
      rw [same a ha, passes]
    | some b =>
      obtain ⟨c, hc, passes', rfl⟩ :=
        back (List.mem_of_find?_eq_some found') (List.find?_some found')
      rw [unique c hc a ha passes' passes, Option.map_some]

/-- The types and their modules are called by texts, and no two types by the same. -/
structure TypeStore.Distinct (σ : TypeStore) : Prop where
  names : ∀ i < σ.size, (σ.type i).name.isText
  homes : ∀ i < σ.size, (σ.type i).home.name.isText
  distinct : ∀ i < σ.size, ∀ j < σ.size, (σ.type i).name = (σ.type j).name → i = j

theorem TypeStore.Distinct.unique {σ : TypeStore} (h : σ.Distinct) {i j : TypeId} (hi : i < σ.size)
    (hj : j < σ.size) {name : Name} (first : (σ.type i).name.alike name)
    (second : (σ.type j).name.alike name) : i = j := by
  obtain ⟨word, named⟩ := Value.eq_text_of_isText (h.names i hi)
  obtain ⟨word', named'⟩ := Value.eq_text_of_isText (h.names j hj)
  rw [named, Value.alike_text_left] at first
  rw [named', Value.alike_text_left] at second
  exact h.distinct i hi j hj (by rw [named, named', ← first, ← second])

theorem TypeStore.Distinct.alike_eq_same {σ : TypeStore} (h : σ.Distinct) {i : TypeId}
    (hi : i < σ.size) (name : Name) : (σ.type i).name.same name = (σ.type i).name.alike name := by
  obtain ⟨word, named⟩ := Value.eq_text_of_isText (h.names i hi)
  rw [named, Bool.eq_iff_iff, Value.same_text_left, Value.alike_text_left]

namespace Graph

/-- The documents declare the same modules, and the same types in any order. -/
def Reordered (data data' : Value) : Prop := ∃ fields fields' vs vs',
  data = .object fields ∧ data' = .object fields' ∧
    itemsAt fields' "modules" = itemsAt fields "modules" ∧
    itemsAt fields "types" = .ok vs ∧ itemsAt fields' "types" = .ok vs' ∧ vs.Perm vs'

theorem readDocument_reordered {data data' : Value} {after after' : ModuleTable}
    {ts ts' : List TypeNode} (reordered : Reordered data data')
    (h : readDocument [] data = .ok (after, ts)) (h' : readDocument [] data' = .ok (after', ts'))
    (texts : ∀ t ∈ ts, t.home.name.isText) :
    (∀ word, after'.find? (.text word) = after.find? (.text word)) ∧ ts.Perm ts' ∧
      ∀ name m, after'.find? name = some m → ∃ key, after.find? key = some m := by
  obtain ⟨_, _, vs, vs', rfl, rfl, modules, hvs, hvs', perm⟩ := reordered
  obtain ⟨_, ms, declared, us, ⟨⟩, hms, hdeclared, hus, types⟩ := readDocument_eq_ok h
  obtain ⟨_, ms', declared', us', ⟨⟩, hms', hdeclared', hus', types'⟩ := readDocument_eq_ok h'
  cases hms'.symm.trans (modules.trans hms)
  cases hdeclared.symm.trans hdeclared'
  cases hvs.symm.trans hus
  cases hvs'.symm.trans hus'
  have filed : ModuleTable.Filed (declared.foldl ModuleTable.declare []) :=
    List.foldlRecOn (motive := ModuleTable.Filed) _ _ (fun _ he => absurd he List.not_mem_nil)
      fun _ filed m _ => filed.declare m
  obtain ⟨known, reordered⟩ := readTypes_perm filed types types' perm texts
  obtain ⟨more, -, given⟩ := readTypes_modules types
  refine ⟨known, reordered, fun name m found => ?_⟩
  obtain declared | ⟨t, ht, rfl⟩ := home_of_find?_readTypes types' found
  · obtain ⟨rest, rfl⟩ := more
    exact ⟨name, ModuleTable.find?_append declared⟩
  · obtain ⟨i, hi, rfl⟩ := List.mem_iff_getElem.1 (reordered.mem_iff.2 ht)
    obtain ⟨fields, key, -, -, found⟩ := given.get (given.length_eq ▸ hi) hi
    exact ⟨key, found⟩

/-- The types of a graph on its own lie in another one, and are found there by the same names; the
same modules are known. -/
structure Moved (f : TypeId → TypeId) (ext ext' : Extension) : Prop where
  embeds : Embeds f ext.store ext'.store
  members : (ext.graph.members.map f).Perm ext'.graph.members
  found : ∀ name, ext'.graph.find? ext'.store name = (ext.graph.find? ext.store name).map f
  modules : ∀ word, ext'.graph.modules.find? (.text word) = ext.graph.modules.find? (.text word)
  declared : ∀ name m, ext'.graph.modules.find? name = some m →
    ∃ key, ext.graph.modules.find? key = some m

theorem type_ofDocument {nodes : List TypeNode} {i : TypeId} (hi : i < nodes.length) :
    TypeStore.type (#[] ++ nodes.toArray) i = nodes[i] := by
  simp [TypeStore.type, Array.getD, hi]

theorem ofDocument_eq_ok {data : Value} {ext : Extension} (h : ofDocument #[] data = .ok ext) :
    ∃ nodes, readDocument [] data = .ok (ext.graph.modules, nodes) ∧
      ext.graph.members = List.range nodes.length ∧ ext.store.size = nodes.length ∧
      ∀ i (hi : i < nodes.length), ext.store.type i = nodes[i].link
        (newest? (#[] ++ nodes.toArray) (List.range nodes.length)) fun id =>
          (TypeStore.type (#[] ++ nodes.toArray) id).isClass := by
  obtain ⟨modules, nodes, hread, hadded, hgraph, hstore⟩ := extend_eq_ok h
  have added : ext.added = List.range nodes.length := by
    rw [hadded, List.range_eq_range', List.size_toArray, List.length_nil]
  refine ⟨nodes, ?_, ?_, by simp [hstore], fun i hi => ?_⟩
  · rw [hgraph]
    exact hread
  · rw [hgraph, added]
    rfl
  · rw [hstore, type_ofDocument (by simpa using hi), List.getElem_map, added]
    rfl

/-- A document that lists its types in another order has the same types elsewhere. -/
theorem ofDocument_reordered {data data' : Value} {ext ext' : Extension}
    (reordered : Reordered data data') (h : ofDocument #[] data = .ok ext)
    (h' : ofDocument #[] data' = .ok ext') (distinct : ext.store.Distinct) :
    ∃ f, Moved f ext ext' := by
  obtain ⟨nodes, hread, members, size, linked⟩ := ofDocument_eq_ok h
  obtain ⟨nodes', hread', members', size', linked'⟩ := ofDocument_eq_ok h'
  have name (i : TypeId) (hi : i < nodes.length) : (ext.store.type i).name = nodes[i].name := by
    rw [linked i hi, TypeNode.link_name]
  have home (i : TypeId) (hi : i < nodes.length) : (ext.store.type i).home = nodes[i].home := by
    rw [linked i hi, TypeNode.link_home]
  have texts : ∀ t ∈ nodes, t.home.name.isText := by
    intro t ht
    obtain ⟨i, hi, rfl⟩ := List.mem_iff_getElem.1 ht
    rw [← home i hi]
    exact distinct.homes i (size ▸ hi)
  obtain ⟨modules, perm, declared⟩ := readDocument_reordered reordered hread hread' texts
  have different : nodes.Nodup := List.nodup_iff_injective_getElem.2 fun ⟨i, hi⟩ ⟨j, hj⟩ same =>
    Fin.ext (distinct.distinct i (size.symm ▸ hi) j (size.symm ▸ hj)
      ((name i hi).trans ((congrArg TypeNode.name same).trans (name j hj).symm)))
  obtain ⟨f, placed, moved⟩ := exists_positions perm different
  have inside (i : TypeId) (hi : i ∈ (List.range nodes.length).reverse) : i < nodes.length :=
    List.mem_range.1 (List.mem_reverse.1 hi)
  have reversed : ((List.range nodes.length).reverse.map f).Perm (List.range nodes'.length).reverse := by
    rw [List.map_reverse]
    exact (List.reverse_perm _).trans (moved.trans (List.reverse_perm _).symm)
  have name' (i : TypeId) (hi : i < nodes.length) : (ext'.store.type (f i)).name = (ext.store.type i).name := by
    obtain ⟨hi', same⟩ := placed i hi
    rw [linked' _ hi', TypeNode.link_name, same, name i hi]
  have seek (key : Name) : newest? (#[] ++ nodes'.toArray) (List.range nodes'.length) key =
      (newest? (#[] ++ nodes.toArray) (List.range nodes.length) key).map f := by
    refine find?_of_moved reversed (fun i hi => ?_) fun i hi j hj first second => ?_
    · obtain ⟨hi', same⟩ := placed i (inside i hi)
      rw [type_ofDocument hi', type_ofDocument (inside i hi), same]
    · rw [type_ofDocument (inside i hi), ← name i (inside i hi)] at first
      rw [type_ofDocument (inside j hj), ← name j (inside j hj)] at second
      exact distinct.unique (size ▸ inside i hi) (size ▸ inside j hj) first second
  refine ⟨f, ⟨?_, ?_, fun id hid => ?_, fun i hi j hj same => ?_⟩, ?_, fun key => ?_, modules, declared⟩
  · exact (extend_grows (fun _ hid => absurd hid (Nat.not_lt_zero _))
      (fun _ hid => absurd hid List.not_mem_nil) h).2.1
  · intro id hid
    exact size' ▸ (placed id (size ▸ hid)).1
  · have hid : id < nodes.length := size ▸ hid
    obtain ⟨hid', same⟩ := placed id hid
    rw [linked' _ hid', same, linked id hid]
    refine (TypeNode.link_relocate (readDocument_links hread _ (List.getElem_mem hid))
      (fun key _ => seek key) fun key _ d hd => ?_).symm
    have hd : d < nodes.length := List.mem_range.1 (newest?_mem hd)
    obtain ⟨hd', same⟩ := placed d hd
    rw [type_ofDocument hd', type_ofDocument hd, same]
  · have hi : i < nodes.length := size ▸ hi
    have hj : j < nodes.length := size ▸ hj
    exact distinct.distinct i (size ▸ hi) j (size ▸ hj) (by rw [← name' i hi, ← name' j hj, same])
  · rw [members, members']
    exact moved
  · rw [Graph.find?, Graph.find?, members, members']
    refine find?_of_moved reversed (fun i hi => by rw [name' i (inside i hi)])
      fun i hi j hj first second => ?_
    have hi : i < ext.store.size := size ▸ inside i hi
    have hj : j < ext.store.size := size ▸ inside j hj
    rw [distinct.alike_eq_same hi] at first
    rw [distinct.alike_eq_same hj] at second
    exact distinct.unique hi hj first second

end Graph

end ScriptGlue
