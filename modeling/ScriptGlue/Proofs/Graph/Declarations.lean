import Mathlib.Data.List.Forall2
import ScriptGlue.Proofs.Graph.Linking

/-! # Declarations in any document

What a declaration of a type gives depends on its document only through the module that is known
under its key. A document knows the modules that it declares, and each that a type is of and that is
not declared, by its name only. So the same declarations give the same types wherever the same
modules are known.
-/
namespace ScriptGlue

namespace ModuleTable
variable {known more : ModuleTable} {m : NativeModule} {ms : List NativeModule} {word : String}

theorem find?_eq_none {name : Name} :
    known.find? name = none ↔ ∀ entry ∈ known, entry.1.alike name = false := by
  rw [find?, Option.map_eq_none_iff, List.find?_eq_none]
  simp

theorem declare_append (new : known.find? m.name = none) :
    declare (known ++ more) m = known ++ declare more m := by
  rw [find?_eq_none] at new
  have skipped : (known.any fun entry => entry.1.alike m.name) = false := by simpa using new
  have kept : known.map (fun entry => if entry.1.alike m.name then (entry.1, m) else entry) = known :=
    (List.map_congr_left fun entry he => by simp [new entry he]).trans (List.map_id' known)
  unfold declare
  rw [List.any_append, skipped, Bool.false_or]
  split
  · rw [List.map_append, kept]
  · rw [List.append_assoc]

theorem foldl_declare_append (new : ∀ m ∈ ms, known.find? m.name = none) :
    ms.foldl declare (known ++ more) = known ++ ms.foldl declare more := by
  induction ms generalizing more with
  | nil => rfl
  | cons m ms ih =>
    obtain ⟨first, rest⟩ := List.forall_mem_cons.1 new
    rw [List.foldl_cons, declare_append first, ih rest, List.foldl_cons]

def Matched (modules : ModuleTable) : Prop := ∀ entry ∈ modules, entry.1.alike entry.2.name

theorem Matched.append (h : Matched known) (g : Matched more) : Matched (known ++ more) :=
  List.forall_mem_append.2 ⟨h, g⟩

theorem Matched.declare (h : Matched known) (key : m.name.isKey) : Matched (known.declare m) := by
  unfold ModuleTable.declare
  split
  · intro entry he
    obtain ⟨old, hold, rfl⟩ := List.mem_map.1 he
    split
    · next alike => exact alike
    · exact h old hold
  · exact h.append (List.forall_mem_singleton.2 (Value.alike_self key))

theorem Matched.name (h : Matched known) (found : known.find? (.text word) = some m) :
    m.name = .text word := by
  obtain ⟨entry, hentry, rfl⟩ := Option.map_eq_some_iff.1 found
  have key : entry.1.alike (.text word) :=
    List.find?_some (p := fun entry : Name × NativeModule => entry.1.alike (.text word)) hentry
  rw [Value.alike_text_right] at key
  have named := h entry (List.mem_of_find?_eq_some hentry)
  rwa [key, Value.alike_text_left] at named

theorem find?_append_text (word : String) :
    (known ++ more).find? (.text word) = (known.find? (.text word)).or (more.find? (.text word)) := by
  unfold find?
  rw [List.find?_append]
  cases List.find? (fun entry => entry.1.alike (.text word)) known <;> rfl

end ModuleTable

namespace Graph
variable {modules after : ModuleTable} {v : Value} {t : TypeNode} {vs : List Value}
  {ts : List TypeNode} {word : String}

def homeKey (v : Value) : Option Name :=
  match v with
  | .object fields => fields.lookup "module"
  | _ => none

/-- A module with nothing known of it, if it is called by one of some keys. -/
def named? (keys : List Name) (word : String) : Option NativeModule :=
  if .text word ∈ keys then some { name := .text word } else none

theorem named?_append (keys more : List Name) :
    named? (keys ++ more) word = (named? keys word).or (named? more word) := by
  unfold named?
  by_cases h : .text word ∈ keys <;> simp [h]

theorem find?_readType (h : readType modules v = .ok (t, after)) (word : String) :
    after.find? (.text word) = (modules.find? (.text word)).or (named? (homeKey v).toList word) := by
  obtain ⟨fields, key, rfl, described, ⟨found, rfl⟩ | ⟨missing, -, rfl⟩⟩ := readType_eq_ok h
  · rw [homeKey, described.module, named?]
    split
    · next same =>
      rw [List.mem_singleton.1 same, found]
      rfl
    · rw [Option.or_none]
  · rw [ModuleTable.find?_append_text, homeKey, described.module, named?]
    congr 1
    by_cases same : .text word = key
    · subst same
      simp [ModuleTable.find?]
    · have other : key.alike (.text word) = false := by
        rw [Bool.eq_false_iff, ne_eq, Value.alike_text_right]
        exact fun h => same h.symm
      simp [ModuleTable.find?, other, same]

/-- After types are read, the modules that were known are known as before, and those of the types by
their names. -/
theorem find?_readTypes (h : readTypes modules vs = .ok (ts, after)) (word : String) :
    after.find? (.text word) =
      (modules.find? (.text word)).or (named? (vs.filterMap homeKey) word) := by
  induction vs generalizing modules ts with
  | nil =>
    cases h
    simp [named?]
  | cons v rest ih =>
    obtain ⟨⟨t, next⟩, ht, h⟩ := except_bind_eq_ok.1 h
    obtain ⟨⟨others, last⟩, hothers, h⟩ := except_bind_eq_ok.1 h
    cases h
    have keys : (v :: rest).filterMap homeKey = (homeKey v).toList ++ rest.filterMap homeKey := by
      cases key : homeKey v <;> simp [key]
    rw [ih hothers, find?_readType ht, keys, named?_append, Option.or_assoc]

theorem readTypes_matched (matched : modules.Matched) (h : readTypes modules vs = .ok (ts, after)) :
    after.Matched := by
  induction vs generalizing modules ts with
  | nil =>
    cases h
    exact matched
  | cons v rest ih =>
    obtain ⟨⟨t, next⟩, ht, h⟩ := except_bind_eq_ok.1 h
    obtain ⟨⟨others, last⟩, hothers, h⟩ := except_bind_eq_ok.1 h
    cases h
    refine ih ?_ hothers
    obtain ⟨fields, key, -, described, ⟨-, rfl⟩ | ⟨-, -, rfl⟩⟩ := readType_eq_ok ht
    · exact matched
    · exact matched.append (List.forall_mem_singleton.2 (Value.alike_self described.isKey))

theorem matched_of_extend {store : TypeStore} {known : Graph} {data : Value} {ext : Extension}
    (matched : known.modules.Matched) (h : extend store known data = .ok ext) :
    ext.graph.modules.Matched := by
  obtain ⟨_, nodes, hread, -, hgraph, -⟩ := extend_eq_ok h
  obtain ⟨_, _, declared, _, -, -, hdeclared, -, types⟩ := readDocument_eq_ok hread
  rw [hgraph]
  refine readTypes_matched ?_ types
  refine List.foldlRecOn (motive := ModuleTable.Matched) _ _ matched fun _ matched m hm => ?_
  obtain ⟨v, -, hv⟩ := except_mapM_eq_ok hdeclared m hm
  exact matched.declare (readModule_keyed hv)

/-- The modules that become known with types are the modules of these types. -/
theorem home_of_find?_readTypes {name : Name} {m : NativeModule}
    (h : readTypes modules vs = .ok (ts, after)) (found : after.find? name = some m) :
    modules.find? name = some m ∨ ∃ t ∈ ts, t.home = m := by
  induction vs generalizing modules ts with
  | nil =>
    cases h
    exact .inl found
  | cons v rest ih =>
    obtain ⟨⟨t, next⟩, ht, h⟩ := except_bind_eq_ok.1 h
    obtain ⟨⟨others, last⟩, hothers, h⟩ := except_bind_eq_ok.1 h
    cases h
    obtain known | ⟨other, hother, home⟩ := ih hothers
    · obtain ⟨fields, key, -, -, ⟨-, rfl⟩ | ⟨-, home, rfl⟩⟩ := readType_eq_ok ht
      · exact .inl known
      · obtain ⟨entry, hentry, rfl⟩ := Option.map_eq_some_iff.1 known
        rw [List.find?_append, Option.or_eq_some_iff] at hentry
        obtain old | ⟨-, new⟩ := hentry
        · exact .inl (by rw [ModuleTable.find?, old]; rfl)
        · rw [List.mem_singleton.1 (List.mem_of_find?_eq_some new)]
          exact .inr ⟨t, List.mem_cons_self, home⟩
    · exact .inr ⟨other, List.mem_cons_of_mem _ hother, home⟩

theorem Describes.same {fields : List (String × Value)} {key key' : Name} {t' : TypeNode}
    (h : Describes fields key t) (h' : Describes fields key' t') (home : t'.home = t.home) :
    t' = t := by
  obtain ⟨variant, hvariant, body⟩ := h.body
  obtain ⟨variant', hvariant', body'⟩ := h'.body
  obtain ⟨name, home, flags, _⟩ := t
  obtain ⟨name', home', flags', _⟩ := t'
  cases h.name.symm.trans h'.name
  cases h.flags.symm.trans h'.flags
  cases hvariant.symm.trans hvariant'
  cases body.symm.trans body'
  cases home
  rfl

/-- A type whose module is called by a text was declared to be of that module. -/
theorem Gives.homeKey (h : Gives modules v t) (filed : modules.Filed)
    (named : t.home.name = .text word) : homeKey v = some (.text word) := by
  obtain ⟨fields, key, rfl, described, found⟩ := h
  obtain ⟨entry, hentry, home⟩ := Option.map_eq_some_iff.1 found
  have filed := filed entry (List.mem_of_find?_eq_some hentry) word (home ▸ named)
  have alike : entry.1.alike key := List.find?_some (p := fun entry : Name × NativeModule => entry.1.alike key) hentry
  rw [filed, Value.alike_text_left] at alike
  rw [Graph.homeKey, described.module, alike]

theorem Gives.same {other : ModuleTable} {t' : TypeNode} (h : Gives modules v t)
    (h' : Gives other v t') (filed : modules.Filed) (text : t.home.name.isText)
    (known : other.find? t.home.name = modules.find? t.home.name) : t' = t := by
  obtain ⟨word, named⟩ := Value.eq_text_of_isText text
  have key := h.homeKey filed named
  obtain ⟨fields, key', rfl, described, found⟩ := h
  obtain ⟨fields', key'', same, described', found'⟩ := h'
  cases same
  rw [Graph.homeKey, described.module] at key
  cases key
  cases described.module.symm.trans described'.module
  rw [named] at known
  exact described.same described' (Option.some_inj.1 (found'.symm.trans (known.trans found)))

/-- The same declarations give the same types if the modules of these are known alike. -/
theorem forall₂_gives_unique {other : ModuleTable} {ts' : List TypeNode} (filed : modules.Filed)
    (texts : ∀ t ∈ ts, t.home.name.isText)
    (known : ∀ t ∈ ts, other.find? t.home.name = modules.find? t.home.name)
    (h : List.Forall₂ (Gives modules) vs ts) (h' : List.Forall₂ (Gives other) vs ts') : ts' = ts := by
  induction h generalizing ts' with
  | nil =>
    cases h'
    rfl
  | cons first _ ih =>
    obtain ⟨text, texts⟩ := List.forall_mem_cons.1 texts
    obtain ⟨here, known⟩ := List.forall_mem_cons.1 known
    cases h' with
    | cons first' rest' => rw [first.same first' filed text here, ih texts known rest']

/-- Declarations in another order know the same modules and give the same types, in another order. -/
theorem readTypes_perm {after' : ModuleTable} {vs' : List Value} {ts' : List TypeNode}
    (filed : modules.Filed) (h : readTypes modules vs = .ok (ts, after))
    (h' : readTypes modules vs' = .ok (ts', after')) (perm : vs.Perm vs')
    (texts : ∀ t ∈ ts, t.home.name.isText) :
    (∀ word, after'.find? (.text word) = after.find? (.text word)) ∧ ts.Perm ts' := by
  have known (word : String) : after'.find? (.text word) = after.find? (.text word) := by
    rw [find?_readTypes h, find?_readTypes h', named?, named?]
    simp only [(perm.filterMap homeKey).mem_iff]
  obtain ⟨-, filed, given⟩ := (readTypes_modules h).imp_right (And.imp_left (· filed))
  obtain ⟨-, -, given'⟩ := readTypes_modules h'
  obtain ⟨mid, between, reordered⟩ := List.perm_comp_forall₂ perm given'
  rw [forall₂_gives_unique filed texts (fun t ht => ?_) given between] at reordered
  · exact ⟨known, reordered⟩
  · obtain ⟨word, named⟩ := Value.eq_text_of_isText (texts t ht)
    rw [named, known]

end Graph

end ScriptGlue
