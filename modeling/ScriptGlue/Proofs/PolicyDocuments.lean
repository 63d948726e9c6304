import ScriptGlue.Policy.Basic
import ScriptGlue.Proofs.Action
import ScriptGlue.Proofs.Names

/-! # Policy documents

A document is accepted just if it is well formed, which is said here of the value alone, without the
steps of its reader. What an accepted document leaves in a policy are the entries that were there
and the entries that it lists. So it does not matter in which order documents are read, nor how
often.
-/
namespace ScriptGlue

namespace Value

def at? (v : Value) (key : String) : Option Value :=
  match v with
  | .object fields => fields.lookup key
  | _ => none

/-- The items of the list at a key; what is no list has none. -/
def itemsAt (v : Value) (key : String) : List Value :=
  match v.at? key with
  | some (.list items) => items
  | _ => []

def IsNames (v : Value) : Prop := ∃ names, v = .list names ∧ ∀ name ∈ names, name.isText

def IsPairs (v : Value) : Prop :=
  ∃ pairs : List (Name × Name), v = .list (pairs.map fun pair => .list [pair.1, pair.2]) ∧
    ∀ pair ∈ pairs, pair.1.isText ∧ pair.2.isText

/-- An object whose sets are well formed, as far as it has them. Other keys are not looked at. -/
structure IsNameList (v : Value) : Prop where
  object : ∃ fields, v = .object fields
  types : ∀ (field : NameList.TypeField) (data : Value), v.at? field.key = some data → data.IsNames
  members : ∀ (field : NameList.MemberField) (data : Value),
    v.at? field.key = some data → data.IsPairs

/-- An object that has name lists at the keys of the lists of a policy, and no other key. -/
structure IsPolicy (v : Value) : Prop where
  object : ∃ fields, v = .object fields ∧
    ∀ entry ∈ fields, ∃ list : Policy.ListName, entry.1 = list.key
  lists : ∀ (list : Policy.ListName) (data : Value), v.at? list.key = some data → data.IsNameList

end Value

/-- An entry of one of the sets of a name list. -/
inductive NameList.Entry where
  | type (field : NameList.TypeField) (name : Name)
  | member (field : NameList.MemberField) (owner name : Name)

def NameList.Holds (l : NameList) : NameList.Entry → Prop
  | .type field name => name ∈ l.types field
  | .member field owner name => (owner, name) ∈ l.members field

def Value.Lists (v : Value) : NameList.Entry → Prop
  | .type field name => name ∈ v.itemsAt field.key
  | .member field owner name => .list [owner, name] ∈ v.itemsAt field.key

/-- The policy document has the entry in one of its lists. -/
def Value.ListsIn (v : Value) (list : Policy.ListName) (entry : NameList.Entry) : Prop :=
  ∃ data, v.at? list.key = some data ∧ data.Lists entry

namespace NameList
variable {l m : NameList}

/-- The sets of two name lists have the same entries, in whatever order. -/
def SameSets (l m : NameList) : Prop := ∀ entry, l.Holds entry ↔ m.Holds entry

/-- Name lists with the same sets answer every question in the same way. -/
theorem SameSets.hasType (h : l.SameSets m) (field : TypeField) (name : Name) :
    l.hasType field name = m.hasType field name := by
  rw [NameList.hasType, NameList.hasType, Value.memberOf, Value.memberOf, Bool.eq_iff_iff,
    List.any_eq_true, List.any_eq_true]
  exact exists_congr fun known => and_congr_left fun _ => h (.type field known)

theorem SameSets.hasMember (h : l.SameSets m) (field : MemberField) (owner name : Name) :
    l.hasMember field owner name = m.hasMember field owner name := by
  rw [NameList.hasMember, NameList.hasMember, hasPair, hasPair, Bool.eq_iff_iff, List.any_eq_true,
    List.any_eq_true]
  exact exists_congr fun (a, b) => and_congr_left fun _ => h (.member field a b)

end NameList

section Readers
variable {σ ε α : Type} {holds : σ → ε → Prop} {a b : Action σ PUnit} {A B : Prop}
  {D E : ε → Prop}

/-- The action gives a result just if its document is accepted, and then adds these entries; a
document that is not accepted is refused for its form. -/
def Reads (holds : σ → ε → Prop) (a : Action σ PUnit) (accepted : Prop) (adds : ε → Prop) : Prop :=
  ∀ s, (accepted ∧ ∃ t, a s = (.ok (), t) ∧ ∀ e, holds t e ↔ holds s e ∨ adds e) ∨
    (¬ accepted ∧ ∃ f t, a s = (.error (.policy f), t))

namespace Reads

theorem iff (h : Reads holds a A D) (accepted : A ↔ B) (adds : A → ∀ e, D e ↔ E e) :
    Reads holds a B E := by
  intro s
  obtain ⟨ok, t, run, added⟩ | ⟨refused, fault⟩ := h s
  · exact .inl ⟨accepted.1 ok, t, run, fun e => (added e).trans (or_congr_right (adds ok e))⟩
  · exact .inr ⟨mt accepted.2 refused, fault⟩

theorem pure : Reads holds (Pure.pure ()) True fun _ => False :=
  fun s => .inl ⟨trivial, s, rfl, fun _ => (or_false _).symm ▸ Iff.rfl⟩

theorem throw (f : PolicyFault) (refused : ¬A) : Reads holds (throw (.policy f)) A D :=
  fun s => .inr ⟨refused, f, s, rfl⟩

theorem modify {f : σ → σ} (h : ∀ s e, holds (f s) e ↔ holds s e ∨ D e) :
    Reads holds (modify f) True D := fun s => .inl ⟨trivial, f s, rfl, h s⟩

theorem bind (ha : Reads holds a A D) (hb : Reads holds b B E) :
    Reads holds (a >>= fun _ => b) (A ∧ B) fun e => D e ∨ E e := by
  intro s
  obtain ⟨ok, t, first, added⟩ | ⟨refused, f, t, first⟩ := ha s
  · rw [Action.bind_of_ok first]
    obtain ⟨ok', u, second, more⟩ | ⟨refused, fault⟩ := hb t
    · exact .inl ⟨⟨ok, ok'⟩, u, second, fun e => by rw [more, added, or_assoc]⟩
    · exact .inr ⟨fun both => refused both.2, fault⟩
  · exact .inr ⟨fun both => refused both.1, f, t, Action.bind_of_error first _⟩

theorem forM {f : α → Action σ PUnit} {A : α → Prop} {D : α → ε → Prop}
    (h : ∀ x, Reads holds (f x) (A x) (D x)) (xs : List α) :
    Reads holds (xs.forM f) (∀ x ∈ xs, A x) fun e => ∃ x ∈ xs, D x e := by
  induction xs with
  | nil => exact pure.iff (by simp) (by simp)
  | cons x xs ih =>
    rw [Action.forM_cons]
    exact ((h x).bind ih).iff List.forall_mem_cons.symm fun _ e =>
      (List.exists_mem_cons_iff (D · e) x xs).symm

end Reads
end Readers

namespace NameList
open Value

theorem mem_foldl_addName {known names : List Value} (texts : ∀ name ∈ names, name.isText)
    (v : Value) : v ∈ names.foldl addName known ↔ v ∈ known ∨ v ∈ names := by
  refine ⟨mem_of_mem_foldl_addName, ?_⟩
  rintro (h | h)
  · exact (foldl_addName_grows _ _).subset h
  · obtain ⟨word, rfl⟩ := eq_text_of_isText (texts v h)
    obtain ⟨before, rest, rfl⟩ := List.append_of_mem h
    rw [List.foldl_append, List.foldl_cons]
    exact (foldl_addName_grows _ _).subset (text_mem_addName _ word)

theorem mem_addPair (known : List (Name × Name)) {new : Name × Name}
    (texts : new.1.isText ∧ new.2.isText) (pair : Name × Name) :
    pair ∈ addPair known new ↔ pair ∈ known ∨ pair = new := by
  obtain ⟨a, b⟩ := new
  obtain ⟨a, rfl⟩ := eq_text_of_isText texts.1
  obtain ⟨b, rfl⟩ := eq_text_of_isText texts.2
  unfold addPair
  split
  · next there =>
    obtain ⟨⟨c, d⟩, hknown, same⟩ := List.any_eq_true.1 there
    obtain ⟨hc, hd⟩ := Bool.and_eq_true_iff.1 same
    obtain rfl : c = .text a := (alike_text_right _ _).1 hc
    obtain rfl : d = .text b := (alike_text_right _ _).1 hd
    exact ⟨.inl, fun h => h.elim id fun same => same ▸ hknown⟩
  · rw [List.mem_append, List.mem_singleton]

theorem mem_foldl_addPair {known pairs : List (Name × Name)}
    (texts : ∀ pair ∈ pairs, pair.1.isText ∧ pair.2.isText) (pair : Name × Name) :
    pair ∈ pairs.foldl addPair known ↔ pair ∈ known ∨ pair ∈ pairs := by
  induction pairs generalizing known with
  | nil => simp
  | cons first rest ih =>
    obtain ⟨here, there⟩ := List.forall_mem_cons.1 texts
    rw [List.foldl_cons, ih there, mem_addPair _ here, List.mem_cons, or_assoc]

theorem holds_addTypes (l : NameList) (field : TypeField) {names : List Name}
    (texts : ∀ name ∈ names, name.isText) (e : Entry) :
    (l.addTypes field names).Holds e ↔ l.Holds e ∨ ∃ name ∈ names, e = .type field name := by
  cases e with
  | member => cases field <;> simp [Holds, addTypes, members]
  | type other name =>
    by_cases same : field = other
    · subst same
      cases field <;> simp [Holds, addTypes, types, mem_foldl_addName texts]
    · cases field <;> cases other <;>
        first | exact absurd rfl same | simp [Holds, addTypes, types]

theorem holds_addMembers (l : NameList) (field : MemberField) {pairs : List (Name × Name)}
    (texts : ∀ pair ∈ pairs, pair.1.isText ∧ pair.2.isText) (e : Entry) :
    (l.addMembers field pairs).Holds e ↔
      l.Holds e ∨ ∃ pair ∈ pairs, e = .member field pair.1 pair.2 := by
  cases e with
  | type => cases field <;> simp [Holds, addMembers, types]
  | member other owner name =>
    by_cases same : field = other
    · subst same
      cases field <;> simp [Holds, addMembers, members, mem_foldl_addPair texts]
    · cases field <;> cases other <;>
        first | exact absurd rfl same | simp [Holds, addMembers, members]

theorem names?_eq_some {v : Value} {names : List Name} :
    names? v = some names ↔ v = .list names ∧ ∀ name ∈ names, name.isText := by
  cases v with
  | list items =>
    simp only [names?, Option.ite_none_right_eq_some, List.all_eq_true, Option.some.injEq,
      Value.list.injEq]
    constructor
    · rintro ⟨texts, rfl⟩
      exact ⟨rfl, texts⟩
    · rintro ⟨rfl, texts⟩
      exact ⟨texts, rfl⟩
  | _ => simp [names?]

theorem pair?_eq_some {v : Value} {pair : Name × Name} :
    pair? v = some pair ↔ v = .list [pair.1, pair.2] ∧ pair.1.isText ∧ pair.2.isText := by
  constructor
  · intro h
    unfold pair? at h
    split at h
    · obtain rfl := Option.some.inj h
      exact ⟨rfl, rfl, rfl⟩
    · cases h
  · obtain ⟨a, b⟩ := pair
    rintro ⟨rfl, hfst, hsnd⟩
    obtain ⟨a, rfl⟩ := eq_text_of_isText hfst
    obtain ⟨b, rfl⟩ := eq_text_of_isText hsnd
    rfl

theorem mapM_pair?_eq_some {items : List Value} {pairs : List (Name × Name)} :
    items.mapM pair? = some pairs ↔ items = pairs.map (fun pair => .list [pair.1, pair.2]) ∧
      ∀ pair ∈ pairs, pair.1.isText ∧ pair.2.isText := by
  induction items generalizing pairs with
  | nil => cases pairs <;> simp
  | cons item rest ih =>
    simp only [List.mapM_cons, Option.bind_eq_bind, Option.bind_eq_some_iff, Option.pure_def, ih,
      pair?_eq_some, Option.some.injEq]
    constructor
    · rintro ⟨pair, ⟨rfl, texts⟩, more, ⟨rfl, others⟩, rfl⟩
      exact ⟨rfl, List.forall_mem_cons.2 ⟨texts, others⟩⟩
    · cases pairs with
      | nil => simp
      | cons pair more =>
        rintro ⟨same, texts⟩
        obtain ⟨rfl, rfl⟩ := List.cons.inj same
        obtain ⟨here, there⟩ := List.forall_mem_cons.1 texts
        exact ⟨pair, ⟨rfl, here⟩, more, ⟨rfl, there⟩, rfl⟩

theorem pairs?_eq_some {v : Value} {pairs : List (Name × Name)} :
    pairs? v = some pairs ↔ v = .list (pairs.map fun pair => .list [pair.1, pair.2]) ∧
      ∀ pair ∈ pairs, pair.1.isText ∧ pair.2.isText := by
  cases v with
  | list items => rw [pairs?, mapM_pair?_eq_some, Value.list.injEq]
  | _ => simp [pairs?]

end NameList

namespace Value

/-- What holds of an empty list holds of the value at a key, if there is one, just if it holds of
that value with an empty list in place of none. -/
theorem forall_at?_iff {P : Value → Prop} (empty : P (.list [])) (v : Value) (key : String) :
    (∀ data, v.at? key = some data → P data) ↔ P ((v.at? key).getD (.list [])) := by
  cases v.at? key with
  | none => simpa using empty
  | some data => simp

theorem itemsAt_eq {v : Value} {key : String} {items : List Value}
    (h : (v.at? key).getD (.list []) = .list items) : v.itemsAt key = items := by
  unfold itemsAt
  cases found : v.at? key with
  | none =>
    rw [found] at h
    exact Value.list.inj h
  | some data =>
    rw [found] at h
    obtain rfl : data = .list items := h
    rfl

theorem isNames_iff {v : Value} : v.IsNames ↔ ∃ names, NameList.names? v = some names :=
  exists_congr fun _ => NameList.names?_eq_some.symm

theorem isPairs_iff {v : Value} : v.IsPairs ↔ ∃ pairs, NameList.pairs? v = some pairs :=
  exists_congr fun _ => NameList.pairs?_eq_some.symm

end Value

namespace NameList
open Value

theorem reads_readTypes (fields : List (String × Value)) (field : TypeField) :
    Reads Holds (readTypes fields field)
      (∀ data, (Value.object fields).at? field.key = some data → data.IsNames)
      fun e => ∃ name ∈ (Value.object fields).itemsAt field.key, e = .type field name := by
  rw [forall_at?_iff ⟨[], rfl, by simp⟩, isNames_iff]
  have same : fields.lookup field.key = (Value.object fields).at? field.key := rfl
  rw [readTypes, same]
  cases found : names? (((Value.object fields).at? field.key).getD (.list [])) with
  | none => exact Reads.throw _ (by simp)
  | some names =>
    obtain ⟨list, texts⟩ := names?_eq_some.1 found
    rw [itemsAt_eq list]
    exact (Reads.modify fun l e => holds_addTypes l field texts e).iff (by simp) fun _ _ => Iff.rfl

theorem reads_readMembers (fields : List (String × Value)) (field : MemberField) :
    Reads Holds (readMembers fields field)
      (∀ data, (Value.object fields).at? field.key = some data → data.IsPairs)
      fun e => ∃ a b, .list [a, b] ∈ (Value.object fields).itemsAt field.key ∧
        e = .member field a b := by
  rw [forall_at?_iff ⟨[], rfl, by simp⟩, isPairs_iff]
  have same : fields.lookup field.key = (Value.object fields).at? field.key := rfl
  rw [readMembers, same]
  cases found : pairs? (((Value.object fields).at? field.key).getD (.list [])) with
  | none => exact Reads.throw _ (by simp)
  | some pairs =>
    obtain ⟨list, texts⟩ := pairs?_eq_some.1 found
    rw [itemsAt_eq list]
    refine (Reads.modify fun l e => holds_addMembers l field texts e).iff (by simp) fun _ e => ?_
    simp

theorem TypeField.mem_all (field : TypeField) : field ∈ all := by
  cases field <;> decide

theorem MemberField.mem_all (field : MemberField) : field ∈ all := by
  cases field <;> decide

/-- A name list takes the document of one just if it is well formed, and takes all its entries. -/
theorem reads_update (v : Value) : Reads Holds (update v) v.IsNameList v.Lists := by
  cases v with
  | object fields =>
    refine ((Reads.forM (reads_readTypes fields) _).bind
      (Reads.forM (reads_readMembers fields) _)).iff ⟨?_, ?_⟩ fun _ e => ?_
    · rintro ⟨types, members⟩
      exact ⟨⟨fields, rfl⟩, fun field => types field field.mem_all,
        fun field => members field field.mem_all⟩
    · exact fun ok => ⟨fun field _ => ok.types field, fun field _ => ok.members field⟩
    · cases e with
      | type field name => simp [Value.Lists, TypeField.mem_all]
      | member field owner name => simp [Value.Lists, MemberField.mem_all]
  | _ => exact Reads.throw _ fun ok => nomatch ok.object

end NameList

namespace Policy

def Holds (p : Policy) (e : ListName × NameList.Entry) : Prop := (p.list e.1).Holds e.2

theorem list_setList (p : Policy) (name other : ListName) (l : NameList) :
    (p.setList name l).list other = if other = name then l else p.list other := by
  cases name <;> cases other <;> rfl

theorem reads_onList {a : Action NameList Unit} {A : Prop} {D : NameList.Entry → Prop}
    (h : Reads NameList.Holds a A D) (name : ListName) :
    Reads Holds (onList name a) A fun e => e.1 = name ∧ D e.2 := by
  intro p
  obtain ⟨ok, l, run, added⟩ | ⟨refused, f, l, run⟩ := h (p.list name)
  · refine .inl ⟨ok, p.setList name l, by simp [onList, Action.within, run], fun (other, e) => ?_⟩
    simp only [Holds, list_setList]
    split
    · next same => simp [same, added]
    · next apart => simp [apart]
  · exact .inr ⟨refused, f, p.setList name l, by simp [onList, Action.within, run]⟩

theorem reads_readList (fields : List (String × Value)) (name : ListName) :
    Reads Holds (readList fields name)
      (∀ data, (Value.object fields).at? name.key = some data → data.IsNameList)
      fun e => e.1 = name ∧ (Value.object fields).ListsIn name e.2 := by
  have same : fields.lookup name.key = (Value.object fields).at? name.key := rfl
  rw [readList, same]
  simp only [Value.ListsIn]
  cases (Value.object fields).at? name.key with
  | none => exact Reads.pure.iff (by simp) (by simp)
  | some data => exact (reads_onList (NameList.reads_update data) name).iff (by simp) (by simp)

theorem ListName.mem_all (name : ListName) : name ∈ all := by
  cases name <;> decide

theorem unknownKeys_eq_nil {fields : List (String × Value)} :
    unknownKeys fields = [] ↔ ∀ entry ∈ fields, ∃ list : ListName, entry.1 = list.key := by
  have known (key : String) :
      (ListName.all.map ListName.key).contains key ↔ ∃ list : ListName, key = list.key := by
    simp [ListName.mem_all, @eq_comm _ key]
  unfold unknownKeys Text.sorted
  rw [← List.length_eq_zero_iff, List.length_mergeSort, List.length_eq_zero_iff]
  simp only [List.filter_eq_nil_iff, List.forall_mem_map, Bool.not_eq_true', Bool.not_eq_false,
    known]

/-- A policy takes a document just if it is well formed, and takes all its entries. -/
theorem reads_update (v : Value) : Reads Holds (update v) v.IsPolicy fun e => v.ListsIn e.1 e.2 := by
  cases v with
  | object fields =>
    rw [update]
    have keys := @unknownKeys_eq_nil fields
    cases h : unknownKeys fields with
    | nil =>
      refine (Reads.forM (reads_readList fields) _).iff ⟨fun lists => ?_, fun ok name _ => ?_⟩
        fun _ e => ?_
      · exact ⟨⟨fields, rfl, keys.1 h⟩, fun name => lists name name.mem_all⟩
      · exact ok.lists name
      · simp [ListName.mem_all]
    | cons key rest =>
      refine Reads.throw _ fun ok => ?_
      obtain ⟨_, same, known⟩ := ok.object
      obtain rfl := Value.object.inj same
      cases h.symm.trans (keys.2 known)
  | _ => exact Reads.throw _ fun ok => nomatch ok.object

/-- A policy gives a result for a document just if the document is well formed, and otherwise
refuses it for its form. Each of its sets then has the entries it had and those of the document. So
policies that read the same documents, in any order and as often as one likes, have the same
sets. -/
theorem update_wellFormed (p : Policy) (document : Value) :
    ((∃ q, update document p = (.ok (), q)) ↔ document.IsPolicy) ∧
    ((∃ f q, update document p = (.error (.policy f), q)) ↔ ¬document.IsPolicy) ∧
    (∀ q, update document p = (.ok (), q) → ∀ list entry,
      (q.list list).Holds entry ↔ (p.list list).Holds entry ∨ document.ListsIn list entry) ∧
    ∀ documents others : List Value, (∀ d ∈ documents, d.IsPolicy) →
      (∀ d, d ∈ documents ↔ d ∈ others) →
      ∃ q r, documents.forM update p = (.ok (), q) ∧ others.forM update p = (.ok (), r) ∧
        ∀ list, (q.list list).SameSets (r.list list) := by
  refine ⟨?_, ?_, fun q run list entry => ?_, fun documents others ok same => ?_⟩
  · obtain ⟨ok, q, run, -⟩ | ⟨refused, f, q, run⟩ := reads_update document p <;> simp [*]
  · obtain ⟨ok, q, run, -⟩ | ⟨refused, f, q, run⟩ := reads_update document p <;> simp [*]
  · obtain ⟨-, _, run', added⟩ | ⟨-, f, _, run'⟩ := reads_update document p
    · obtain rfl : _ = q := (Prod.ext_iff.1 (run'.symm.trans run)).2
      exact added (list, entry)
    · cases run'.symm.trans run
  · have reads := Reads.forM reads_update
    obtain ⟨-, q, run, added⟩ | ⟨refused, -⟩ := reads documents p
    · obtain ⟨-, r, run', added'⟩ | ⟨refused, -⟩ := reads others p
      · refine ⟨q, r, run, run', fun list entry => ?_⟩
        refine (added (list, entry)).trans (.trans ?_ (added' (list, entry)).symm)
        simp only [same]
      · exact absurd (fun d hd => ok d ((same d).2 hd)) refused
    · exact absurd ok refused

/-- Blacklists one class and one of its functions. -/
def sampleBlacklist : Value := .object
  [("blacklist", .object [("classes", .list [.text "Door"]),
    ("functions", .list [.list [.text "Door", .text "Open"]]), ("note", .null)])]

/-- Blacklists a class that is blacklisted already, and whitelists another one. -/
def sampleWhitelist : Value := .object
  [("whitelist", .object [("classes", .list [.text "Lever"])]),
    ("blacklist", .object [("classes", .list [.text "Door"])])]

theorem update_wellFormed_either_order :
    ∃ q r, [sampleBlacklist, sampleWhitelist].forM update {} = (.ok (), q) ∧
      [sampleWhitelist, sampleBlacklist, sampleWhitelist].forM update {} = (.ok (), r) ∧
      ∀ list, (q.list list).SameSets (r.list list) := by
  have first : sampleBlacklist.IsPolicy :=
    (update_wellFormed {} sampleBlacklist).1.1 ⟨(update sampleBlacklist {}).2, by decide +kernel⟩
  have second : sampleWhitelist.IsPolicy :=
    (update_wellFormed {} sampleWhitelist).1.1 ⟨(update sampleWhitelist {}).2, by decide +kernel⟩
  refine (update_wellFormed {} sampleBlacklist).2.2.2 _ _ (by simp [first, second]) fun d => ?_
  simp only [List.mem_cons, List.not_mem_nil, or_false]
  tauto

end Policy
end ScriptGlue
