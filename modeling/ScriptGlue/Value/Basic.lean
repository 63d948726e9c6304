import ScriptGlue.Number.Binary64

/-! # Document values

The data of a document: the scalars, lists, and objects with their keys in order. Structural
equality is decidable. `Value.alike` is the equality of keys and `Value.same` that of names: numbers
and truth values compare by amount, so that 1, 1.0 and true are one name.
-/

namespace ScriptGlue

inductive Value where
  | null
  | bool (b : Bool)
  | int (n : Int)
  | real (x : Binary64)
  | text (s : String)
  | list (items : List Value)
  | object (fields : List (String × Value))
  deriving Inhabited

/-- A name as a document gives it: a text in every sound document. -/
abbrev Name := Value

namespace Value

mutual

def equal : Value → Value → Bool
  | .null, .null => true
  | .bool a, .bool b => a == b
  | .int a, .int b => a == b
  | .real a, .real b => a == b
  | .text a, .text b => a == b
  | .list a, .list b => equalItems a b
  | .object a, .object b => equalFields a b
  | _, _ => false

def equalItems : List Value → List Value → Bool
  | [], [] => true
  | a :: as, b :: bs => equal a b && equalItems as bs
  | _, _ => false

def equalFields : List (String × Value) → List (String × Value) → Bool
  | [], [] => true
  | (k, a) :: as, (l, b) :: bs => k == l && equal a b && equalFields as bs
  | _, _ => false

end

mutual

theorem eq_of_equal : ∀ (a b : Value), equal a b = true → a = b
  | .null, b, h => by cases b <;> simp_all [equal]
  | .bool _, b, h => by cases b <;> simp_all [equal]
  | .int _, b, h => by cases b <;> simp_all [equal]
  | .real _, b, h => by cases b <;> simp_all [equal]
  | .text _, b, h => by cases b <;> simp_all [equal]
  | .list as, b, h => by
    cases b with
    | list bs => rw [eq_of_equalItems as bs (by simpa [equal] using h)]
    | _ => simp [equal] at h
  | .object as, b, h => by
    cases b with
    | object bs => rw [eq_of_equalFields as bs (by simpa [equal] using h)]
    | _ => simp [equal] at h

theorem eq_of_equalItems : ∀ (as bs : List Value), equalItems as bs = true → as = bs
  | [], bs, h => by cases bs <;> simp_all [equalItems]
  | a :: as, bs, h => by
    cases bs with
    | nil => simp [equalItems] at h
    | cons b bs =>
      simp only [equalItems, Bool.and_eq_true] at h
      rw [eq_of_equal a b h.1, eq_of_equalItems as bs h.2]

theorem eq_of_equalFields :
    ∀ (as bs : List (String × Value)), equalFields as bs = true → as = bs
  | [], bs, h => by cases bs <;> simp_all [equalFields]
  | (k, a) :: as, bs, h => by
    cases bs with
    | nil => simp [equalFields] at h
    | cons b bs =>
      obtain ⟨l, b⟩ := b
      simp only [equalFields, Bool.and_eq_true, beq_iff_eq] at h
      rw [h.1.1, eq_of_equal a b h.1.2, eq_of_equalFields as bs h.2]

end

mutual

theorem equal_self : ∀ a : Value, equal a a = true
  | .null => rfl
  | .bool _ => by simp [equal]
  | .int _ => by simp [equal]
  | .real _ => by simp [equal]
  | .text _ => by simp [equal]
  | .list as => by simpa [equal] using equalItems_self as
  | .object as => by simpa [equal] using equalFields_self as

theorem equalItems_self : ∀ as : List Value, equalItems as as = true
  | [] => rfl
  | a :: as => by simp [equalItems, equal_self a, equalItems_self as]

theorem equalFields_self : ∀ as : List (String × Value), equalFields as as = true
  | [] => rfl
  | (k, a) :: as => by simp [equalFields, equal_self a, equalFields_self as]

end

instance : DecidableEq Value := fun a b =>
  if h : equal a b = true then isTrue (eq_of_equal a b h)
  else isFalse fun e => h (e ▸ equal_self a)

/-- Counts as present: neither null, false, zero nor empty. -/
def truthy : Value → Bool
  | .null => false
  | .bool b => b
  | .int n => n != 0
  | .real x => !x.isZero
  | .text s => s != ""
  | .list items => !items.isEmpty
  | .object fields => !fields.isEmpty

/-- Can be looked up by: lists and objects are no keys. -/
def isKey : Value → Bool
  | .list _ => false
  | .object _ => false
  | _ => true

def isText : Value → Bool
  | .text _ => true
  | _ => false

def text? : Value → Option String
  | .text s => some s
  | _ => none

def amount? : Value → Option Int
  | .bool b => some (if b then 1 else 0)
  | .int n => some n
  | .real x => x.toInt?
  | _ => none

mutual

/-- Equality of keys: numbers and truth values by amount, NaN as itself, objects in any order. -/
def alike : Value → Value → Bool
  | .null, .null => true
  | .text a, .text b => a == b
  | .real a, .real b => a.same b || (a.isNaN && b.isNaN)
  | .list a, .list b => alikeItems a b
  | .object a, .object b => a.length == b.length && alikeFields a b
  | .bool a, b => b.amount? == some (if a then 1 else 0)
  | .int a, b => b.amount? == some a
  | .real a, .bool b => a.toInt? == some (if b then 1 else 0)
  | .real a, .int b => a.toInt? == some b
  | _, _ => false

def alikeItems : List Value → List Value → Bool
  | [], [] => true
  | a :: as, b :: bs => alike a b && alikeItems as bs
  | _, _ => false

def alikeFields : List (String × Value) → List (String × Value) → Bool
  | [], _ => true
  | (k, a) :: as, bs =>
    (match bs.lookup k with
      | some b => alike a b
      | none => false) && alikeFields as bs

end

/-- Equality of names: that of keys, but NaN is no name of anything. -/
def same : Value → Value → Bool
  | .real a, .real b => a.same b
  | a, b => alike a b

@[simp] theorem alike_text (a b : String) : alike (.text a) (.text b) = (a == b) := by
  simp [alike]

@[simp] theorem same_text (a b : String) : same (.text a) (.text b) = (a == b) := by
  simp [same]

theorem alike_text_left (a : String) (v : Value) : alike (.text a) v = true ↔ v = .text a := by
  cases v <;> simp [alike, @eq_comm _ a]

theorem same_text_left (a : String) (v : Value) : same (.text a) v = true ↔ v = .text a := by
  simpa [same] using alike_text_left a v

def memberOf (v : Value) (keys : List Value) : Bool := keys.any fun k => alike k v

def addName (names : List Value) (v : Value) : List Value :=
  if v.memberOf names then names else names ++ [v]

def distinct (names : List Value) : List Value := names.foldl addName []

def setField (fields : List (String × Value)) (key : String) (v : Value) :
    List (String × Value) :=
  match fields with
  | [] => [(key, v)]
  | (k, w) :: rest => if k = key then (k, v) :: rest else (k, w) :: setField rest key v

/-- The object written with these fields, where a repeated key has its first place and last
value. -/
def ofFields (fields : List (String × Value)) : Value :=
  .object (fields.foldl (fun acc (k, v) => setField acc k v) [])

end Value

end ScriptGlue
