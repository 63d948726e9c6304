import ScriptGlue.Fault
import ScriptGlue.Graph.Kind
import ScriptGlue.Text.LowercaseForm
import ScriptGlue.Text.Uppercase

/-! # Script names

How native names become names of generated code: keywords are escaped, the `b` of truth values
goes, parameters start in lower case, and no member is named like its owner.

A document may give any value as a name. Each step says what it takes: escaping looks a name up, the
mark of a truth value is looked for where things have a length, and only texts have a case.
-/

namespace ScriptGlue.Naming

def keywords : List String :=
  ["abstract", "as", "base", "bool", "break", "byte", "case", "catch", "char", "checked", "class",
    "const", "continue", "decimal", "default", "delegate", "do", "double", "else", "enum", "event",
    "explicit", "extern", "false", "finally", "fixed", "float", "for", "foreach", "goto", "if",
    "implicit", "in", "int", "interface", "internal", "is", "lock", "long", "namespace", "new",
    "null", "object", "operator", "out", "override", "params", "private", "protected", "public",
    "readonly", "ref", "return", "sbyte", "sealed", "short", "sizeof", "stackalloc", "static",
    "string", "struct", "switch", "this", "throw", "true", "try", "typeof", "uint", "ulong",
    "unchecked", "unsafe", "ushort", "using", "virtual", "void", "volatile", "while"]

def escapeWord (word : String) : String := if keywords.contains word then "@" ++ word else word

def withoutBoolMark (word : String) : String :=
  match word.toList with
  | 'b' :: c :: rest => if Text.isUppercase c then String.ofList (c :: rest) else word
  | _ => word

def lowerFirst (word : String) : String :=
  match word.toList with
  | c :: rest => Text.lowercase c ++ String.ofList rest
  | [] => word

def apart (owner word : String) : String :=
  if owner ≠ "" ∧ word = owner then word ++ "_" else word

/-- What follows the first `::` of a list, if there is one. -/
def afterScope? : List Char → Option (List Char)
  | ':' :: ':' :: rest => some rest
  | _ :: rest => afterScope? rest
  | [] => none

def withoutScope (word : String) : String :=
  match afterScope? word.toList with
  | some rest => String.ofList rest
  | none => word

def escaped : Name → Name
  | .text word => .text (escapeWord word)
  | name => name

/-- A name as an identifier, if it can be looked up by. -/
def escapeKeyword (name : Name) : Except Fault Name := escaped <$> name.keyed

/-- A name without the mark of a truth value. Of a list the first item is the mark and the second
tells whether it is one; an object has no first item. -/
def stripBoolMark : Name → Except Fault Name
  | .text word => .ok (.text (withoutBoolMark word))
  | .list (first :: second :: rest) =>
    if first.same (.text "b") then
      match second with
      | .text word =>
        .ok (.list (if Text.isUppercaseWord word then second :: rest else first :: second :: rest))
      | _ => .error .missingPart
    else .ok (.list (first :: second :: rest))
  | .list items => .ok (.list items)
  | .object fields => if fields.length < 2 then .ok (.object fields) else .error .missingKey
  | _ => .error .wrongType

def camelCase : Name → Except Fault Name
  | .text word => .ok (.text (lowerFirst word))
  | .list _ => .error .missingPart
  | _ => .error .wrongType

/-- A member's name, told from its owner's; an owner without a name has none like it. -/
def awayFrom (owner name : Name) : Except Fault Name :=
  match owner, name with
  | .text owner, .text word => .ok (.text (apart owner word))
  | owner, name => if owner.truthy && name.same owner then .error .wrongType else .ok name

def unmarked (kind : PropertyKind) (name : Name) : Except Fault Name :=
  if kind = .bool then stripBoolMark name else .ok name

def property (kind : PropertyKind) (name owner : Name) : Except Fault Name := do
  escapeKeyword (← awayFrom owner (← unmarked kind name))

def function (name owner : Name) : Except Fault Name := do escapeKeyword (← awayFrom owner name)

def parameter (kind : PropertyKind) (name : Name) : Except Fault Name := do
  escapeKeyword (← camelCase (← unmarked kind name))

def enumEntry : Name → Except Fault Name
  | .text word => .ok (.text (withoutScope word))
  | _ => .error .missingPart

theorem unmarked_text (kind : PropertyKind) (word : String) :
    unmarked kind (.text word) =
      .ok (.text (if kind = .bool then withoutBoolMark word else word)) := by
  unfold unmarked; split <;> rfl

theorem property_text (kind : PropertyKind) (word owner : String) :
    property kind (.text word) (.text owner) = .ok (.text (escapeWord
      (apart owner (if kind = .bool then withoutBoolMark word else word)))) := by
  rw [property, unmarked_text]; rfl

theorem function_text (word owner : String) :
    function (.text word) (.text owner) = .ok (.text (escapeWord (apart owner word))) := rfl

theorem parameter_text (kind : PropertyKind) (word : String) :
    parameter kind (.text word) = .ok (.text (escapeWord
      (lowerFirst (if kind = .bool then withoutBoolMark word else word)))) := by
  rw [parameter, unmarked_text]; rfl

def rootNamespace : String := "UnrealSharp"

def moduleNamespace (module : String) : String := rootNamespace ++ "." ++ module

def rootClass : String := "UnrealSharp.UnrealSharpObject"

end ScriptGlue.Naming
