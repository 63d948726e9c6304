/-! # Property kinds

The closed set of data kinds a native property may have, with the words documents use for them.
-/

namespace ScriptGlue

inductive PropertyKind where
  | bool
  | int8
  | int16
  | int32
  | int64
  | uint8
  | uint16
  | uint32
  | uint64
  | float
  | double
  | enum
  | name
  | string
  | text
  | object
  | subclass
  | softObject
  | weakObject
  | struct
  | array
  | set
  | map
  | interface
  | delegate
  | multicastDelegate
  deriving DecidableEq, Repr, Inhabited

namespace PropertyKind

def all : List PropertyKind :=
  [bool, int8, int16, int32, int64, uint8, uint16, uint32, uint64, float, double, enum, name,
    string, text, object, subclass, softObject, weakObject, struct, array, set, map, interface,
    delegate, multicastDelegate]

def label : PropertyKind → String
  | bool => "bool"
  | int8 => "int8"
  | int16 => "int16"
  | int32 => "int32"
  | int64 => "int64"
  | uint8 => "uint8"
  | uint16 => "uint16"
  | uint32 => "uint32"
  | uint64 => "uint64"
  | float => "float"
  | double => "double"
  | enum => "enum"
  | name => "name"
  | string => "string"
  | text => "text"
  | object => "object"
  | subclass => "class"
  | softObject => "soft_object"
  | weakObject => "weak_object"
  | struct => "struct"
  | array => "array"
  | set => "set"
  | map => "map"
  | interface => "interface"
  | delegate => "delegate"
  | multicastDelegate => "multicast_delegate"

def ofLabel? (s : String) : Option PropertyKind := all.find? fun k => k.label == s

theorem mem_all (k : PropertyKind) : k ∈ all := by cases k <;> decide

def isContainer : PropertyKind → Bool
  | array => true
  | set => true
  | map => true
  | _ => false

def numeric? : PropertyKind → Option String
  | int8 => some "sbyte"
  | int16 => some "short"
  | int32 => some "int"
  | int64 => some "long"
  | uint8 => some "byte"
  | uint16 => some "ushort"
  | uint32 => some "uint"
  | uint64 => some "ulong"
  | float => some "float"
  | double => some "double"
  | _ => none

end PropertyKind

end ScriptGlue
