import Protoscript.Schema.Scalar

/-!
# Declarations

Schema files as data, before names are resolved: a file declares messages and enums, a message
declares fields, oneofs, nested messages and nested enums.

* `FieldDecl`, `EnumDecl`, `MessageDecl`, `FileDecl` — the declarations;
* `TypeCode` — the numeric codes of field types.
-/

namespace Protoscript

/-- How often a field may occur. -/
inductive Label where
  | optional | required | repeated
  deriving DecidableEq, Inhabited

namespace Label

/-- The numeric code of a label. -/
def code : Label → Nat
  | optional => 1
  | required => 2
  | repeated => 3

/-- The label of a numeric code. -/
def ofCode? : Nat → Option Label
  | 1 => some optional
  | 2 => some required
  | 3 => some repeated
  | _ => none

end Label

/-- The type that a field declares; messages and enums are named separately. -/
inductive TypeCode where
  | scalar (type : ScalarType)
  | message
  | enum
  deriving DecidableEq, Inhabited

namespace TypeCode

/-- The numeric code of a declared type. -/
def code : TypeCode → Nat
  | scalar .double => 1
  | scalar .float => 2
  | scalar .int64 => 3
  | scalar .uint64 => 4
  | scalar .int32 => 5
  | scalar .fixed64 => 6
  | scalar .fixed32 => 7
  | scalar .bool => 8
  | scalar .string => 9
  | message => 11
  | scalar .bytes => 12
  | scalar .uint32 => 13
  | enum => 14
  | scalar .sfixed32 => 15
  | scalar .sfixed64 => 16
  | scalar .sint32 => 17
  | scalar .sint64 => 18

/-- The declared type of a numeric code. Groups have no counterpart. -/
def ofCode? : Nat → Option TypeCode
  | 1 => some (scalar .double)
  | 2 => some (scalar .float)
  | 3 => some (scalar .int64)
  | 4 => some (scalar .uint64)
  | 5 => some (scalar .int32)
  | 6 => some (scalar .fixed64)
  | 7 => some (scalar .fixed32)
  | 8 => some (scalar .bool)
  | 9 => some (scalar .string)
  | 11 => some message
  | 12 => some (scalar .bytes)
  | 13 => some (scalar .uint32)
  | 14 => some enum
  | 15 => some (scalar .sfixed32)
  | 16 => some (scalar .sfixed64)
  | 17 => some (scalar .sint32)
  | 18 => some (scalar .sint64)
  | _ => none

theorem ofCode?_code (t : TypeCode) : ofCode? t.code = some t := by
  cases t with
  | scalar s => cases s <;> rfl
  | message => rfl
  | enum => rfl

end TypeCode

/-- A declared field. -/
structure FieldDecl where
  /-- the name in schemas and texts -/
  name : String := ""
  /-- the name in JSON, if one is given -/
  jsonName : Option String := none
  /-- the number on the wire -/
  number : Int := 0
  /-- how often the field occurs -/
  label : Label := .optional
  /-- the declared type -/
  type : Option TypeCode := none
  /-- the name of a message or enum type, absolute if it starts with a dot -/
  typeName : Option String := none
  /-- the text of a declared default -/
  defaultText : Option String := none
  /-- the position of the oneof that the field belongs to -/
  oneofIndex : Option Nat := none
  deriving DecidableEq, Inhabited

/-- A declared enum, with its values in order. -/
structure EnumDecl where
  /-- the short name -/
  name : String := ""
  /-- names and numbers of the values -/
  values : List (String × Int32) := []
  deriving DecidableEq, Inhabited

/-- A declared message. -/
structure MessageDecl where
  /-- the short name -/
  name : String := ""
  /-- the fields in order of declaration -/
  fields : List FieldDecl := []
  /-- the nested messages -/
  nested : List MessageDecl := []
  /-- the nested enums -/
  enums : List EnumDecl := []
  /-- the names of the oneofs -/
  oneofs : List String := []
  /-- whether the message is the entry type of a map field -/
  isMapEntry : Bool := false
  deriving Inhabited

/-- The two editions of the schema language. -/
inductive Edition where
  | proto2 | proto3
  deriving DecidableEq, Inhabited

/-- A schema file. -/
structure FileDecl where
  /-- the path by which other files import this one -/
  name : String := ""
  /-- the package, empty for none -/
  package : String := ""
  /-- the paths of the imported files -/
  dependencies : List String := []
  /-- positions in `dependencies` of the imports that importing files see too -/
  publicDependencies : List Nat := []
  /-- the top-level messages -/
  messages : List MessageDecl := []
  /-- the top-level enums -/
  enums : List EnumDecl := []
  /-- the edition of the schema language that the file is written in -/
  edition : Edition := .proto2
  deriving Inhabited

end Protoscript
