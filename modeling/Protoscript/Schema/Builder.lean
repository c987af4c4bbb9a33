import Protoscript.Schema.Declaration
import Protoscript.Text.Uppercase

/-!
# Builders of declarations

Schemas assembled call by call. A message builder remembers what was asked for; `build` turns it
into a declaration once the scope it lives in is known, which is when the absolute names of map
entry types are settled.

* `EnumBuilder`, `MessageBuilder`, `FileBuilder` — the builders, with one function per call;
* `lowerCamel`, `mapEntryName` — the JSON name of a field and the name of a map's entry type;
* `anyFile`, `wrappersFile` — the well-known files of `google.protobuf`.
-/

namespace Protoscript

/-- The type asked for when a field is declared; messages and enums go by their full names. -/
inductive FieldType where
  | scalar (type : ScalarType)
  | message (fullName : String)
  | enum (fullName : String)
  deriving DecidableEq, Inhabited

/-- The absolute form of a full name, which starts with a dot. -/
def absoluteName (name : String) : String :=
  if name.startsWith "." then name else "." ++ name

/-- A name inside a scope; the empty scope adds nothing. -/
def joinName (scope name : String) : String :=
  if scope.isEmpty then name else scope ++ "." ++ name

/-- Lower camel case: an underscore is dropped and the character after it is put in upper case.
`raised` says that an underscore was just dropped. -/
def lowerCamelChars : (raised : Bool) → List Char → List Char
  | _, [] => []
  | raised, c :: rest =>
    if c == '_' then lowerCamelChars true rest
    else if raised then uppercase c ++ lowerCamelChars false rest
    else c :: lowerCamelChars false rest

/-- The JSON name of a field. -/
def lowerCamel (name : String) : String := String.ofList (lowerCamelChars false name.toList)

/-- The name of the entry type of a map field: its camel-case name, starting in upper case if the
first character is ASCII, and then `Entry`. -/
def mapEntryName (field : String) : String :=
  match (lowerCamel field).toList with
  | [] => "Entry"
  | c :: rest => String.ofList ((if c.toNat < 0x80 then c.toUpper else c) :: rest) ++ "Entry"

namespace FieldType

/-- The declared type code. -/
def code : FieldType → TypeCode
  | scalar t => .scalar t
  | message _ => .message
  | enum _ => .enum

/-- The type name that a declaration carries. -/
def typeName? : FieldType → Option String
  | scalar _ => none
  | message name | enum name => some (absoluteName name)

end FieldType

/-! ## Enums -/

/-- An enum under construction; a value without a number gets the one after the value before it. -/
structure EnumBuilder where
  /-- the short name -/
  name : String
  /-- the values so far -/
  values : List (String × Int32) := []
  /-- the number of the next value that names none -/
  next : Int32 := 0
  deriving Inhabited

namespace EnumBuilder

/-- Adds a value with a number of its own. -/
def variantValue (b : EnumBuilder) (name : String) (number : Int32) : EnumBuilder :=
  { b with values := b.values ++ [(name, number)], next := number + 1 }

/-- Adds a value with the next number. -/
def variant (b : EnumBuilder) (name : String) : EnumBuilder := b.variantValue name b.next

/-- The declaration. -/
def build (b : EnumBuilder) : EnumDecl := ⟨b.name, b.values⟩

end EnumBuilder

/-! ## Messages -/

/-- A declared field, together with the short name of its entry type if it is a map. -/
structure PendingField where
  /-- the declaration, complete but for the type name of a map -/
  decl : FieldDecl
  /-- the short name of the entry type -/
  mapEntry : Option String := none
  deriving Inhabited

/-- A message under construction. -/
structure MessageBuilder where
  /-- the short name -/
  name : String
  /-- the fields so far -/
  fields : List PendingField := []
  /-- the oneofs so far, in order of first use -/
  oneofs : List String := []
  /-- the nested messages so far, map entry types included -/
  nested : List MessageBuilder := []
  /-- the nested enums so far -/
  enums : List EnumBuilder := []
  /-- whether this is the entry type of a map -/
  isMapEntry : Bool := false
  deriving Inhabited

namespace MessageBuilder

/-- A field as every call declares it. -/
def declare (name : String) (number : Int32) (type : FieldType) (label : Label) : FieldDecl where
  name := name
  jsonName := some (lowerCamel name)
  number := number.toInt
  label := label
  type := some type.code
  typeName := type.typeName?

/-- Appends a field. -/
def push (b : MessageBuilder) (f : PendingField) : MessageBuilder :=
  { b with fields := b.fields ++ [f] }

/-- Adds a singular field. -/
def field (b : MessageBuilder) (name : String) (number : Int32) (type : FieldType) :
    MessageBuilder :=
  b.push ⟨declare name number type .optional, none⟩

/-- Adds a singular field with a declared default. -/
def fieldWithDefault (b : MessageBuilder) (name : String) (number : Int32) (type : FieldType)
    (text : String) : MessageBuilder :=
  b.push ⟨{ declare name number type .optional with defaultText := some text }, none⟩

/-- Adds a repeated field. -/
def repeated (b : MessageBuilder) (name : String) (number : Int32) (type : FieldType) :
    MessageBuilder :=
  b.push ⟨declare name number type .repeated, none⟩

/-- The entry type of a map: a key with number 1 and a value with number 2. -/
def mapEntry (name : String) (key value : FieldType) : MessageBuilder :=
  { ((⟨name, [], [], [], [], false⟩ : MessageBuilder).field "key" 1 key).field "value" 2 value with
    isMapEntry := true }

/-- Adds a map field, nesting its entry type. -/
def map (b : MessageBuilder) (name : String) (number : Int32) (key value : FieldType) :
    MessageBuilder :=
  let entry := mapEntryName name
  { b with nested := b.nested ++ [mapEntry entry key value] }.push
    ⟨declare name number (.message "") .repeated, some entry⟩

/-- Adds a member of the oneof `group`, which is declared when first used. -/
def oneofField (b : MessageBuilder) (group name : String) (number : Int32) (type : FieldType) :
    MessageBuilder :=
  let decl := declare name number type .optional
  match b.oneofs.idxOf? group with
  | some i => b.push ⟨{ decl with oneofIndex := some i }, none⟩
  | none =>
    { b with oneofs := b.oneofs ++ [group] }.push
      ⟨{ decl with oneofIndex := some b.oneofs.length }, none⟩

/-- Nests a message. -/
def message (b : MessageBuilder) (nested : MessageBuilder) : MessageBuilder :=
  { b with nested := b.nested ++ [nested] }

/-- Nests an enum. -/
def enumeration (b : MessageBuilder) (nested : EnumBuilder) : MessageBuilder :=
  { b with enums := b.enums ++ [nested] }

/-- The declaration of a field of the message `fullName`: a map refers to its entry type by
absolute name. -/
def buildField (fullName : String) (f : PendingField) : FieldDecl :=
  match f.mapEntry with
  | some entry => { f.decl with typeName := some (absoluteName (joinName fullName entry)) }
  | none => f.decl

/-- The declaration of a message in a scope, the package or the enclosing message. -/
def build (scope : String) : MessageBuilder → MessageDecl
  | ⟨name, fields, oneofs, nested, enums, isMapEntry⟩ =>
    let fullName := joinName scope name
    { name := name
      fields := fields.map (buildField fullName)
      nested := buildAll fullName nested
      enums := enums.map EnumBuilder.build
      oneofs := oneofs
      isMapEntry := isMapEntry }
where
  /-- The declarations of the messages nested in one scope. -/
  buildAll (scope : String) : List MessageBuilder → List MessageDecl
    | [] => []
    | b :: rest => build scope b :: buildAll scope rest

end MessageBuilder

/-! ## Files -/

/-- A file under construction. -/
structure FileBuilder where
  /-- the path by which other files import this one -/
  name : String
  /-- the package, empty for none -/
  package : String
  /-- the edition of the schema language -/
  edition : Edition
  /-- the imports so far -/
  dependencies : List String := []
  /-- the messages so far -/
  messages : List MessageBuilder := []
  /-- the enums so far -/
  enums : List EnumBuilder := []
  deriving Inhabited

namespace FileBuilder

/-- Imports another file by path. -/
def dependency (b : FileBuilder) (path : String) : FileBuilder :=
  { b with dependencies := b.dependencies ++ [path] }

/-- Adds a top-level message. -/
def message (b : FileBuilder) (m : MessageBuilder) : FileBuilder :=
  { b with messages := b.messages ++ [m] }

/-- Adds a top-level enum. -/
def enumeration (b : FileBuilder) (e : EnumBuilder) : FileBuilder :=
  { b with enums := b.enums ++ [e] }

/-- The declaration. -/
def build (b : FileBuilder) : FileDecl where
  name := b.name
  package := b.package
  dependencies := b.dependencies
  messages := b.messages.map (MessageBuilder.build b.package)
  enums := b.enums.map EnumBuilder.build
  edition := b.edition

end FileBuilder

/-! ## Well-known files -/

/-- The full name of the envelope for messages of any type. -/
def anyFullName : String := "google.protobuf.Any"

/-- `google/protobuf/any.proto`. -/
def anyFile : FileDecl :=
  let any : MessageBuilder := { name := "Any" }
  let file : FileBuilder :=
    { name := "google/protobuf/any.proto", package := "google.protobuf", edition := .proto3 }
  (file.message
    ((any.field "type_url" 1 (.scalar .string)).field "value" 2 (.scalar .bytes))).build

/-- The wrapper messages and the types of their only field, `value`. -/
def wrapperTypes : List (String × ScalarType) := [
  ("DoubleValue", .double), ("FloatValue", .float), ("Int64Value", .int64),
  ("UInt64Value", .uint64), ("Int32Value", .int32), ("UInt32Value", .uint32),
  ("BoolValue", .bool), ("StringValue", .string), ("BytesValue", .bytes)
]

/-- `google/protobuf/wrappers.proto`. -/
def wrappersFile : FileDecl :=
  let file : FileBuilder :=
    { name := "google/protobuf/wrappers.proto", package := "google.protobuf", edition := .proto3 }
  let addWrapper (file : FileBuilder) (w : String × ScalarType) : FileBuilder :=
    let wrapper : MessageBuilder := { name := w.1 }
    file.message (wrapper.field "value" 1 (.scalar w.2))
  (wrapperTypes.foldl addWrapper file).build

end Protoscript
