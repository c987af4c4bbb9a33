import Protoscript.Schema.Declaration

/-!
# Pools of resolved types

A pool holds the messages and enums of a set of schema files with every name resolved. Descriptors
are views of a pool: a message or enum is its place in the pool, a field is its message and what is
known of it. Pools are told apart by number, so a type of one pool is never a type of another, even
if both were made from the same files.

* `Pool`, `MessageInfo`, `EnumInfo`, `FieldInfo` — the resolved declarations;
* `MessageDescriptor`, `EnumDescriptor`, `FieldDescriptor` — views of a pool;
* `Kind` — the type of a field's values.
-/

namespace Protoscript

/-- The type of a field's values, by place in the pool. -/
inductive KindRef where
  | scalar (type : ScalarType)
  | message (index : Nat)
  | enum (index : Nat)
  deriving DecidableEq, Inhabited

/-- Whether values of a type are stored as a scalar is. -/
def KindRef.takes : KindRef → Scalar → Bool
  | scalar t, s => s.storage? == some t.storage
  | enum _, s => s.storage?.isNone
  | message _, _ => false

/-- Whether a type is, if a message, one of the first `count` of the pool. -/
def KindRef.within (count : Nat) : KindRef → Bool
  | message i => i < count
  | scalar _ | enum _ => true

/-- A field whose type is resolved. -/
structure FieldInfo where
  /-- the name in schemas and texts -/
  name : String
  /-- the name in JSON -/
  jsonName : String
  /-- the number on the wire -/
  number : Nat
  /-- whether the field holds any number of values -/
  isRepeated : Bool
  /-- the type of its values -/
  kind : KindRef
  /-- whether an unset field differs from one that holds its default -/
  hasPresence : Bool
  /-- the declared default -/
  declaredDefault : Option Scalar
  /-- the position of the oneof that the field belongs to -/
  oneof : Option Nat
  /-- the declared default is a value of the type -/
  takes_default : ∀ s ∈ declaredDefault, kind.takes s = true
  /-- a list or map outside oneofs has no presence -/
  repeated_presence : isRepeated = true → oneof = none → hasPresence = false

instance : Inhabited FieldInfo :=
  ⟨{ name := "", jsonName := "", number := 0, isRepeated := false, kind := default,
     hasPresence := false, declaredDefault := none, oneof := none, takes_default := nofun,
     repeated_presence := fun _ _ => rfl }⟩

/-- A message of a pool. -/
structure MessageInfo where
  /-- the short name -/
  name : String
  /-- the name with all its scopes -/
  fullName : String
  /-- the package of its file -/
  package : String
  /-- the edition of its file -/
  edition : Edition
  /-- the place of the enclosing message -/
  parent : Option Nat
  /-- whether it is the entry type of a map -/
  isMapEntry : Bool
  /-- the fields, in order of their numbers -/
  fields : List FieldInfo
  /-- no two fields have one number -/
  nodup_numbers : (fields.map (·.number)).Nodup
  /-- no two fields have one name -/
  nodup_names : (fields.map (·.name)).Nodup

instance : Inhabited MessageInfo :=
  ⟨{ name := "", fullName := "", package := "", edition := default, parent := none,
     isMapEntry := false, fields := [], nodup_numbers := .nil, nodup_names := .nil }⟩

/-- An enum of a pool. -/
structure EnumInfo where
  /-- the short name -/
  name : String
  /-- the name with all its scopes -/
  fullName : String
  /-- the package of its file -/
  package : String
  /-- the place of the enclosing message -/
  parent : Option Nat
  /-- names and numbers of the values, in order of declaration -/
  values : List (String × Int32)
  deriving Inhabited

/-- The resolved types of a set of files. -/
structure Pool where
  /-- what tells this pool from others -/
  id : Nat
  /-- the messages, each after the one that encloses it -/
  messages : List MessageInfo
  /-- the enums -/
  enums : List EnumInfo
  /-- no two messages have one name -/
  nodup_names : (messages.map (·.fullName)).Nodup
  /-- the messages that fields hold are there -/
  kinds_within : ∀ m ∈ messages, ∀ f ∈ m.fields, f.kind.within messages.length = true

instance : Inhabited Pool :=
  ⟨{ id := 0, messages := [], enums := [], nodup_names := .nil, kinds_within := nofun }⟩

/-- A message of a pool, by place. -/
structure MessageDescriptor where
  /-- the pool -/
  pool : Pool
  /-- the place in `pool.messages` -/
  index : Nat
  deriving Inhabited

/-- An enum of a pool, by place. -/
structure EnumDescriptor where
  /-- the pool -/
  pool : Pool
  /-- the place in `pool.enums` -/
  index : Nat
  deriving Inhabited

/-- A field of a message. -/
structure FieldDescriptor where
  /-- the message that declares the field -/
  message : MessageDescriptor
  /-- what is known of the field -/
  info : FieldInfo
  deriving Inhabited

/-- The type of a field's values. -/
inductive Kind where
  | scalar (type : ScalarType)
  | message (descriptor : MessageDescriptor)
  | enum (descriptor : EnumDescriptor)

namespace EnumDescriptor

/-- What the pool knows of the enum. -/
def info (d : EnumDescriptor) : EnumInfo := d.pool.enums.getD d.index default

/-- The name with all its scopes. -/
def fullName (d : EnumDescriptor) : String := d.info.fullName

/-- The short name. -/
def name (d : EnumDescriptor) : String := d.info.name

/-- Names and numbers of the values. -/
def values (d : EnumDescriptor) : List (String × Int32) := d.info.values

/-- The names of the values, in order of their numbers. -/
def names (d : EnumDescriptor) : List String :=
  (d.values.mergeSort fun v w => v.2 ≤ w.2).map (·.1)

/-- The name of a number, if it is declared. -/
def nameOf? (d : EnumDescriptor) (number : Int32) : Option String :=
  (d.values.find? fun v => v.2 == number).map (·.1)

/-- The number of a name, if it is declared. -/
def numberOf? (d : EnumDescriptor) (name : String) : Option Int32 :=
  (d.values.find? fun v => v.1 == name).map (·.2)

/-- The number that an unset field reads as: the first one declared. -/
def defaultNumber (d : EnumDescriptor) : Int32 :=
  match d.values with
  | [] => 0
  | v :: _ => v.2

end EnumDescriptor

namespace MessageDescriptor

/-- What the pool knows of the message. -/
def info (d : MessageDescriptor) : MessageInfo := d.pool.messages.getD d.index default

/-- The name with all its scopes. -/
def fullName (d : MessageDescriptor) : String := d.info.fullName

/-- The short name. -/
def name (d : MessageDescriptor) : String := d.info.name

/-- Whether two descriptors stand for the same type of the same pool. -/
def same (d e : MessageDescriptor) : Bool := d.pool.id == e.pool.id && d.index == e.index

/-- The fields, in order of their numbers. -/
def fields (d : MessageDescriptor) : List FieldDescriptor := d.info.fields.map (⟨d, ·⟩)

/-- The field of a name. -/
def field? (d : MessageDescriptor) (name : String) : Option FieldDescriptor :=
  (d.info.fields.find? fun f => f.name == name).map (⟨d, ·⟩)

/-- The field of a JSON name. -/
def jsonField? (d : MessageDescriptor) (name : String) : Option FieldDescriptor :=
  (d.info.fields.find? fun f => f.jsonName == name).map (⟨d, ·⟩)

/-- The field of a number. -/
def numbered? (d : MessageDescriptor) (number : Nat) : Option FieldDescriptor :=
  (d.info.fields.find? fun f => f.number == number).map (⟨d, ·⟩)

/-- Whether the message is the entry type of a map. -/
def isMapEntry (d : MessageDescriptor) : Bool := d.info.isMapEntry

/-- The messages declared directly inside this one. -/
def nestedMessages (d : MessageDescriptor) : List MessageDescriptor :=
  (List.range d.pool.messages.length).filterMap fun i =>
    let inner : MessageDescriptor := ⟨d.pool, i⟩
    if inner.info.parent == some d.index then some inner else none

/-- The enums declared directly inside this message. -/
def nestedEnums (d : MessageDescriptor) : List EnumDescriptor :=
  (List.range d.pool.enums.length).filterMap fun i =>
    let inner : EnumDescriptor := ⟨d.pool, i⟩
    if inner.info.parent == some d.index then some inner else none

end MessageDescriptor

namespace Kind

/-- The name of a type: that of the scalar, or the full name of the message or enum. -/
def name : Kind → String
  | scalar t => t.name
  | message d => d.fullName
  | enum d => d.fullName

/-- Whether the values are messages. -/
def isMessage : Kind → Bool
  | message _ => true
  | scalar _ | enum _ => false

/-- Whether values of a type are stored as a scalar is. -/
def takes : Kind → Scalar → Bool
  | scalar t, s => s.storage? == some t.storage
  | enum _, s => s.storage?.isNone
  | message _, _ => false

end Kind

namespace FieldDescriptor

/-- The name of the field. -/
def name (f : FieldDescriptor) : String := f.info.name

/-- The number of the field. -/
def number (f : FieldDescriptor) : Nat := f.info.number

/-- The type of the field's values; for a map, its entry type. -/
def kind (f : FieldDescriptor) : Kind :=
  match f.info.kind with
  | .scalar t => .scalar t
  | .message i => .message ⟨f.message.pool, i⟩
  | .enum i => .enum ⟨f.message.pool, i⟩

/-- Whether the field is a map: repeated values of an entry type. -/
def isMap (f : FieldDescriptor) : Bool :=
  f.info.isRepeated &&
    match f.kind with
    | .message d => d.isMapEntry
    | .scalar _ | .enum _ => false

/-- Whether the field is a list: repeated, but no map. -/
def isList (f : FieldDescriptor) : Bool := f.info.isRepeated && !f.isMap

/-- Whether a scalar may be stored in the field. -/
def takes (f : FieldDescriptor) (s : Scalar) : Bool := !f.info.isRepeated && f.kind.takes s

/-- Whether an unset field differs from one that holds its default. -/
def hasPresence (f : FieldDescriptor) : Bool := f.info.hasPresence

/-- Whether the field belongs to a oneof. -/
def inOneof (f : FieldDescriptor) : Bool := f.info.oneof.isSome

/-- The other members of the field's oneof. -/
def siblings (f : FieldDescriptor) : List FieldDescriptor :=
  if f.inOneof then
    f.message.fields.filter fun g => g.info.oneof == f.info.oneof && g.number != f.number
  else []

/-- All members of the field's oneof, the field included; none if it belongs to no oneof. -/
def oneofMembers (f : FieldDescriptor) : List FieldDescriptor :=
  if f.inOneof then f.message.fields.filter fun g => g.info.oneof == f.info.oneof else []

/-- What an unset scalar or enum field reads as: its declared default, else zero or the first
number of the enum. Messages have no such value. -/
def defaultScalar? (f : FieldDescriptor) : Option Scalar :=
  match f.info.declaredDefault, f.kind with
  | some value, _ => some value
  | none, .scalar t => some (.zero t.storage)
  | none, .enum d => some (.enumNumber d.defaultNumber)
  | none, .message _ => none

/-- The key field of an entry type. -/
def entryKey (entry : MessageDescriptor) : FieldDescriptor := (entry.numbered? 1).getD default

/-- The value field of an entry type. -/
def entryValue (entry : MessageDescriptor) : FieldDescriptor := (entry.numbered? 2).getD default

end FieldDescriptor

namespace Pool

/-- A name without the dot in front that marks it as absolute. -/
def bareName (name : String) : String :=
  match name.toList with
  | '.' :: rest => String.ofList rest
  | _ => name

/-- The message of a full name, which may have a dot in front. -/
def message? (p : Pool) (fullName : String) : Option MessageDescriptor :=
  (p.messages.findIdx? fun m => m.fullName == bareName fullName).map (⟨p, ·⟩)

/-- The enum of a full name, which may have a dot in front. -/
def enum? (p : Pool) (fullName : String) : Option EnumDescriptor :=
  (p.enums.findIdx? fun e => e.fullName == bareName fullName).map (⟨p, ·⟩)

/-- All messages. -/
def allMessages (p : Pool) : List MessageDescriptor :=
  (List.range p.messages.length).map (⟨p, ·⟩)

/-- All enums. -/
def allEnums (p : Pool) : List EnumDescriptor :=
  (List.range p.enums.length).map (⟨p, ·⟩)

end Pool

end Protoscript
