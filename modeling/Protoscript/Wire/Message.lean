import Protoscript.Message.Compare
import Protoscript.Number.Integer
import Protoscript.Text.Utf8

/-!
# Messages on the wire

A message is written as its set fields, in order of their numbers, and then whatever else it carries.
Lists of numbers are packed into one value in proto3; when reading, packed and unpacked lists are
both taken. A map is a list of entries, each written like a message with the fields `key` and
`value`.

* `Message.toWire` — the bytes of a message;
* `Message.absorb?` — reads bytes into a message that may already hold something;
* `Message.ofWire?` — the message of a type that bytes stand for.
-/

namespace Protoscript

/-! ## Scalars -/

/-- A scalar as a value on the wire, if it is of the representation the type requires. -/
def ScalarType.toWire? : ScalarType → Scalar → Option WireValue
  | .double, .f64 x => some (.fixed64 x.bits)
  | .float, .f32 x => some (.fixed32 x.bits)
  | .int32, .i32 n => some (.varint n.toInt64.toUInt64)
  | .int64, .i64 n => some (.varint n.toUInt64)
  | .uint32, .u32 n => some (.varint n.toUInt64)
  | .uint64, .u64 n => some (.varint n)
  | .sint32, .i32 n => some (.varint (UInt64.ofNat (zigzag n.toInt)))
  | .sint64, .i64 n => some (.varint (UInt64.ofNat (zigzag n.toInt)))
  | .fixed32, .u32 n => some (.fixed32 n)
  | .fixed64, .u64 n => some (.fixed64 n)
  | .sfixed32, .i32 n => some (.fixed32 n.toUInt32)
  | .sfixed64, .i64 n => some (.fixed64 n.toUInt64)
  | .bool, .bool b => some (.varint (if b then 1 else 0))
  | .string, .text s => some (.delimited (utf8Bytes s))
  | .bytes, .bytes b => some (.delimited b)
  | _, _ => none

/-- The scalar of a type that a value on the wire stands for, if the value has the type's form. -/
def ScalarType.ofWire? : ScalarType → WireValue → Option Scalar
  | .double, .fixed64 bits => some (.f64 ⟨bits⟩)
  | .float, .fixed32 bits => some (.f32 ⟨bits⟩)
  | .int32, .varint n => some (.i32 n.toUInt32.toInt32)
  | .int64, .varint n => some (.i64 n.toInt64)
  | .uint32, .varint n => some (.u32 n.toUInt32)
  | .uint64, .varint n => some (.u64 n)
  | .sint32, .varint n => some (.i32 (Int32.ofInt (unzigzag n.toUInt32.toNat)))
  | .sint64, .varint n => some (.i64 (Int64.ofInt (unzigzag n.toNat)))
  | .fixed32, .fixed32 bits => some (.u32 bits)
  | .fixed64, .fixed64 bits => some (.u64 bits)
  | .sfixed32, .fixed32 bits => some (.i32 bits.toInt32)
  | .sfixed64, .fixed64 bits => some (.i64 bits.toInt64)
  | .bool, .varint n => some (.bool (n != 0))
  | .string, .delimited payload => (ofUtf8? payload).map .text
  | .bytes, .delimited payload => some (.bytes payload)
  | _, _ => none

/-- The form of a scalar type's values, by its code. -/
def ScalarType.wireCode : ScalarType → Nat
  | .double | .fixed64 | .sfixed64 => 1
  | .string | .bytes => 2
  | .float | .fixed32 | .sfixed32 => 5
  | .int32 | .int64 | .uint32 | .uint64 | .sint32 | .sint64 | .bool => 0

/-- An enum or scalar value on the wire. -/
def Kind.toWire? : Kind → Scalar → Option WireValue
  | .scalar t, v => t.toWire? v
  | .enum _, .enumNumber n => some (.varint n.toInt64.toUInt64)
  | _, _ => none

/-- The enum or scalar value of a type that a value on the wire stands for. -/
def Kind.ofWire? : Kind → WireValue → Option Scalar
  | .scalar t, w => t.ofWire? w
  | .enum _, .varint n => some (.enumNumber n.toUInt32.toInt32)
  | _, _ => none

/-- The code of the form in which lists of a type are packed, if they can be. -/
def Kind.packedCode? : Kind → Option Nat
  | .scalar .string | .scalar .bytes | .message _ => none
  | .scalar t => some t.wireCode
  | .enum _ => some 0

/-! ## Writing -/

/-- The bytes of a value without a key. -/
def WireValue.payload : WireValue → List UInt8
  | .varint n => writeVarint n
  | .fixed64 bits => lowBytes 8 bits.toNat
  | .delimited bytes => writeDelimited bytes
  | .group fields => writeFields fields
  | .fixed32 bits => lowBytes 4 bits.toNat

/-- A scalar field as numbered values: none if it holds the default that an unset field reads as. -/
def FieldDescriptor.scalarWire (f : FieldDescriptor) (value : Scalar) : List (Nat × WireValue) :=
  if !f.hasPresence && (Stored.scalar value).isDefaultOf f then []
  else
    match f.kind.toWire? value with
    | some w => [(f.number, w)]
    | none => []

/-- The items of a list of scalars as numbered values; proto3 packs what can be packed. -/
def FieldDescriptor.listWire (f : FieldDescriptor) (items : List WireValue) :
    List (Nat × WireValue) :=
  if items.isEmpty then []
  else if f.message.info.edition == .proto3 && f.kind.packedCode?.isSome then
    [(f.number, .delimited (items.flatMap WireValue.payload))]
  else items.map (f.number, ·)

mutual

/-- The bytes of a message. -/
def Message.toWire : Message → List UInt8
  | .mk d fields unknown =>
    writeFields (Message.fieldsToWire d fields ++
      unknown.flatMap fun u => u.2.map (u.1, ·))

/-- The fields of a message as numbered values. -/
def Message.fieldsToWire (d : MessageDescriptor) : List (Nat × Stored) → List (Nat × WireValue)
  | [] => []
  | (number, value) :: rest =>
    (match d.numbered? number with
      | some f => value.toWire f
      | none => []) ++ Message.fieldsToWire d rest

/-- What a field holds as numbered values. -/
def Stored.toWire (f : FieldDescriptor) : Stored → List (Nat × WireValue)
  | .scalar value => f.scalarWire value
  | .message m => [(f.number, .delimited m.toWire)]
  | .list items => f.listWire (Stored.itemsToWire f items)
  | .map entries => Stored.entriesToWire f entries

/-- The items of a list as values. -/
def Stored.itemsToWire (f : FieldDescriptor) : List Stored → List WireValue
  | [] => []
  | item :: rest =>
    (match item with
      | .scalar value =>
        match f.kind.toWire? value with
        | some w => [w]
        | none => []
      | .message m => [.delimited m.toWire]
      | .list _ | .map _ => []) ++ Stored.itemsToWire f rest

/-- The entries of a map as numbered values. -/
def Stored.entriesToWire (f : FieldDescriptor) :
    List (MapKey × Stored) → List (Nat × WireValue)
  | [] => []
  | (key, value) :: rest =>
    (match f.kind with
      | .message entry =>
        [(f.number, .delimited (writeFields
          ((FieldDescriptor.entryKey entry).scalarWire key.toScalar ++
            value.toWire (FieldDescriptor.entryValue entry))))]
      | .scalar _ | .enum _ => []) ++ Stored.entriesToWire f rest

end

/-! ## Reading -/

/-- Reads values of one form without keys until the bytes end. -/
def readPacked? (code : Nat) (bytes : List UInt8) : Option (List WireValue) :=
  if bytes.isEmpty then some []
  else
    match _h : readToken? code bytes with
    | some (.value v, rest) =>
      if rest.length < bytes.length then (readPacked? code rest).map (v :: ·) else none
    | _ => none
termination_by bytes.length

/-- Keeps a value under a number that the type does not declare. -/
def Message.keep (m : Message) (number : Nat) (w : WireValue) : Message :=
  .mk m.descriptor m.fields
    (insertNumber number ((lookupNumber number m.unknown).getD [] ++ [w]) m.unknown)

/-- Reads the value of an item or of a singular field, on top of what the field holds. `inner` reads
the message inside. -/
def Kind.readStored? (inner : Message → List UInt8 → Option Message) (kind : Kind)
    (old : Option Stored) (w : WireValue) : Option Stored :=
  match kind with
  | .message d =>
    match w, old with
    | .delimited bytes, some (.message m) => (inner m bytes).map .message
    | .delimited bytes, _ => (inner (.empty d) bytes).map .message
    | _, _ => none
  | kind => (kind.ofWire? w).map .scalar

/-- Reads a map entry: its key and value, each the default of its type if missing. -/
def readMapEntry (inner : Message → List UInt8 → Option Message) (depth : Nat)
    (entry : MessageDescriptor) (bytes : List UInt8) : Option (MapKey × Stored) := do
  let fields ← readFields? (fun _ => false) depth bytes
  let keyField := FieldDescriptor.entryKey entry
  let valueField := FieldDescriptor.entryValue entry
  let (key, value) ← fields.foldlM
    (fun (e : Stored × Stored) field =>
      if field.1 = 1 then
        (keyField.kind.readStored? inner (some e.1) field.2).map fun key => (key, e.2)
      else if field.1 = 2 then
        (valueField.kind.readStored? inner (some e.2) field.2).map fun value => (e.1, value)
      else if depth = 0 then none
      else some e)
    (Stored.singleDefault keyField, Stored.singleDefault valueField)
  match key with
  | .scalar k => (MapKey.ofScalar? k).map (·, value)
  | _ => none

/-- Reads a numbered value into a message. -/
def Message.absorbField? (inner : Message → List UInt8 → Option Message) (depth : Nat)
    (m : Message) (number : Nat) (w : WireValue) : Option Message :=
  match m.descriptor.numbered? number with
  | none => some (m.keep number w)
  | some f =>
    if f.isMap then
      match f.kind, w, m.get f with
      | .message entry, .delimited bytes, .map entries =>
        (readMapEntry inner depth entry bytes).map fun e =>
          m.set f (.map (insertKey e.1 e.2 entries))
      | _, _, _ => none
    else if f.isList then
      match m.get f with
      | .list items =>
        match w, f.kind.packedCode? with
        | .delimited bytes, some code => do
          let values ← readPacked? code bytes
          let new ← values.mapM (f.kind.readStored? inner none)
          return m.set f (.list (items ++ new))
        | _, _ =>
          (f.kind.readStored? inner none w).map fun item => m.set f (.list (items ++ [item]))
      | _ => none
    else (f.kind.readStored? inner (m.stored? f) w).map (m.set f)

/-- Reads bytes into a message. Messages inside it may nest `depth` deep; map entries are always
delimited. -/
def Message.absorbWith? (inner : Message → List UInt8 → Option Message) (depth : Nat) (m : Message)
    (bytes : List UInt8) : Option Message := do
  let isMapNumber (number : Nat) : Bool :=
    match m.descriptor.numbered? number with
    | some f => f.isMap
    | none => false
  let fields ← readFields? isMapNumber depth bytes
  fields.foldlM (fun m field => m.absorbField? inner depth field.1 field.2) m

/-- Reads bytes into a message in which messages may nest `depth` deep. -/
def Message.absorb? : (depth : Nat) → Message → List UInt8 → Option Message
  | 0 => Message.absorbWith? (fun _ _ => none) 0
  | depth + 1 => Message.absorbWith? (Message.absorb? depth) (depth + 1)

/-- How deep messages may nest on the wire. -/
def wireDepth : Nat := 100

/-- The message of a type that bytes stand for. -/
def Message.ofWire? (d : MessageDescriptor) (bytes : List UInt8) : Option Message :=
  Message.absorb? wireDepth (.empty d) bytes

end Protoscript
