import Protoscript.Schema.Declaration
import Protoscript.Text.Utf8
import Protoscript.Wire.Value

/-!
# Schema files as bytes

A set of schema files is itself written in the wire format: a sequence of files, each with numbered
parts that hold names, dependencies, messages and enums. Parts with other numbers are passed over.

* `FileDecl.encodeSet` — the bytes of a set of files;
* `FileDecl.decodeSet?` — the files that bytes stand for. Declarations nest at most
  `declarationDepth` deep.
-/

namespace Protoscript

/-- How deep the declarations in a set of files may nest. -/
def declarationDepth : Nat := 100

/-! ## Writing -/

/-- A text as a part. -/
def textPart (number : Nat) (s : String) : Nat × WireValue := (number, .delimited (utf8Bytes s))

/-- An integer as a part. -/
def intPart (number : Nat) (n : Int) : Nat × WireValue := (number, .varint (Int64.ofInt n).toUInt64)

/-- A record of parts as a part. -/
def recordPart (number : Nat) (parts : List (Nat × WireValue)) : Nat × WireValue :=
  (number, .delimited (writeFields parts))

/-- The parts of a field. -/
def FieldDecl.toParts (f : FieldDecl) : List (Nat × WireValue) :=
  [textPart 1 f.name, intPart 3 f.number, intPart 4 f.label.code] ++
  (f.type.map fun t => intPart 5 t.code).toList ++
  (f.typeName.map (textPart 6)).toList ++
  (f.defaultText.map (textPart 7)).toList ++
  (f.oneofIndex.map fun i => intPart 9 i).toList ++
  (f.jsonName.map (textPart 10)).toList

/-- The parts of an enum. -/
def EnumDecl.toParts (e : EnumDecl) : List (Nat × WireValue) :=
  textPart 1 e.name :: e.values.map fun v =>
    recordPart 2 [textPart 1 v.1, intPart 2 v.2.toInt]

/-- The parts of a message. -/
def MessageDecl.toParts : MessageDecl → List (Nat × WireValue)
  | { name, fields, nested, enums, oneofs, isMapEntry } =>
    textPart 1 name ::
    (fields.map fun f => recordPart 2 f.toParts) ++
    (nested.attach.map fun ⟨m, _⟩ => recordPart 3 (MessageDecl.toParts m)) ++
    (enums.map fun e => recordPart 4 e.toParts) ++
    (if isMapEntry then [recordPart 7 [intPart 7 1]] else []) ++
    oneofs.map fun o => recordPart 8 [textPart 1 o]
decreasing_by
  have hlt := List.sizeOf_lt_of_mem ‹m ∈ nested›
  simp only [MessageDecl.mk.sizeOf_spec]
  omega

/-- The name of an edition. -/
def Edition.name : Edition → String
  | proto2 => "proto2"
  | proto3 => "proto3"

/-- The parts of a file. -/
def FileDecl.toParts (f : FileDecl) : List (Nat × WireValue) :=
  textPart 1 f.name ::
  (if f.package.isEmpty then [] else [textPart 2 f.package]) ++
  (f.dependencies.map (textPart 3)) ++
  (f.messages.map fun m => recordPart 4 m.toParts) ++
  (f.enums.map fun e => recordPart 5 e.toParts) ++
  (f.publicDependencies.map fun i : Nat => intPart 10 i) ++
  [textPart 12 f.edition.name]

/-- The bytes of a set of files. -/
def FileDecl.encodeSet (files : List FileDecl) : List UInt8 :=
  writeFields (files.map fun f => recordPart 1 f.toParts)

/-! ## Reading -/

/-- The values of a record under a number. -/
def partsOf (number : Nat) (parts : List (Nat × WireValue)) : List WireValue :=
  (parts.filter fun p => p.1 == number).map (·.2)

/-- A value as the bytes of a record or text. -/
def WireValue.payload? : WireValue → Option (List UInt8)
  | .delimited bytes => some bytes
  | _ => none

/-- A value as a text. -/
def WireValue.text? (w : WireValue) : Option String := w.payload?.bind ofUtf8?

/-- A value as an integer of 32 bits. -/
def WireValue.int32? : WireValue → Option Int32
  | .varint n => some n.toUInt32.toInt32
  | _ => none

/-- The texts of a record under a number. -/
def textsOf? (number : Nat) (parts : List (Nat × WireValue)) : Option (List String) :=
  (partsOf number parts).mapM WireValue.text?

/-- The integers of a record under a number. -/
def intsOf? (number : Nat) (parts : List (Nat × WireValue)) : Option (List Int32) :=
  (partsOf number parts).mapM WireValue.int32?

/-- The integers packed into bytes. -/
def unpackInts? (bytes : List UInt8) : Option (List Int32) :=
  if bytes.isEmpty then some []
  else
    match _h : readVarint? bytes with
    | none => none
    | some (n, rest) => (unpackInts? rest).map (n.toUInt32.toInt32 :: ·)
termination_by bytes.length
decreasing_by exact length_of_readVarint? _h

/-- The integers of a record under a number, where several may be packed into one value. -/
def packedIntsOf? (number : Nat) (parts : List (Nat × WireValue)) : Option (List Int32) :=
  ((partsOf number parts).mapM fun w =>
    match w with
    | WireValue.delimited bytes => unpackInts? bytes
    | w => w.int32?.map ([·])).map List.flatten

/-- The records of a record under a number. There are none where nothing may nest any deeper. -/
def recordsOf? (depth number : Nat) (parts : List (Nat × WireValue)) :
    Option (List (List (Nat × WireValue))) :=
  (partsOf number parts).mapM fun w =>
    if depth = 0 then none else w.payload?.bind (readFields? (fun _ => false) (depth - 1))

/-- The last text of a record under a number, or the empty text. -/
def lastTextOf? (number : Nat) (parts : List (Nat × WireValue)) : Option String :=
  (textsOf? number parts).map fun texts => texts.getLast?.getD ""

/-- The field that a record describes. -/
def FieldDecl.ofParts? (parts : List (Nat × WireValue)) : Option FieldDecl := do
  return {
    name := ← lastTextOf? 1 parts
    number := (((← intsOf? 3 parts).getLast?).getD 0).toInt
    label := (((← intsOf? 4 parts).getLast?).bind fun n =>
      Label.ofCode? n.toInt.toNat).getD .optional
    type := ((← intsOf? 5 parts).getLast?).bind fun n => TypeCode.ofCode? n.toInt.toNat
    typeName := (← textsOf? 6 parts).getLast?
    defaultText := (← textsOf? 7 parts).getLast?
    oneofIndex := ((← intsOf? 9 parts).getLast?).map fun n => n.toInt.toNat
    jsonName := (← textsOf? 10 parts).getLast? }

/-- The enum that a record describes. -/
def EnumDecl.ofParts? (depth : Nat) (parts : List (Nat × WireValue)) : Option EnumDecl := do
  let values ← (← recordsOf? depth 2 parts).mapM fun v => do
    return (← lastTextOf? 1 v, ((← intsOf? 2 v).getLast?).getD 0)
  return { name := ← lastTextOf? 1 parts, values := values }

/-- The message that a record describes, with at most `depth` messages nested in each other. -/
def MessageDecl.ofParts? : (depth : Nat) → List (Nat × WireValue) → Option MessageDecl
  | 0, _ => none
  | depth + 1, parts => do
    let options ← recordsOf? depth 7 parts
    let isMapEntry := (← intsOf? 7 options.flatten).getLast?
    return {
      name := ← lastTextOf? 1 parts
      fields := ← (← recordsOf? depth 2 parts).mapM FieldDecl.ofParts?
      nested := ← (← recordsOf? depth 3 parts).mapM (MessageDecl.ofParts? depth)
      enums := ← (← recordsOf? depth 4 parts).mapM (EnumDecl.ofParts? depth)
      oneofs := ← (← recordsOf? depth 8 parts).mapM (lastTextOf? 1)
      isMapEntry := isMapEntry.any (· != 0) }

/-- The edition of a name; a file that names none is of the older one. -/
def Edition.ofName? : Option String → Option Edition
  | none => some .proto2
  | some name =>
    if name == Edition.proto2.name then some .proto2
    else if name == Edition.proto3.name then some .proto3
    else none

/-- The file that a record describes. -/
def FileDecl.ofParts? (depth : Nat) (parts : List (Nat × WireValue)) : Option FileDecl := do
  return {
    name := ← lastTextOf? 1 parts
    package := ← lastTextOf? 2 parts
    dependencies := ← textsOf? 3 parts
    messages := ← (← recordsOf? depth 4 parts).mapM (MessageDecl.ofParts? depth)
    enums := ← (← recordsOf? depth 5 parts).mapM (EnumDecl.ofParts? depth)
    publicDependencies := (← packedIntsOf? 10 parts).map fun n => n.toInt.toNat
    edition := ← Edition.ofName? (← textsOf? 12 parts).getLast? }

/-- The files that bytes stand for. -/
def FileDecl.decodeSet? (bytes : List UInt8) : Option (List FileDecl) := do
  let parts ← readFields? (fun _ => false) declarationDepth bytes
  (← recordsOf? declarationDepth 1 parts).mapM (FileDecl.ofParts? (declarationDepth - 1))

end Protoscript
