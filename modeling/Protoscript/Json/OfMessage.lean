import Protoscript.Json.WellKnown
import Protoscript.Text.Base64
import Protoscript.TextForm.Writer

/-!
# The JSON form of a message

A message is an object with its set fields under their names. Integers of 64 bits are written as
texts, bytes in base64, enum values by name if they have one, and the floating-point numbers that
JSON does not have as the texts `NaN`, `Infinity` and `-Infinity`; only wrappers leave those to
`null`.

* `Scalar.toJson` — a scalar of a field;
* `Message.toJson?` — a message; there is none if it contains an `Any` whose payload cannot be
  read.
-/

namespace Protoscript

/-- The text of a floating-point number that JSON does not have. -/
def nonFiniteName (x : Double) : String :=
  if x.isNaN then "NaN" else if x.isNegative then "-Infinity" else "Infinity"

/-- A scalar of a wrapper. -/
def Scalar.toBareJson (kind : Kind) : Scalar → Json
  | .bool b => .bool b
  | .i32 n => .int n.toInt
  | .u32 n => .int n.toNat
  | .i64 n => .text (toString n)
  | .u64 n => .text (toString n)
  | .f32 x => .single x
  | .f64 x => .double x
  | .text s => .text s
  | .bytes b => .text (Base64.encode b)
  | .enumNumber n =>
    match kind with
    | .enum d =>
      match d.nameOf? n with
      | some name => .text name
      | none => .int n.toInt
    | .scalar _ | .message _ => .int n.toInt

/-- A scalar of a field. -/
def Scalar.toJson (kind : Kind) : Scalar → Json
  | .f32 x => if x.toDouble.isFinite then .single x else .text (nonFiniteName x.toDouble)
  | .f64 x => if x.isFinite then .double x else .text (nonFiniteName x)
  | value => value.toBareJson kind

/-- The name of a member for a key of a map. -/
def MapKey.jsonName : MapKey → String
  | .bool b => if b then "true" else "false"
  | .i32 n => toString n
  | .i64 n => toString n
  | .u32 n => toString n
  | .u64 n => toString n
  | .text s => s

/-- The value of a wrapper. -/
def Message.bareJson (t : ScalarType) (m : Message) : Json :=
  match lookupNumber 1 m.fields with
  | some (.scalar value) => value.toBareJson (.scalar t)
  | _ => (Scalar.zero t.storage).toBareJson (.scalar t)

/-- The URL and the payload of an `Any`, if JSON has a form for it. -/
def Message.jsonPayload? (m : Message) : Option (String × Message) := do
  let (url, payload) ← m.anyParts?
  let d ← m.descriptor.pool.typeOfUrl? url
  let inner ← Message.ofWire? d payload
  return (url, inner)

mutual

/-- The JSON form of a message. Payloads are read at most `depth` deep in each other. -/
def Message.toJsonWithin? : (depth : Nat) → Message → Option Json
  | depth, .mk d fields unknown =>
    match wrappedType? d.fullName with
    | some t => some ((Message.mk d fields unknown).bareJson t)
    | none =>
      if d.fullName == anyFullName then
        match depth with
        | 0 => none
        | depth + 1 =>
          match (Message.mk d fields unknown).jsonPayload? with
          | none => none
          | some (url, inner) =>
            match Message.toJsonWithin? depth inner with
            | some (.object members) =>
              if hasOwnJson inner.fullName then
                some (.object [("@type", .text url), ("value", .object members)])
              else some (.object (("@type", .text url) :: members))
            | some value => some (.object [("@type", .text url), ("value", value)])
            | none => none
      else
        (Message.fieldsToJson? depth (.mk d fields unknown) fields).map .object
termination_by depth m => (depth, sizeOf m, 1)

/-- The members for the fields that are set. -/
def Message.fieldsToJson? (depth : Nat) (m : Message) :
    List (Nat × Stored) → Option (List (String × Json))
  | [] => some []
  | (number, value) :: rest =>
    match m.descriptor.numbered? number with
    | none => Message.fieldsToJson? depth m rest
    | some f =>
      if m.has f then
        match Stored.toJson? depth f value, Message.fieldsToJson? depth m rest with
        | some j, some members => some ((f.name, j) :: members)
        | _, _ => none
      else Message.fieldsToJson? depth m rest
termination_by fields => (depth, sizeOf fields, 0)

/-- The JSON form of what a field holds. -/
def Stored.toJson? (depth : Nat) (f : FieldDescriptor) : Stored → Option Json
  | .scalar value => some (value.toJson f.kind)
  | .message m => Message.toJsonWithin? depth m
  | .list items => (Stored.itemsToJson? depth f items).map .array
  | .map entries => (Stored.entriesToJson? depth f entries).map .object
termination_by value => (depth, sizeOf value, 0)

/-- The JSON forms of the items of a list. -/
def Stored.itemsToJson? (depth : Nat) (f : FieldDescriptor) : List Stored → Option (List Json)
  | [] => some []
  | item :: rest =>
    match Stored.toJson? depth f item, Stored.itemsToJson? depth f rest with
    | some j, some items => some (j :: items)
    | _, _ => none
termination_by items => (depth, sizeOf items, 0)

/-- The members for the entries of a map. -/
def Stored.entriesToJson? (depth : Nat) (f : FieldDescriptor) :
    List (MapKey × Stored) → Option (List (String × Json))
  | [] => some []
  | (key, value) :: rest =>
    let valueField := match f.kind with
      | .message entry => FieldDescriptor.entryValue entry
      | .scalar _ | .enum _ => f
    match Stored.toJson? depth valueField value, Stored.entriesToJson? depth f rest with
    | some j, some members => some ((key.jsonName, j) :: members)
    | _, _ => none
termination_by entries => (depth, sizeOf entries, 0)

end

/-- The JSON form of a message. -/
def Message.toJson? (m : Message) : Option Json := m.toJsonWithin? m.formDepth

end Protoscript
