import Protoscript.Script.Error
import Protoscript.Wire.Message

/-!
# From values to stored data

What a script writes into a field is checked against the field's type and stored in the one form that
the type has. Messages are copied; what their views hold is written back into the copy.

* `Value.toStored` — a value as a field of a type stores it;
* `Heap.contents` — a message as it stands, with the changes made through views of it;
* `Heap.repeatedContents`, `Heap.mapContents` — what a view would store.

The views of a message hold messages that were made after it, and `Heap.contents` follows them only
so far as that is so; this is why it ends.
-/

namespace Protoscript

/-! ## Scalars -/

/-- A value as an integer of a range. -/
def intInRange (kind : Kind) (value : Value) (convert : Int → Option Scalar) :
    Except Error Scalar :=
  match value with
  | .int n =>
    match convert n with
    | some s => .ok s
    | none => .error (.overflow n kind.name)
  | _ => .error (.typeMismatch value kind.name)

/-- A value as a scalar type stores it. Floating-point types take integers, and `bytes` takes
texts. -/
def ScalarType.toStored (t : ScalarType) (value : Value) : Except Error Scalar :=
  let mismatch : Except Error Scalar := .error (.typeMismatch value t.name)
  match t.storage with
  | .bool =>
    match value with
    | .bool b => .ok (.bool b)
    | _ => mismatch
  | .text =>
    match value with
    | .text s => .ok (.text s)
    | _ => mismatch
  | .bytes =>
    match value with
    | .text s => .ok (.bytes (utf8Bytes s))
    | .bytes b => .ok (.bytes b)
    | _ => mismatch
  | .f32 =>
    match value with
    | .float x => .ok (.f32 x.toSingle)
    | .int n => .ok (.f32 (.ofInt n))
    | _ => mismatch
  | .f64 =>
    match value with
    | .float x => .ok (.f64 x)
    | .int n => .ok (.f64 (.ofInt n))
    | _ => mismatch
  | .i32 => intInRange (.scalar t) value fun n => (int32Of? n).map .i32
  | .i64 => intInRange (.scalar t) value fun n => (int64Of? n).map .i64
  | .u32 => intInRange (.scalar t) value fun n => (uint32Of? n).map .u32
  | .u64 => intInRange (.scalar t) value fun n => (uint64Of? n).map .u64

/-- A value as an enum field stores it: a value of an enum of the same full name. -/
def EnumDescriptor.toStored (d : EnumDescriptor) (value : Value) : Except Error Scalar :=
  match value with
  | .enum e =>
    if e.enumName == d.fullName then .ok (.enumNumber e.number)
    else .error (.typeMismatch value d.fullName)
  | _ => .error (.typeMismatch value d.fullName)

/-- A value as a type other than a message stores it. -/
def Kind.scalarToStored (kind : Kind) (value : Value) : Except Error Scalar :=
  match kind with
  | .scalar t => t.toStored value
  | .enum d => d.toStored value
  | .message d => .error (.typeMismatch value d.fullName)

/-! ## Messages -/

/-- The field of a wrapper message that holds the bare scalar: a singular field `value` that is no
message. -/
def MessageDescriptor.boxField? (d : MessageDescriptor) : Option FieldDescriptor :=
  (d.field? "value").filter fun f => !f.isList && !f.isMap && !f.kind.isMessage

/-- A bare scalar as a message with the scalar in its field `value`. -/
def MessageDescriptor.box (d : MessageDescriptor) (value : Value) : Except Error Message :=
  match d.boxField? with
  | none => .error (.fieldNotFound d.fullName "value")
  | some f =>
    match f.kind.scalarToStored value with
    | .ok s => .ok ((Message.empty d).set f (.scalar s))
    | .error e => .error e

/-- A message as one of another type of the same name: as it is if the types are the same, else read
again from its bytes. -/
def Message.adopt (d : MessageDescriptor) (m : Message) : Except Error Message :=
  if m.descriptor.same d then .ok m
  else
    match Message.ofWire? d m.toWire with
    | some m => .ok m
    | none => .error .wire

/-- What a value gives as a message of a type; `flush` gives the contents of a message. -/
def MessageDescriptor.toStored (h : Heap) (flush : Ref .message → Except Error Message)
    (d : MessageDescriptor) (value : Value) (config : Config) : Except Error Message :=
  match value with
  | .message r =>
    if h.fullName r != d.fullName then
      .error (.messageTypeMismatch d.fullName (h.fullName r))
    else
      match flush r with
      | .ok m => m.adopt d
      | .error e => .error e
  | value =>
    if config.isScalarWrapper d.fullName then d.box value
    else .error (.typeMismatch value d.fullName)

/-- A value as a type stores it; `flush` gives the contents of a message. -/
def Kind.toStored (h : Heap) (flush : Ref .message → Except Error Message) (kind : Kind)
    (value : Value) (config : Config) : Except Error Stored :=
  match kind with
  | .message d => (d.toStored h flush value config).map .message
  | kind => (kind.scalarToStored value).map .scalar

/-- A value as a key of a map. -/
def Kind.toMapKey (h : Heap) (flush : Ref .message → Except Error Message) (kind : Kind)
    (value : Value) (config : Config) : Except Error MapKey :=
  match kind.toStored h flush value config with
  | .error e => .error e
  | .ok (.scalar s) =>
    match MapKey.ofScalar? s with
    | some k => .ok k
    | none => .error (.typeMismatch value kind.name)
  | .ok _ => .error (.typeMismatch value kind.name)

/-! ## Contents -/

/-- What a view of a repeated field would store. -/
def RepeatedCell.toStored (h : Heap) (flush : Ref .message → Except Error Message)
    (c : RepeatedCell) : Except Error Stored :=
  (c.items.mapM fun item => c.kind.toStored h flush item c.config).map .list

/-- The entries that a view of a map field would store. -/
def MapCell.toStored (h : Heap) (flush : Ref .message → Except Error Message) (c : MapCell) :
    Except Error Stored := do
  let entries ← c.entries.mapM fun e => do
    let key ← c.field.keyKind.toMapKey h flush e.1 c.config
    let value ← c.field.valueKind.toStored h flush e.2 c.config
    return (key, value)
  return .map (mapOfEntries entries)

/-- What a view of a message's field would store, if the value is a view. -/
def Heap.viewContents (h : Heap) (flush : Ref .message → Except Error Message) (view : Value) :
    Except Error (Option Stored) :=
  match view with
  | .message r => (flush r).map fun m => some (.message m)
  | .repeated r => ((h.cell r).toStored h flush).map some
  | .map r => ((h.cell r).toStored h flush).map some
  | _ => .ok none

/-- A message as it stands, with what its views hold. -/
def Heap.contents (h : Heap) (r : Ref .message) : Except Error Message :=
  let flush (child : Ref .message) : Except Error Message :=
    if _h : r.index < child.index ∧ r.index < h.messages.size then h.contents child
    else .error .cyclic
  (h.cell r).views.foldlM
    (fun m view => do
      match m.descriptor.field? view.1 with
      | none => return m
      | some f =>
        match ← h.viewContents flush view.2 with
        | some value => return m.set f value
        | none => return m)
    (h.cell r).content
termination_by h.messages.size - r.index
decreasing_by omega

/-- What a view of a repeated field would store. -/
def Heap.repeatedContents (h : Heap) (r : Ref .repeated) : Except Error Stored :=
  (h.cell r).toStored h h.contents

/-- What a view of a map field would store. -/
def Heap.mapContents (h : Heap) (r : Ref .map) : Except Error Stored :=
  (h.cell r).toStored h h.contents

/-- A value as a type stores it. -/
def Heap.toStored (h : Heap) (kind : Kind) (value : Value) (config : Config) :
    Except Error Stored :=
  kind.toStored h h.contents value config

/-- A value as a key of a map. -/
def Heap.toMapKey (h : Heap) (kind : Kind) (value : Value) (config : Config) :
    Except Error MapKey :=
  kind.toMapKey h h.contents value config

end Protoscript
