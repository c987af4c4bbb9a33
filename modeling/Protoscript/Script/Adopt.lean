import Protoscript.Script.Contents

/-!
# From stored data to values

What a field stores becomes a value when a script reads it. A message becomes a new cell with a copy
of the content, so that reading a stored message never shares it.

* `Scalar.toValue`, `MapKey.toValue` — scalars;
* `Heap.newMessage` — a message in a new cell;
* `Heap.adopt` — what a field holds as a value; a list or map becomes a plain list or dict;
* `Heap.adoptItems`, `Heap.adoptEntries` — the items and entries that views start with.
-/

namespace Protoscript

/-- A stored scalar as a value. Bytes that are UTF-8 read as a text. -/
def Scalar.toValue (kind : Kind) : Scalar → Value
  | .bool b => .bool b
  | .i32 n => .int n.toInt
  | .i64 n => .int n.toInt
  | .u32 n => .int n.toNat
  | .u64 n => .int n.toNat
  | .f32 x => .float x.toDouble
  | .f64 x => .float x
  | .text s => .text s
  | .bytes b =>
    match ofUtf8? b with
    | some s => .text s
    | none => .bytes b
  | .enumNumber n =>
    match kind with
    | .enum d => .enum ⟨d, n⟩
    | .scalar _ | .message _ => .int n.toInt

/-- A stored key as a value. -/
def MapKey.toValue : MapKey → Value
  | .bool b => .bool b
  | .i32 n => .int n.toInt
  | .i64 n => .int n.toInt
  | .u32 n => .int n.toNat
  | .u64 n => .int n.toNat
  | .text s => .text s

namespace Heap

/-- A message in a new cell. -/
def newMessage (h : Heap) (m : Message) (config : Config) : Value × Heap :=
  (.message (h.fresh .message), h.alloc .message { content := m, config := config })

/-- A plain list of the given items, in a new cell. -/
def newList (h : Heap) (items : List Value) : Value × Heap :=
  (.list (h.fresh .list), h.alloc .list { items := items })

/-- A dict with the given entries, in a new cell. -/
def newDict (h : Heap) (entries : List (Value × Value)) : Value × Heap :=
  (.dict (h.fresh .dict), h.alloc .dict { entries := entries })

mutual

/-- What a field of a type holds as a value. -/
def adopt (h : Heap) (kind : Kind) (config : Config) : Stored → Value × Heap
  | .scalar s => (s.toValue kind, h)
  | .message m => h.newMessage m config
  | .list items =>
    let r := adoptItems h kind config items
    r.2.newList r.1
  | .map entries =>
    let r := adoptEntries h kind config entries
    r.2.newDict r.1

/-- The items of a stored list as values. -/
def adoptItems (h : Heap) (kind : Kind) (config : Config) : List Stored → List Value × Heap
  | [] => ([], h)
  | item :: rest =>
    let first := adopt h kind config item
    let others := adoptItems first.2 kind config rest
    (first.1 :: others.1, others.2)

/-- The entries of a stored map as values, in the order of the map. -/
def adoptEntries (h : Heap) (kind : Kind) (config : Config) :
    List (MapKey × Stored) → List (Value × Value) × Heap
  | [] => ([], h)
  | (key, value) :: rest =>
    let first := adopt h kind config value
    let others := adoptEntries first.2 kind config rest
    ((key.toValue, first.1) :: others.1, others.2)

end

end Heap

end Protoscript
