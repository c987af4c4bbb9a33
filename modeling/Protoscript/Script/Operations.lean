import Protoscript.Script.Functions

/-!
# What scripts do with values

Each operation works on every value that has it and fails with its own error on the others.

* `Heap.truth`, `Heap.attrNames`, `Heap.contains` — questions to a value;
* `Script.attr`, `Script.assignField` — attributes;
* `Script.index`, `Script.setIndex`, `Script.slice` — elements;
* `Script.add` — sums and concatenations;
* `Script.call` — calls.
-/

namespace Protoscript

namespace Heap

/-- Whether a value counts as true. -/
def truth (h : Heap) : Value → Bool
  | .absent => false
  | .bool b => b
  | .int n => n != 0
  | .float x => !x.equals (.zero false)
  | .text s => !s.isEmpty
  | .bytes b => !b.isEmpty
  | .tuple items => !items.isEmpty
  | .list r => !(h.cell r).items.isEmpty
  | .dict r => !(h.cell r).entries.isEmpty
  | .repeated r => !(h.cell r).items.isEmpty
  | .map r => !(h.cell r).entries.isEmpty
  | .enum e => e.number != 0
  | .message _ | .messageType _ | .enumType _ | .package _ | .callable _ | .library _ => true

/-- The names of the attributes of a value. -/
def attrNames (h : Heap) : Value → List String
  | .message r => (h.cell r).content.descriptor.fields.map (·.name)
  | .repeated _ => RepeatedMethod.all.map (·.name)
  | .map _ => MapMethod.all.map (·.name)
  | .messageType t => t.nestedNames
  | .enumType d => d.names
  | .package p => p.memberNames
  | .library _ => Function.all.map (·.name)
  | .enum _ => ["name", "number"]
  | .absent | .bool _ | .int _ | .float _ | .text _ | .bytes _ | .tuple _ | .list _ | .dict _
  | .callable _ => []

/-- Whether a text occurs in another. -/
def occursIn (needle : List Char) : List Char → Bool
  | [] => needle.isEmpty
  | c :: rest => needle.isPrefixOf (c :: rest) || occursIn needle rest

/-- Whether a container has an element, a mapping a key, or a text a part. -/
def contains (h : Heap) (v needle : Value) : Except Error Bool :=
  match v with
  | .text s =>
    match needle with
    | .text part => .ok (occursIn part.toList s.toList)
    | needle => .error (h.unsupportedFor "in" v needle)
  | .dict r => (h.hashBytes needle).map fun _ => (h.lookup? needle (h.cell r).entries).isSome
  | .map r => .ok (h.lookup? needle (h.cell r).entries).isSome
  | .tuple items => .ok (items.any fun item => h.keysEqual item needle)
  | .list r => .ok ((h.cell r).items.any fun item => h.keysEqual item needle)
  | .repeated r => .ok ((h.cell r).items.any fun item => h.keysEqual item needle)
  | v => .error (h.unsupportedFor "in" v needle)

end Heap

namespace Script

/-! ## Attributes -/

/-- The attribute of a name, if the value has it. -/
def attr (v : Value) (name : String) : Script (Option Value) := do
  match v with
  | .message r => messageAttr r name
  | .repeated r =>
    match RepeatedMethod.ofName? name with
    | none => return none
    | some m => return some (.callable (.repeated (← newId) ((← get).typeName v) r m))
  | .map r =>
    match MapMethod.ofName? name with
    | none => return none
    | some m => return some (.callable (.map (← newId) ((← get).typeName v) r m))
  | .messageType t => return (lookupName name t.nested).map (·.toValue)
  | .enumType d => return some (← ofExcept (d.value name))
  | .package p => return some (← ofExcept (p.member name))
  | .library l => return (Function.ofName? name).map fun f => .callable (.function l f)
  | .enum e =>
    if name == "name" then return some (.text (e.name?.getD ""))
    else if name == "number" then return some (.int e.number.toInt)
    else return none
  | .absent | .bool _ | .int _ | .float _ | .text _ | .bytes _ | .tuple _ | .list _ | .dict _
  | .callable _ => return none

/-- Assigns to a field of a message. -/
def assignField (v : Value) (name : String) (value : Value) : Script Unit := do
  match v with
  | .message r => setField r name value
  | v => throw (.noSuchAttribute ((← get).typeName v) name)

/-! ## Elements -/

/-- A key as a position; only integers are. -/
def indexOperand (v key : Value) : Script Int := do
  match key with
  | .int n => return n
  | key => throw ((← get).unsupportedFor "[]" v key)

/-- The item of a sequence at an index. -/
def itemAt (v key : Value) (items : List Value) : Script Value := do
  let position ← ofExcept (resolveIndex (← indexOperand v key) items.length)
  return items.getD position .absent

/-- The element of a container at a key. -/
def index (v key : Value) : Script Value := do
  match v with
  | .tuple items => itemAt v key items
  | .list r => itemAt v key (← cell r).items
  | .repeated r => itemAt v key (← cell r).items
  | .dict r =>
    match ← dictGet r key with
    | some value => return value
    | none => throw (.keyNotFound key)
  | .map r => mapIndex r key
  | v => throw ((← get).unsupportedFor "[]" v key)

/-- Replaces the element of a container at a key. -/
def setIndex (v key value : Value) : Script Unit := do
  match v with
  | .list r =>
    let n ← indexOperand v key
    setItem r (← ofExcept (resolveIndex n (← cell r).items.length)) value
  | .repeated r => setAt r (← indexOperand v key) value
  | .dict r => dictInsert r key value
  | .map r => mapSet r key value
  | v => throw ((← get).unsupportedFor "[]=" v key)

/-- The part of a sequence between two bounds; of a view, as a plain list. -/
def slice (v : Value) (start stop : Option Int) : Script Value := do
  match v with
  | .tuple items => return .tuple (sliceOf start stop items)
  | .list r => newList (sliceOf start stop (← cell r).items)
  | .repeated r => newList (sliceOf start stop (← cell r).items)
  | v => throw ((← get).unsupported "slice" v)

/-! ## Sums and calls -/

/-- The sum of two numbers, or one value behind another. -/
def add (a b : Value) : Script Value := do
  let refused : Script Value := do throw ((← get).unsupportedFor "+" a b)
  match a, b with
  | .int m, .int n => if fitsSigned 128 (m + n) then return .int (m + n) else refused
  | .float x, .float y => return .float (x.add y)
  | .int m, .float y => return .float ((Double.ofInt m).add y)
  | .float x, .int n => return .float ((Double.ofInt n).add x)
  | .text s, .text t => return .text (s ++ t)
  | .bytes s, .bytes t => return .bytes (s ++ t)
  | .tuple s, .tuple t => return .tuple (s ++ t)
  | .repeated r, .list _ | .repeated r, .repeated _ => concat r b
  | .list r, .list _ | .list r, .repeated _ =>
    newList ((← cell r).items ++ (← reading (·.iterate b)))
  | _, _ => refused

/-- Calls a value. -/
def call (v : Value) (args : List Value) (keywords : Keywords) : Script Value := do
  match v with
  | .messageType t => construct t args keywords
  | .callable (.repeated _ receiver r m) => callRepeated r receiver m args keywords
  | .callable (.map _ receiver r m) => callMap r receiver m args keywords
  | .callable (.function l f) => callFunction l f args keywords
  | v => throw (.notCallable ((← get).typeName v))

end Script

end Protoscript
