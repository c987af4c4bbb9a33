import Protoscript.Script.Adopt
import Protoscript.Script.Equality
import Protoscript.Script.Hash

/-!
# Lists and dicts

Plain lists and dicts hold any values. Dicts keep the order in which keys came; a key must have a
hash, and is found by equality.

* `ListCell`: `Script.push`, `Script.setItem`;
* `DictCell`: `Script.dictGet`, `Script.dictInsert`, `Script.dictRemove`, `Script.dictOf`;
* `Script.iterate`, `Script.length` — what all containers can do.
-/

namespace Protoscript

/-- The position of the first entry whose key equals a key. -/
def Heap.findKey? (h : Heap) (key : Value) (entries : List (Value × Value)) : Option Nat :=
  entries.findIdx? fun e => h.keysEqual e.1 key

/-- The value of the first entry whose key equals a key. -/
def Heap.lookup? (h : Heap) (key : Value) (entries : List (Value × Value)) : Option Value :=
  (entries.find? fun e => h.keysEqual e.1 key).map (·.2)

/-- Entries with another value at a position. -/
def setValueAt (position : Nat) (value : Value) (entries : List (Value × Value)) :
    List (Value × Value) :=
  entries.modify position fun e => (e.1, value)

namespace Script

/-- What a cell holds. -/
def cell (r : Ref s) : Script (Cell s) := fun h => (.ok (h.cell r), h)

/-- Overwrites a cell. -/
def put (r : Ref s) (c : Cell s) : Script Unit := fun h => (.ok (), h.put r c)

/-- Fails if something is frozen. -/
def checkMutable (frozen : Bool) (verb target : String) : Script Unit :=
  if frozen then throw (.frozen verb target) else pure ()

/-! ## Lists -/

/-- Appends a value to a list. -/
def push (r : Ref .list) (value : Value) : Script Unit := do
  let c ← cell r
  checkMutable c.frozen "append to" "list"
  put r { c with items := c.items ++ [value] }

/-- Replaces the item of a list at a position. -/
def setItem (r : Ref .list) (position : Nat) (value : Value) : Script Unit := do
  let c ← cell r
  checkMutable c.frozen "set item of" "list"
  if position < c.items.length then
    put r { c with items := c.items.set position value }
  else
    throw (.indexOutOfRange position c.items.length)

/-- A new list. -/
def newList (items : List Value) : Script Value := fun h =>
  let r := h.newList items
  (.ok r.1, r.2)

/-! ## Dicts -/

/-- The hash of a value. -/
def hash (v : Value) : Script (List UInt8) := reading (·.hashBytes v)

/-- The value of a key of a dict. -/
def dictGet (r : Ref .dict) (key : Value) : Script (Option Value) := do
  let _ ← hash key
  let h ← get
  return h.lookup? key (h.cell r).entries

/-- Sets the value of a key of a dict; a key that is there keeps its place. -/
def dictInsert (r : Ref .dict) (key value : Value) : Script Unit := do
  let c ← cell r
  checkMutable c.frozen "set item of" "dict"
  let _ ← hash key
  let h ← get
  match h.findKey? key c.entries with
  | some i => put r { c with entries := setValueAt i value c.entries }
  | none => put r { c with entries := c.entries ++ [(key, value)] }

/-- Removes a key of a dict and returns its value, if it is there. -/
def dictRemove (r : Ref .dict) (key : Value) : Script (Option Value) := do
  let c ← cell r
  checkMutable c.frozen "delete from" "dict"
  let h ← get
  match h.findKey? key c.entries with
  | some i =>
    put r { c with entries := c.entries.eraseIdx i }
    return (c.entries[i]?).map (·.2)
  | none => return none

/-- A new dict with entries put into it in order. -/
def dictOf (entries : List (Value × Value)) : Script Value := do
  let h ← get
  let r := h.fresh .dict
  set (h.alloc .dict {})
  for e in entries do
    dictInsert r e.1 e.2
  return .dict r

end Script

/-! ## What all containers can do -/

namespace Heap

/-- The error of an operation that a value does not have. -/
def unsupported (h : Heap) (op : String) (a : Value) : Error :=
  .unsupportedOperation op (h.typeName a)

/-- The error of an operation that two values do not have. -/
def unsupportedFor (h : Heap) (op : String) (a b : Value) : Error :=
  .unsupportedOperation op (h.typeName a ++ " and " ++ h.typeName b)

/-- The elements of a container; of a mapping, its keys. -/
def iterate (h : Heap) (v : Value) : Except Error (List Value) :=
  match v with
  | .tuple items => .ok items
  | .list r => .ok (h.cell r).items
  | .repeated r => .ok (h.cell r).items
  | .dict r => .ok ((h.cell r).entries.map (·.1))
  | .map r => .ok ((h.cell r).entries.map (·.1))
  | v => .error (h.unsupported "iterate" v)

/-- The number of elements of a container, or of bytes of a text or byte string. -/
def length (h : Heap) (v : Value) : Except Error Nat :=
  match v with
  | .text s => .ok s.utf8ByteSize
  | .bytes b => .ok b.length
  | .tuple items => .ok items.length
  | .list r => .ok (h.cell r).items.length
  | .dict r => .ok (h.cell r).entries.length
  | .repeated r => .ok (h.cell r).items.length
  | .map r => .ok (h.cell r).entries.length
  | v => .error (h.unsupported "len" v)

end Heap

end Protoscript
