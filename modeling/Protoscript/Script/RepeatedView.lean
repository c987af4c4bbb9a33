import Protoscript.Script.Arguments
import Protoscript.Script.Containers
import Protoscript.Script.Sequence

/-!
# Views of repeated fields

A view of a repeated field is a list whose items fit the field's type: every incoming value is
checked and brought into the one form that the type reads back as. An operation that takes several
values checks all of them before it changes anything.

* `Script.normalize` — the form of a value that a type reads back as;
* `Script.append`, `Script.extend`, … — the operations on a view;
* `Script.repeatedOf` — a view made from any sequence;
* `Script.callRepeated` — the methods of a view.
-/

namespace Protoscript

/-- The position of the first item that equals a value, counted from `position`. -/
def Heap.indexFrom (h : Heap) (value : Value) (position : Nat) : List Value → Except Error Nat
  | [] => .error (.elementNotFound value)
  | item :: rest =>
    match h.equals item value with
    | .ok true => .ok position
    | .ok false => h.indexFrom value (position + 1) rest
    | .error e => .error e

namespace Script

/-- The form of a value that a type reads back as. Messages are copied. -/
def normalize (kind : Kind) (value : Value) (config : Config) : Script Value := do
  match value with
  | .absent => throw (.typeMismatch value kind.name)
  | value =>
    let stored ← reading (·.toStored kind value config)
    modifyGet (·.adopt kind config stored)

/-- The forms of several values that a type reads back as. -/
def normalizeAll (kind : Kind) (values : List Value) (config : Config) : Script (List Value) :=
  values.mapM fun v => normalize kind v config

/-- The position of the first item that equals a value. -/
def indexOf (value : Value) (items : List Value) : Script Nat :=
  reading fun h => h.indexFrom value 0 items

/-- Appends a value. -/
def append (r : Ref .repeated) (value : Value) : Script Unit := do
  let c ← cell r
  checkMutable c.frozen "append to" "list"
  let checked ← normalize c.kind value c.config
  put r { c with items := c.items ++ [checked] }

/-- Appends all elements of a container, or none. -/
def extend (r : Ref .repeated) (source : Value) : Script Unit := do
  let c ← cell r
  checkMutable c.frozen "extend" "list"
  let incoming ← reading (·.iterate source)
  let checked ← normalizeAll c.kind incoming c.config
  put r { c with items := c.items ++ checked }

/-- Replaces the item at an index. -/
def setAt (r : Ref .repeated) (index : Int) (value : Value) : Script Unit := do
  let c ← cell r
  checkMutable c.frozen "set item of" "list"
  let checked ← normalize c.kind value c.config
  let position ← ofExcept (resolveIndex index c.items.length)
  put r { c with items := c.items.set position checked }

/-- Inserts a value in front of an index, which is moved into the list. -/
def insert (r : Ref .repeated) (index : Int) (value : Value) : Script Unit := do
  let c ← cell r
  checkMutable c.frozen "insert into" "list"
  let checked ← normalize c.kind value c.config
  let position := (sliceBounds (some index) none c.items.length).1
  put r { c with items := c.items.take position ++ checked :: c.items.drop position }

/-- Removes the first item that equals a value. -/
def remove (r : Ref .repeated) (value : Value) : Script Unit := do
  let c ← cell r
  checkMutable c.frozen "remove from" "list"
  let position ← indexOf value c.items
  put r { c with items := c.items.eraseIdx position }

/-- Removes the item at an index, or the last one, and returns it. -/
def pop (r : Ref .repeated) (index : Option Int) : Script Value := do
  let c ← cell r
  checkMutable c.frozen "pop from" "list"
  let position ← ofExcept (resolveIndex (index.getD (-1)) c.items.length)
  put r { c with items := c.items.eraseIdx position }
  return c.items.getD position .absent

/-- Removes all items. -/
def clearRepeated (r : Ref .repeated) : Script Unit := do
  let c ← cell r
  checkMutable c.frozen "clear" "list"
  put r { c with items := [] }

/-- A new view. -/
def newRepeated (c : RepeatedCell) : Script (Ref .repeated) := fun h =>
  (.ok (h.fresh .repeated), h.alloc .repeated c)

/-- A new view with the items of a view and then those of a list or view. -/
def concat (r : Ref .repeated) (other : Value) : Script Value := do
  let c ← cell r
  let incoming ← reading (·.iterate other)
  let checked ← normalizeAll c.kind incoming c.config
  let new ← newRepeated { field := c.field, items := c.items ++ checked, config := c.config }
  return .repeated new

/-- A view made from a sequence whose items fit the field. -/
def repeatedOf (field : FieldDescriptor) (value : Value) (config : Config) :
    Script (Ref .repeated) := do
  let c : RepeatedCell := { field := field, config := config }
  match value with
  | .list _ | .tuple _ | .repeated _ =>
    let incoming ← reading (·.iterate value)
    let checked ← normalizeAll c.kind incoming config
    newRepeated { c with items := checked }
  | value => throw (.typeMismatch value c.typeName)

/-- An argument that must be an integer. -/
def intArgument (callee param : String) (value : Value) : Script Int := do
  match value with
  | .int n => return n
  | value => throw (.argumentType callee param "int" ((← get).typeName value))

/-- Calls a method of a view of a repeated field. -/
def callRepeated (r : Ref .repeated) (receiver : String) (method : RepeatedMethod)
    (args : List Value) (keywords : Keywords) : Script Value := do
  let callee := receiver ++ "." ++ method.name
  let bind (params : List String) (required : Nat) : Script BoundArguments :=
    ofExcept (bindArguments callee args keywords params required)
  match method with
  | .append =>
    let bound ← bind ["x"] 1
    append r (bound.value 0)
    return .absent
  | .extend =>
    let bound ← bind ["x"] 1
    extend r (bound.value 0)
    return .absent
  | .clear =>
    let _ ← bind [] 0
    clearRepeated r
    return .absent
  | .index =>
    let bound ← bind ["x"] 1
    let position ← indexOf (bound.value 0) (← cell r).items
    return .int position
  | .insert =>
    let bound ← bind ["index", "x"] 2
    let index ← intArgument callee "index" (bound.value 0)
    insert r index (bound.value 1)
    return .absent
  | .pop =>
    let bound ← bind ["index"] 0
    match bound.value? 0 with
    | some v => pop r (some (← intArgument callee "index" v))
    | none => pop r none
  | .remove =>
    let bound ← bind ["x"] 1
    remove r (bound.value 0)
    return .absent

end Script

end Protoscript
