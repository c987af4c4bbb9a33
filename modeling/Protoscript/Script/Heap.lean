import Protoscript.Script.Value

/-!
# The heap

Everything that can change lies in a cell of the heap. Cells are added and overwritten, never
removed, so a reference stays good.

* `Heap`, `Cell` — the five shelves and what their cells hold;
* `Heap.cell`, `Heap.put`, `Heap.alloc` — reading, overwriting and adding a cell; what each does to
  every cell is said by `Heap.cell_put_self`, `Heap.cell_put_of_ne`, `Heap.cell_alloc_self` and
  `Heap.cell_alloc_of_lt`;
* `Heap.typeName` — the type name of a value.
-/

namespace Protoscript

/-- A list. -/
structure ListCell where
  /-- the items -/
  items : List Value := []
  /-- whether the list can no longer be changed -/
  frozen : Bool := false
  deriving Inhabited

/-- A dict, in the order in which the keys came. -/
structure DictCell where
  /-- the entries -/
  entries : List (Value × Value) := []
  /-- whether the dict can no longer be changed -/
  frozen : Bool := false
  deriving Inhabited

/-- A message, and the values that its fields were read as. A view among them may hold changes that
the stored content does not have yet. -/
structure MessageCell where
  /-- the content, apart from what views hold -/
  content : Message
  /-- the values that fields were read as, by name -/
  views : List (String × Value) := []
  /-- whether the message can no longer be changed -/
  frozen : Bool := false
  /-- the settings -/
  config : Config
  deriving Inhabited

/-- A view of a repeated field. -/
structure RepeatedCell where
  /-- the field -/
  field : FieldDescriptor
  /-- the items -/
  items : List Value := []
  /-- whether the view can no longer be changed -/
  frozen : Bool := false
  /-- the settings -/
  config : Config
  deriving Inhabited

/-- A view of a map field. -/
structure MapCell where
  /-- the field -/
  field : FieldDescriptor
  /-- the entries -/
  entries : List (Value × Value) := []
  /-- whether the view can no longer be changed -/
  frozen : Bool := false
  /-- the settings -/
  config : Config
  deriving Inhabited

/-- What the cells of a shelf hold. -/
abbrev Cell : Shelf → Type
  | .list => ListCell
  | .dict => DictCell
  | .message => MessageCell
  | .repeated => RepeatedCell
  | .map => MapCell

instance : (s : Shelf) → Inhabited (Cell s)
  | .list => inferInstanceAs (Inhabited ListCell)
  | .dict => inferInstanceAs (Inhabited DictCell)
  | .message => inferInstanceAs (Inhabited MessageCell)
  | .repeated => inferInstanceAs (Inhabited RepeatedCell)
  | .map => inferInstanceAs (Inhabited MapCell)

/-- The cells of every shelf. -/
structure Heap where
  /-- the lists -/
  lists : Array ListCell := #[]
  /-- the dicts -/
  dicts : Array DictCell := #[]
  /-- the messages -/
  messages : Array MessageCell := #[]
  /-- the views of repeated fields -/
  repeateds : Array RepeatedCell := #[]
  /-- the views of map fields -/
  maps : Array MapCell := #[]
  /-- the next number to tell a callable or library from others by -/
  nextId : Nat := 0
  deriving Inhabited

namespace Heap

/-- The cells of a shelf. -/
def shelf (h : Heap) : (s : Shelf) → Array (Cell s)
  | .list => h.lists
  | .dict => h.dicts
  | .message => h.messages
  | .repeated => h.repeateds
  | .map => h.maps

/-- The heap with other cells on a shelf. -/
def withShelf (h : Heap) : (s : Shelf) → Array (Cell s) → Heap
  | .list, cells => { h with lists := cells }
  | .dict, cells => { h with dicts := cells }
  | .message, cells => { h with messages := cells }
  | .repeated, cells => { h with repeateds := cells }
  | .map, cells => { h with maps := cells }

/-- The number of cells. -/
def size (h : Heap) : Nat :=
  h.lists.size + h.dicts.size + h.messages.size + h.repeateds.size + h.maps.size

/-- The cell that a reference leads to. -/
def cell (h : Heap) {s : Shelf} (r : Ref s) : Cell s := (h.shelf s).getD r.index default

/-- The heap with another content of a cell. -/
def put (h : Heap) {s : Shelf} (r : Ref s) (c : Cell s) : Heap :=
  h.withShelf s ((h.shelf s).setIfInBounds r.index c)

/-- The reference that the next cell of a shelf will have. -/
def fresh (h : Heap) (s : Shelf) : Ref s := ⟨(h.shelf s).size⟩

/-- The heap with one more cell, at the reference `h.fresh s`. -/
def alloc (h : Heap) (s : Shelf) (c : Cell s) : Heap := h.withShelf s ((h.shelf s).push c)

@[simp] theorem shelf_withShelf_self (h : Heap) (s : Shelf) (cells : Array (Cell s)) :
    (h.withShelf s cells).shelf s = cells := by
  cases s <;> rfl

theorem shelf_withShelf_of_ne (h : Heap) {s t : Shelf} (hne : t ≠ s) (cells : Array (Cell s)) :
    (h.withShelf s cells).shelf t = h.shelf t := by
  cases s <;> cases t <;> first | rfl | exact absurd rfl hne

/-- A cell that was overwritten holds what was written. -/
theorem cell_put_self (h : Heap) {s : Shelf} (r : Ref s) (c : Cell s)
    (hr : r.index < (h.shelf s).size) : (h.put r c).cell r = c := by
  simp [put, cell, hr]

/-- Overwriting a cell changes no other cell of its shelf. -/
theorem cell_put_of_ne (h : Heap) {s : Shelf} {r q : Ref s} (hne : q ≠ r) (c : Cell s) :
    (h.put r c).cell q = h.cell q := by
  have hi : r.index ≠ q.index := fun e => hne (by cases q; cases r; simp_all)
  simp [put, cell, Array.getElem?_setIfInBounds_ne hi]

/-- Overwriting a cell changes no cell of another shelf. -/
theorem cell_put_of_shelf_ne (h : Heap) {s t : Shelf} (hne : t ≠ s) (r : Ref s) (q : Ref t)
    (c : Cell s) : (h.put r c).cell q = h.cell q := by
  simp [put, cell, shelf_withShelf_of_ne h hne]

/-- The new cell holds what was put into it. -/
@[simp] theorem cell_alloc_self (h : Heap) {s : Shelf} (c : Cell s) :
    (h.alloc s c).cell (h.fresh s) = c := by
  simp [alloc, cell, fresh]

/-- A new cell changes no old cell of its shelf. -/
theorem cell_alloc_of_lt (h : Heap) {s : Shelf} (c : Cell s) {r : Ref s}
    (hr : r.index < (h.shelf s).size) : (h.alloc s c).cell r = h.cell r := by
  simp [alloc, cell, Array.getElem?_push, Nat.ne_of_lt hr]

/-- A new cell changes no cell of another shelf. -/
theorem cell_alloc_of_shelf_ne (h : Heap) {s t : Shelf} (hne : t ≠ s) (c : Cell s) (q : Ref t) :
    (h.alloc s c).cell q = h.cell q := by
  simp [alloc, cell, shelf_withShelf_of_ne h hne]

end Heap

/-! ## Type names -/

namespace RepeatedCell

/-- The type of the items. -/
def kind (c : RepeatedCell) : Kind := c.field.kind

/-- The type name of a view of a repeated field. -/
def typeName (c : RepeatedCell) : String := "list<" ++ c.kind.name ++ ">"

end RepeatedCell

namespace FieldDescriptor

/-- The type of a map's keys. -/
def keyKind (f : FieldDescriptor) : Kind :=
  match f.kind with
  | .message entry => (entryKey entry).kind
  | kind => kind

/-- The type of a map's values. -/
def valueKind (f : FieldDescriptor) : Kind :=
  match f.kind with
  | .message entry => (entryValue entry).kind
  | kind => kind

end FieldDescriptor

namespace MapCell

/-- The type name of a view of a map field. -/
def typeName (c : MapCell) : String :=
  "map<" ++ c.field.keyKind.name ++ ", " ++ c.field.valueKind.name ++ ">"

end MapCell

namespace Heap

/-- The full name of the type of a message. -/
def fullName (h : Heap) (r : Ref .message) : String := (h.cell r).content.fullName

/-- The type name of a value. -/
def typeName (h : Heap) : Value → String
  | .absent => "NoneType"
  | .bool _ => "bool"
  | .int _ => "int"
  | .float _ => "float"
  | .text _ => "string"
  | .bytes _ => "bytes"
  | .tuple _ => "tuple"
  | .list _ => "list"
  | .dict _ => "dict"
  | .message r => h.fullName r
  | .repeated r => (h.cell r).typeName
  | .map r => (h.cell r).typeName
  | .enum _ => "proto.EnumValue"
  | .messageType _ => "proto.MessageType"
  | .enumType _ => "proto.EnumType"
  | .package _ => "proto.Package"
  | .callable _ => "builtin_function_or_method"
  | .library _ => "module"

end Heap

end Protoscript
