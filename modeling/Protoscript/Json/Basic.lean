import Protoscript.Number.Decimal

/-!
# JSON trees

* `Json` — a JSON value. Integers and floating-point numbers are kept apart, and so are the two
  widths of the latter; the members of an object keep their order and may repeat a name.
* `Json.sorted` — the same value with the members of each object in order of their names, the last
  of each name.
-/

namespace Protoscript

/-- A JSON value. -/
inductive Json where
  | null
  | bool (value : Bool)
  | int (value : Int)
  | double (value : Double)
  | single (value : Single)
  | text (value : String)
  | array (items : List Json)
  | object (members : List (String × Json))
  deriving Inhabited

namespace Json

/-- Puts a member in its place among members that ascend by name, in place of one of the same
name. -/
def insertMember (name : String) (value : Json) : List (String × Json) → List (String × Json)
  | [] => [(name, value)]
  | m :: rest =>
    if m.1 = name then (name, value) :: rest
    else if m.1 < name then m :: insertMember name value rest
    else (name, value) :: m :: rest

mutual

/-- The value with the members of each object ascending by name. -/
def sorted : Json → Json
  | .array items => .array (sortedItems items)
  | .object members =>
    .object ((sortedMembers members).foldl (fun ms m => insertMember m.1 m.2 ms) [])
  | value => value

/-- The items of an array, each sorted. -/
def sortedItems : List Json → List Json
  | [] => []
  | item :: rest => sorted item :: sortedItems rest

/-- The members of an object, each with its value sorted. -/
def sortedMembers : List (String × Json) → List (String × Json)
  | [] => []
  | (name, value) :: rest => (name, sorted value) :: sortedMembers rest

end

end Json

end Protoscript
