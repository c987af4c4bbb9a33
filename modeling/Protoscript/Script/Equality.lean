import Protoscript.Script.Contents

/-!
# Equality and order of values

Numbers are equal if they have one value, whatever their type. Sequences of one sort are equal item
by item, and a plain list may equal a view of a repeated field; dicts and views of map fields are
equal as mappings. Messages are equal if they have types of one name and equal contents.

* `Heap.equals` — equality, which can fail where a message has no contents;
* `Heap.keysEqual` — equality of keys, in which a failure counts as inequality;
* `Heap.compare` — the six comparison operators.

Values that contain themselves have no equality: the comparison follows references only as deep as
the heap has cells.
-/

namespace Protoscript

namespace Heap

/-- The items of a list or of a view of a repeated field. -/
def sequenceItems? (h : Heap) : Value → Option (List Value)
  | .list r => some (h.cell r).items
  | .repeated r => some (h.cell r).items
  | _ => none

/-- The entries of a dict or of a view of a map field. -/
def mappingEntries? (h : Heap) : Value → Option (List (Value × Value))
  | .dict r => some (h.cell r).entries
  | .map r => some (h.cell r).entries
  | _ => none

/-- Equality of values that refer to no others. -/
def flatEquals (h : Heap) : Value → Value → Except Error Bool
  | .absent, .absent => .ok true
  | .bool a, .bool b => .ok (a == b)
  | .int a, .int b => .ok (a == b)
  | .float a, .float b => .ok (a.equals b)
  | .int a, .float b => .ok ((Double.ofInt a).equals b)
  | .float a, .int b => .ok ((Double.ofInt b).equals a)
  | .text a, .text b => .ok (a == b)
  | .bytes a, .bytes b => .ok (a == b)
  | .enum a, .enum b => .ok (a.equals b)
  | .message a, .message b =>
    if a = b then .ok true
    else if h.fullName a != h.fullName b then .ok false
    else
      match h.contents a, h.contents b with
      | .ok x, .ok y => .ok (x.equals y)
      | .error e, _ => .error e
      | .ok _, .error e => .error e
  | .messageType a, .messageType b => .ok (a.descriptor.fullName == b.descriptor.fullName)
  | .enumType a, .enumType b => .ok (a.fullName == b.fullName)
  | .package a, .package b => .ok (a.name == b.name)
  | .callable a, .callable b => .ok (a.identity == b.identity)
  | .library a, .library b => .ok (a.id == b.id)
  | _, _ => .ok false

/-- Equality of lists of values, by an equality of values. -/
def listEquals (eq : Value → Value → Except Error Bool) :
    List Value → List Value → Except Error Bool
  | [], [] => .ok true
  | x :: xs, y :: ys =>
    match eq x y with
    | .ok true => listEquals eq xs ys
    | r => r
  | _, _ => .ok false

/-- Whether each entry of a mapping has an equal entry in another. The value is compared with that of
the first key of the other that is equal. -/
def mappingWithin (eq : Value → Value → Except Error Bool) :
    List (Value × Value) → List (Value × Value) → Except Error Bool
  | [], _ => .ok true
  | (key, value) :: rest, ys =>
    match ys.find? fun e => (eq e.1 key).toOption == some true with
    | none => .ok false
    | some theirs =>
      match eq value theirs.2 with
      | .ok true => mappingWithin eq rest ys
      | r => r

mutual

/-- Equality of values, with references followed at most `depth` deep. -/
def equalsWithin (h : Heap) (depth : Nat) : Value → Value → Except Error Bool
  | .tuple xs, .tuple ys =>
    if xs.length = ys.length then tupleEquals h depth xs ys else .ok false
  | a, b =>
    match h.sequenceItems? a, h.sequenceItems? b with
    | some xs, some ys =>
      match depth with
      | 0 => .error .cyclic
      | depth + 1 =>
        if xs.length = ys.length then listEquals (equalsWithin h depth) xs ys else .ok false
    | _, _ =>
      match h.mappingEntries? a, h.mappingEntries? b with
      | some xs, some ys =>
        match depth with
        | 0 => .error .cyclic
        | depth + 1 =>
          if xs.length = ys.length then mappingWithin (equalsWithin h depth) xs ys
          else .ok false
      | _, _ => h.flatEquals a b
termination_by a => (depth, sizeOf a)

/-- Equality of the items of two tuples. -/
def tupleEquals (h : Heap) (depth : Nat) : List Value → List Value → Except Error Bool
  | [], [] => .ok true
  | x :: xs, y :: ys =>
    match equalsWithin h depth x y with
    | .ok true => tupleEquals h depth xs ys
    | r => r
  | _, _ => .ok false
termination_by xs => (depth, sizeOf xs)

end

/-- Equality of values. -/
def equals (h : Heap) (a b : Value) : Except Error Bool := h.equalsWithin (h.size + 1) a b

/-- Equality of keys, in which a failure counts as inequality. -/
def keysEqual (h : Heap) (a b : Value) : Bool := (h.equals a b).toOption == some true

end Heap

/-! ## Order -/

/-- The comparison operators. -/
inductive Comparison where
  | eq | ne | lt | le | gt | ge
  deriving DecidableEq

namespace Comparison

/-- The sign of an operator. -/
def symbol : Comparison → String
  | eq => "=="
  | ne => "!="
  | lt => "<"
  | le => "<="
  | gt => ">"
  | ge => ">="

/-- Whether an operator that orders accepts an order. -/
def accepts : Comparison → Ordering → Bool
  | lt, o => o == .lt
  | le, o => o != .gt
  | gt, o => o == .gt
  | ge, o => o != .lt
  | eq, _ | ne, _ => false

end Comparison

/-- The order of two byte strings: that of the first bytes that differ. -/
def compareBytes : List UInt8 → List UInt8 → Ordering
  | [], [] => .eq
  | [], _ :: _ => .lt
  | _ :: _, [] => .gt
  | a :: as, b :: bs =>
    if a < b then .lt else if b < a then .gt else compareBytes as bs

namespace Heap

/-- The order of two values: numbers by value, texts and bytes by their bytes, false before true. Of
a number and NaN there is none; that values have no order at all is the outer `none`. -/
def order? : Value → Value → Option (Option Ordering)
  | .int a, .int b => some (some (compare a b))
  | .float a, .float b => some (a.compare? b)
  | .int a, .float b => some ((Double.ofInt a).compare? b)
  | .float a, .int b => some (a.compare? (Double.ofInt b))
  | .text a, .text b => some (some (compareBytes (utf8Bytes a) (utf8Bytes b)))
  | .bytes a, .bytes b => some (some (compareBytes a b))
  | .bool a, .bool b => some (some (compare a b))
  | _, _ => none

/-- Applies a comparison operator. -/
def compare (h : Heap) (op : Comparison) (a b : Value) : Except Error Bool :=
  match op with
  | .eq => h.equals a b
  | .ne => (h.equals a b).map (!·)
  | op =>
    match order? a b with
    | some (some o) => .ok (op.accepts o)
    | some none => .ok false
    | none =>
      .error (.unsupportedOperation op.symbol (h.typeName a ++ " and " ++ h.typeName b))

end Heap

end Protoscript
