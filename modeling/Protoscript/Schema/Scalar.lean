import Protoscript.Number.Decimal

/-!
# Scalar types and scalar values

The types a field can have besides messages and enums, and the values fields of scalar or enum type
hold.

* `ScalarType` — the fifteen scalar types, with `ScalarType.name` and the way each is stored;
* `Scalar` — a stored scalar: a machine number, a text, a byte string or an enum number;
* `MapKey` — the scalars that may be keys of a map, with their order.
-/

namespace Protoscript

/-- The scalar types of fields. -/
inductive ScalarType where
  | double | float
  | int32 | int64 | uint32 | uint64 | sint32 | sint64
  | fixed32 | fixed64 | sfixed32 | sfixed64
  | bool | string | bytes
  deriving DecidableEq, Inhabited

/-- The representations that stored scalars have. -/
inductive Storage where
  | bool | i32 | i64 | u32 | u64 | f32 | f64 | text | bytes
  deriving DecidableEq

namespace ScalarType

/-- The name of a scalar type. -/
def name : ScalarType → String
  | double => "double"
  | float => "float"
  | int32 => "int32"
  | int64 => "int64"
  | uint32 => "uint32"
  | uint64 => "uint64"
  | sint32 => "sint32"
  | sint64 => "sint64"
  | fixed32 => "fixed32"
  | fixed64 => "fixed64"
  | sfixed32 => "sfixed32"
  | sfixed64 => "sfixed64"
  | bool => "bool"
  | string => "string"
  | bytes => "bytes"

/-- How the values of a scalar type are stored. -/
def storage : ScalarType → Storage
  | double => .f64
  | float => .f32
  | int32 | sint32 | sfixed32 => .i32
  | int64 | sint64 | sfixed64 => .i64
  | uint32 | fixed32 => .u32
  | uint64 | fixed64 => .u64
  | bool => .bool
  | string => .text
  | bytes => .bytes

end ScalarType

/-- A stored scalar. -/
inductive Scalar where
  | bool (value : Bool)
  | i32 (value : Int32)
  | i64 (value : Int64)
  | u32 (value : UInt32)
  | u64 (value : UInt64)
  | f32 (value : Single)
  | f64 (value : Double)
  | text (value : String)
  | bytes (value : List UInt8)
  | enumNumber (value : Int32)
  deriving DecidableEq, Inhabited

namespace Scalar

/-- The zero of a representation. -/
def zero : Storage → Scalar
  | .bool => bool false
  | .i32 => i32 0
  | .i64 => i64 0
  | .u32 => u32 0
  | .u64 => u64 0
  | .f32 => f32 ⟨0⟩
  | .f64 => f64 ⟨0⟩
  | .text => text ""
  | .bytes => bytes []

/-- How a scalar is stored, if it is of a scalar type. -/
def storage? : Scalar → Option Storage
  | bool _ => some .bool
  | i32 _ => some .i32
  | i64 _ => some .i64
  | u32 _ => some .u32
  | u64 _ => some .u64
  | f32 _ => some .f32
  | f64 _ => some .f64
  | text _ => some .text
  | bytes _ => some .bytes
  | enumNumber _ => none

/-- Equality of stored scalars; floating-point numbers are compared on the number line. -/
def equals : Scalar → Scalar → Bool
  | f32 x, f32 y => x.equals y
  | f64 x, f64 y => x.equals y
  | x, y => x == y

end Scalar

/-- A key of a stored map. -/
inductive MapKey where
  | bool (value : Bool)
  | i32 (value : Int32)
  | i64 (value : Int64)
  | u32 (value : UInt32)
  | u64 (value : UInt64)
  | text (value : String)
  deriving DecidableEq, Inhabited

namespace MapKey

/-- The key as a scalar. -/
def toScalar : MapKey → Scalar
  | bool b => .bool b
  | i32 n => .i32 n
  | i64 n => .i64 n
  | u32 n => .u32 n
  | u64 n => .u64 n
  | text s => .text s

/-- The key that a scalar is, if it can be one. -/
def ofScalar? : Scalar → Option MapKey
  | .bool b => some (bool b)
  | .i32 n => some (i32 n)
  | .i64 n => some (i64 n)
  | .u32 n => some (u32 n)
  | .u64 n => some (u64 n)
  | .text s => some (text s)
  | .f32 _ | .f64 _ | .bytes _ | .enumNumber _ => none

theorem ofScalar?_toScalar (k : MapKey) : ofScalar? k.toScalar = some k := by
  cases k <;> rfl

/-- The order of keys of one type: false before true, numbers by value, texts by code point. Keys of
different types do not occur together. -/
def le : MapKey → MapKey → Bool
  | bool a, bool b => !a || b
  | i32 a, i32 b => a ≤ b
  | i64 a, i64 b => a ≤ b
  | u32 a, u32 b => a ≤ b
  | u64 a, u64 b => a ≤ b
  | text a, text b => a ≤ b
  | _, _ => true

end MapKey

end Protoscript
