import Protoscript.Script.Error
import Protoscript.Text.Utf8

/-!
# Hashing

The hash of a value is a function of a byte sequence. Whole floating-point numbers give the bytes of
the integer; what can change has no hash.

* `Heap.hashBytes` — the bytes that stand for a value.
-/

namespace Protoscript

/-- The `count` low bytes of a number in two's complement, the lowest first. -/
def integerBytes (count : Nat) (n : Int) : List UInt8 :=
  lowBytes count (n % (pow2 (8 * count) : Int)).toNat

/-- The bytes that stand for a text. -/
def textHashBytes (s : String) : List UInt8 := utf8Bytes s ++ [0xff]

/-- An integer of 128 bits that is as near as possible to an integer. -/
def saturate128 (n : Int) : Int := max (-(pow2 127 : Int)) (min n ((pow2 127 : Int) - 1))

namespace Heap

mutual

/-- The bytes that stand for a value, if it can be hashed. -/
def hashBytes (h : Heap) : Value → Except Error (List UInt8)
  | .absent => .ok [0]
  | .bool b => .ok [if b then 1 else 0]
  | .int n => .ok (integerBytes 16 n)
  | .float x =>
    match x.truncate? with
    | some n =>
      if x.isIntegral then .ok (integerBytes 16 (saturate128 n))
      else .ok (integerBytes 8 x.bits.toNat)
    | none => .ok (integerBytes 8 x.bits.toNat)
  | .text s => .ok (textHashBytes s)
  | .bytes b => .ok (integerBytes 8 b.length ++ b)
  | .tuple items => tupleHashBytes h items
  | .enum e => .ok (textHashBytes e.enumName ++ integerBytes 4 e.number.toInt)
  | .messageType t => .ok (textHashBytes t.descriptor.fullName)
  | .enumType d => .ok (textHashBytes d.fullName)
  | .package p => .ok (textHashBytes p.name)
  | .callable c => .ok (integerBytes 8 c.identity)
  | .library _ => .ok (textHashBytes "proto")
  | .list r => .error (.unhashable (h.typeName (.list r)))
  | .dict r => .error (.unhashable (h.typeName (.dict r)))
  | .message r => .error (.unhashable (h.typeName (.message r)))
  | .repeated r => .error (.unhashable (h.typeName (.repeated r)))
  | .map r => .error (.unhashable (h.typeName (.map r)))

/-- The bytes of the items of a tuple, one after another. -/
def tupleHashBytes (h : Heap) : List Value → Except Error (List UInt8)
  | [] => .ok []
  | v :: rest =>
    match hashBytes h v with
    | .error e => .error e
    | .ok bytes => (tupleHashBytes h rest).map (bytes ++ ·)

end

end Heap

end Protoscript
