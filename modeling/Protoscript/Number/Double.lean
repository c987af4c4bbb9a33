import Protoscript.Number.Layout

/-!
# Doubles and singles

The two floating-point types of messages, each a bit pattern with exact operations on it.

* `Double`, `Single` — the patterns of the layouts `Layout.binary64` and `Layout.binary32`;
* `Double.ofRatio` — the double nearest to a ratio, from which all arithmetic is derived;
* `Double.compare?` — the order of the number line, in which NaN has no place;
* `Double.toSingle`, `Single.toDouble` — narrowing rounds to nearest, widening is exact, and a NaN
  keeps its sign and leading payload and becomes quiet.
-/

namespace Protoscript

/-- A double-precision number, as its bit pattern. -/
structure Double where
  /-- the pattern in layout `Layout.binary64` -/
  bits : UInt64
  deriving DecidableEq, Inhabited

/-- A single-precision number, as its bit pattern. -/
structure Single where
  /-- the pattern in layout `Layout.binary32` -/
  bits : UInt32
  deriving DecidableEq, Inhabited

namespace Double

/-- What a double stands for. -/
def datum (x : Double) : Datum := Layout.binary64.datum x.bits.toNat

/-- The place of a double on the number line. -/
def position? (x : Double) : Option Int := x.datum.position? Layout.binary64

/-- The double with the given sign and magnitude pattern. -/
def ofMagnitude (negative : Bool) (magnitude : Nat) : Double :=
  ⟨UInt64.ofNat (Layout.binary64.signed negative magnitude)⟩

/-- The double nearest to the ratio `num / den`, with the given sign. -/
def ofRatio (negative : Bool) (num den : Nat) : Double :=
  ofMagnitude negative (Layout.binary64.nearest num den)

/-- The double nearest to an integer. -/
def ofInt (n : Int) : Double := ofRatio (decide (n < 0)) n.natAbs 1

/-- An infinity. -/
def infinite (negative : Bool) : Double := ofMagnitude negative Layout.binary64.infinity

/-- The quiet NaN without payload. -/
def quietNaN (negative : Bool) : Double :=
  ofMagnitude negative (Layout.binary64.infinity + Layout.binary64.quietBit)

/-- Zero, with a sign. -/
def zero (negative : Bool) : Double := ofMagnitude negative 0

/-- Whether the pattern is a NaN. -/
def isNaN (x : Double) : Bool := x.datum == .nan

/-- Whether the number is neither infinite nor NaN. -/
def isFinite (x : Double) : Bool :=
  match x.datum with
  | .finite .. => true
  | _ => false

/-- Whether the sign bit is set. -/
def isNegative (x : Double) : Bool := Layout.binary64.isNegative x.bits.toNat

/-- The same number with the other sign. -/
def neg (x : Double) : Double := ⟨x.bits ^^^ 0x8000000000000000⟩

/-- The order of two doubles, if both have a place on the number line. -/
def compare? (x y : Double) : Option Ordering :=
  match x.position?, y.position? with
  | some a, some b => some (compare a b)
  | _, _ => none

/-- Equality on the number line: the zeros are equal and a NaN equals nothing. -/
def equals (x y : Double) : Bool := x.compare? y == some .eq

/-- Whether the number is finite and has no fraction. -/
def isIntegral (x : Double) : Bool :=
  match x.datum with
  | .finite _ significand exponent => significand % pow2 (-exponent).toNat == 0
  | _ => false

/-- The integer part of a finite number, toward zero; infinities and NaNs have none. -/
def truncate? (x : Double) : Option Int :=
  match x.datum with
  | .finite negative significand exponent =>
    let magnitude : Int := significand * pow2 exponent.toNat / pow2 (-exponent).toNat
    some (if negative then -magnitude else magnitude)
  | _ => none

/-- A NaN operand made quiet. -/
def quieted (x : Double) : Double := ⟨x.bits ||| 0x0008000000000000⟩

/-- The sum, rounded to nearest. A sum that is exactly zero is negative only when both operands
are; opposite infinities give the negative quiet NaN. -/
def add (x y : Double) : Double :=
  match x.datum, y.datum with
  | .nan, _ => x.quieted
  | _, .nan => y.quieted
  | .infinite s, .infinite t => if s == t then x else quietNaN true
  | .infinite _, _ => x
  | _, .infinite _ => y
  | .finite s m e, .finite t n f =>
    let units (negative : Bool) (significand : Nat) (exponent : Int) : Int :=
      let magnitude : Int := significand * pow2 (exponent - Layout.binary64.minExponent).toNat
      if negative then -magnitude else magnitude
    let sum := units s m e + units t n f
    if sum == 0 then zero (s && t)
    else ofRatio (decide (sum < 0)) sum.natAbs (pow2 (-Layout.binary64.minExponent).toNat)

/-- The product of two finite doubles, rounded to nearest; other operands give a NaN. -/
def mulFinite (x y : Double) : Double :=
  match x.datum, y.datum with
  | .finite s m e, .finite t n f =>
    let a := Datum.ratio m e
    let b := Datum.ratio n f
    ofRatio (s != t) (a.1 * b.1) (a.2 * b.2)
  | _, _ => quietNaN false

/-- The quotient of two finite doubles, rounded to nearest, for a divisor that is not zero; other
operands give a NaN. -/
def divFinite (x y : Double) : Double :=
  match x.datum, y.datum with
  | .finite s m e, .finite t n f =>
    let a := Datum.ratio m e
    let b := Datum.ratio n f
    if b.1 == 0 then quietNaN false else ofRatio (s != t) (a.1 * b.2) (a.2 * b.1)
  | _, _ => quietNaN false

end Double

namespace Single

/-- What a single stands for. -/
def datum (x : Single) : Datum := Layout.binary32.datum x.bits.toNat

/-- The place of a single on the number line. -/
def position? (x : Single) : Option Int := x.datum.position? Layout.binary32

/-- The single with the given sign and magnitude pattern. -/
def ofMagnitude (negative : Bool) (magnitude : Nat) : Single :=
  ⟨UInt32.ofNat (Layout.binary32.signed negative magnitude)⟩

/-- The single nearest to the ratio `num / den`, with the given sign. -/
def ofRatio (negative : Bool) (num den : Nat) : Single :=
  ofMagnitude negative (Layout.binary32.nearest num den)

/-- The single nearest to an integer. -/
def ofInt (n : Int) : Single := ofRatio (decide (n < 0)) n.natAbs 1

/-- Whether the pattern is a NaN. -/
def isNaN (x : Single) : Bool := x.datum == .nan

/-- Equality on the number line: the zeros are equal and a NaN equals nothing. -/
def equals (x y : Single) : Bool :=
  match x.position?, y.position? with
  | some a, some b => a == b
  | _, _ => false

/-- The double of the same value. -/
def toDouble (x : Single) : Double :=
  let L := Layout.binary32
  let W := Layout.binary64
  let bits := x.bits.toNat
  match x.datum with
  | .nan =>
    let payload := L.fraction bits * pow2 (W.fractionBits - L.fractionBits)
    .ofMagnitude (L.isNegative bits) (W.infinity + (payload ||| W.quietBit))
  | .infinite negative => .infinite negative
  | .finite negative significand exponent =>
    let r := Datum.ratio significand exponent
    .ofRatio negative r.1 r.2

end Single

/-- The nearest single; what lies beyond its range becomes infinite. -/
def Double.toSingle (x : Double) : Single :=
  let L := Layout.binary32
  let W := Layout.binary64
  let bits := x.bits.toNat
  match x.datum with
  | .nan =>
    let payload := W.fraction bits / pow2 (W.fractionBits - L.fractionBits)
    .ofMagnitude (W.isNegative bits) (L.infinity + (payload ||| L.quietBit))
  | .infinite negative => .ofMagnitude negative L.infinity
  | .finite negative significand exponent =>
    let r := Datum.ratio significand exponent
    .ofRatio negative r.1 r.2

end Protoscript
