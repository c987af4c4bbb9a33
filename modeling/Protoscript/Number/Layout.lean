import Protoscript.Number.Power

/-!
# Layouts of binary floating point

A floating-point number is a bit pattern; this module says which number a pattern stands for and
which pattern is nearest to a given ratio, in exact integer arithmetic.

* `Layout` — how many fraction and exponent bits a pattern has;
* `Layout.datum` — what a pattern stands for;
* `Layout.nearest` — the pattern of the magnitude nearest to a ratio, ties going to the even one;
* `Datum.position?` — where a datum lies on the number line, counted in the smallest positive
  number of the layout, so that comparing data is comparing integers.
-/

namespace Protoscript

/-- The widths of the two fields below the sign bit. -/
structure Layout where
  /-- bits of the trailing significand -/
  fractionBits : Nat
  /-- bits of the biased exponent -/
  exponentBits : Nat
  deriving DecidableEq

/-- What a bit pattern stands for; a finite datum is `significand * 2 ^ exponent`, signed. -/
inductive Datum where
  | nan
  | infinite (negative : Bool)
  | finite (negative : Bool) (significand : Nat) (exponent : Int)
  deriving DecidableEq

/-- The integer nearest to `num / den`; of two equally near ones, the even one. -/
def roundHalfEven (num den : Nat) : Nat :=
  let quotient := num / den
  let twice := 2 * (num % den)
  if twice > den || (twice == den && quotient % 2 == 1) then quotient + 1 else quotient

/-- The power of two at or below the positive ratio `num / den`, as an exponent. -/
def floorLog2 (num den : Nat) : Int :=
  let guess : Int := (Nat.log2 num : Int) - (Nat.log2 den : Int)
  if den * pow2 guess.toNat ≤ num * pow2 (-guess).toNat then guess else guess - 1

namespace Layout

/-- Single precision: 23 fraction bits and 8 exponent bits. -/
def binary32 : Layout := ⟨23, 8⟩

/-- Double precision: 52 fraction bits and 11 exponent bits. -/
def binary64 : Layout := ⟨52, 11⟩

variable (L : Layout)

/-- The weight of the exponent field's lowest bit. -/
def fractionUnit : Nat := pow2 L.fractionBits

/-- The largest value of the exponent field, which marks infinities and NaNs. -/
def topExponent : Nat := pow2 L.exponentBits - 1

/-- The weight of the sign bit. -/
def signUnit : Nat := pow2 (L.fractionBits + L.exponentBits)

/-- The pattern of positive infinity. -/
def infinity : Nat := L.topExponent * L.fractionUnit

/-- The top fraction bit, which is set in every quiet NaN. -/
def quietBit : Nat := pow2 (L.fractionBits - 1)

/-- The exponent of the smallest positive number. -/
def minExponent : Int := 2 - pow2 (L.exponentBits - 1) - (L.fractionBits : Int)

/-- Whether the sign bit of a pattern is set. -/
def isNegative (bits : Nat) : Bool := bits / L.signUnit % 2 == 1

/-- The fraction field of a pattern. -/
def fraction (bits : Nat) : Nat := bits % L.fractionUnit

/-- The exponent field of a pattern. -/
def exponentField (bits : Nat) : Nat := bits / L.fractionUnit % (L.topExponent + 1)

/-- What the pattern `bits` stands for. -/
def datum (bits : Nat) : Datum :=
  let negative := L.isNegative bits
  let fraction := L.fraction bits
  let field := L.exponentField bits
  if field == L.topExponent then
    if fraction == 0 then .infinite negative else .nan
  else if field == 0 then
    .finite negative fraction L.minExponent
  else
    .finite negative (fraction + L.fractionUnit) (L.minExponent + ((field : Int) - 1))

/-- The pattern of the magnitude nearest to `num / den`. A significand that is rounded up to the
next power of two carries into the exponent field, and what lies beyond the largest finite
magnitude becomes infinity. -/
def nearest (num den : Nat) : Nat :=
  if num == 0 then 0 else
  let exponent := max (floorLog2 num den - (L.fractionBits : Int)) L.minExponent
  let significand := roundHalfEven (num * pow2 (-exponent).toNat) (den * pow2 exponent.toNat)
  let bits :=
    if significand < L.fractionUnit then significand
    else (exponent - L.minExponent + 1).toNat * L.fractionUnit + (significand - L.fractionUnit)
  min bits L.infinity

/-- A magnitude with its sign bit. -/
def signed (negative : Bool) (magnitude : Nat) : Nat :=
  if negative then magnitude + L.signUnit else magnitude

/-- The farthest position of the number line, which stands for an infinity. -/
def farPosition : Int := pow2 (pow2 L.exponentBits + L.fractionBits)

end Layout

namespace Datum

/-- A finite magnitude as a ratio of integers. -/
def ratio (significand : Nat) (exponent : Int) : Nat × Nat :=
  (significand * pow2 exponent.toNat, pow2 (-exponent).toNat)

/-- The place of a datum on the number line, in units of the layout's smallest positive number:
the two zeros share one place, an infinity lies beyond all finite data, and NaN has no place. -/
def position? (L : Layout) : Datum → Option Int
  | nan => none
  | infinite negative => some (if negative then -L.farPosition else L.farPosition)
  | finite negative significand exponent =>
    let magnitude : Int := significand * pow2 (exponent - L.minExponent).toNat
    some (if negative then -magnitude else magnitude)

end Datum

end Protoscript
