import Protoscript.Number.Double

/-!
# Decimal texts of floating-point numbers

Writing chooses the fewest significant digits that read back to the same number, and of those the
nearest; reading rounds the written decimal to the nearest number.

* `Decimal` — an integer times a power of ten;
* `Layout.shortest` — the shortest decimal inside the interval of reals that round to a number;
* `DecimalStyle` — where positional notation ends and how an exponent is written;
* `Double.repr`, `Single.repr` — the texts of scripts; `Double.plain`, `Single.plain` — texts that
  never use an exponent;
* `Decimal.read?`, `Double.read?`, `Single.read?` — the reverse direction.
-/

namespace Protoscript

/-- The number `digits * 10 ^ exponent`. -/
structure Decimal where
  /-- the significant digits, as an integer -/
  digits : Nat
  /-- the power of ten -/
  exponent : Int
  deriving DecidableEq

/-- The power of ten at or below the positive ratio `num / den`, as an exponent: a first estimate
from the bit lengths is at most a few too low, and is then raised while it can be. -/
def floorLog10 (num den : Nat) : Int :=
  let bits := floorLog2 num den
  let low := bits * 30103 / 100000 - 1
  let fits (e : Int) : Bool := den * pow10 e.toNat ≤ num * pow10 (-e).toNat
  if fits (low + 2) then low + 2 else if fits (low + 1) then low + 1 else low

namespace Layout

/-- The reals that round to `significand * 2 ^ exponent` reach from a quarter or a half of a unit
below to half a unit above; `lower` counts the quarters below. -/
def quartersBelow (L : Layout) (significand : Nat) (exponent : Int) : Nat :=
  if significand == L.fractionUnit && L.minExponent < exponent then 1 else 2

/-- The decimal with `count` digits that reads back to the number, if there is one: one of the two
neighbours of the number among the multiples of a power of ten, the nearer if both do. -/
def decimalOf? (L : Layout) (significand : Nat) (exponent : Int) (count : Nat) : Option Decimal :=
  let r := Datum.ratio significand exponent
  let power := floorLog10 r.1 r.2 + 1 - (count : Int)
  -- all quantities below are multiples of `2 ^ (exponent - 2)`, over the common scale `ten`
  let scale := pow2 (2 - exponent).toNat
  let unit := pow2 (exponent - 2).toNat
  let tenUp := pow10 power.toNat
  let tenDown := pow10 (-power).toNat
  let quarters (q : Nat) : Nat := q * unit * tenDown
  let grid (c : Nat) : Nat := c * tenUp * scale
  let value := quarters (4 * significand)
  let low := quarters (4 * significand - L.quartersBelow significand exponent)
  let high := quarters (4 * significand + 2)
  let inside (c : Nat) : Bool :=
    if significand % 2 == 0 then low ≤ grid c && grid c ≤ high
    else low < grid c && grid c < high
  let below := value / (tenUp * scale)
  let above := below + 1
  let distBelow := value - grid below
  let distAbove := grid above - value
  let first := if distAbove < distBelow || (distAbove == distBelow && below % 2 == 1)
    then above else below
  let second := if first == below then above else below
  if inside first then some ⟨first, power⟩
  else if inside second then some ⟨second, power⟩
  else none

/-- The shortest decimal of a positive number. Seventeen digits always suffice for the two layouts
in use; `count` is the number of digits tried, and `fuel` how many more may be tried. -/
def shortestFrom (L : Layout) (significand : Nat) (exponent : Int) : (count fuel : Nat) → Decimal
  | _, 0 => ⟨0, 0⟩
  | count, fuel + 1 =>
    match L.decimalOf? significand exponent count with
    | some d => d
    | none => L.shortestFrom significand exponent (count + 1) fuel

/-- The shortest decimal that reads back to a positive number. -/
def shortest (L : Layout) (significand : Nat) (exponent : Int) : Decimal :=
  L.shortestFrom significand exponent 1 17

end Layout

/-- How a decimal is laid out: positionally when the exponent of its first digit lies between
`lowest` and `highest`, else with an exponent, which carries a plus sign if `plus` is set. -/
structure DecimalStyle where
  /-- the least first-digit exponent written positionally -/
  lowest : Int
  /-- the greatest first-digit exponent written positionally -/
  highest : Int
  /-- whether a positive exponent has a sign -/
  plus : Bool

/-- Drops trailing zeros from the digits; `fuel` bounds how many. -/
def Decimal.trim (digits : Nat) (exponent : Int) : (fuel : Nat) → Decimal
  | 0 => ⟨digits, exponent⟩
  | fuel + 1 =>
    if digits != 0 && digits % 10 == 0 then Decimal.trim (digits / 10) (exponent + 1) fuel
    else ⟨digits, exponent⟩

/-- The positional text of a decimal, which always has a fraction. -/
def Decimal.positional (d : Decimal) : String :=
  let digits := (Nat.toDigits 10 d.digits)
  if 0 ≤ d.exponent then
    String.ofList (digits ++ List.replicate d.exponent.toNat '0' ++ ['.', '0'])
  else
    let places := (-d.exponent).toNat
    if places < digits.length then
      let whole := digits.take (digits.length - places)
      String.ofList (whole ++ ['.'] ++ digits.drop (digits.length - places))
    else
      String.ofList (['0', '.'] ++ List.replicate (places - digits.length) '0' ++ digits)

/-- The text of a decimal with an exponent. -/
def Decimal.scientific (plus : Bool) (d : Decimal) : String :=
  let digits := (Nat.toDigits 10 d.digits)
  let first := digits.take 1
  let others := digits.drop 1
  let exponent := d.exponent + ((digits.length : Int) - 1)
  let mark := if plus && 0 ≤ exponent then "e+" else "e"
  String.ofList first ++ (if others.isEmpty then "" else "." ++ String.ofList others)
    ++ mark ++ toString exponent

/-- The text of a decimal in a notation. -/
def DecimalStyle.write (n : DecimalStyle) (d : Decimal) : String :=
  let trimmed := Decimal.trim d.digits d.exponent 20
  let first := trimmed.exponent + (((Nat.toDigits 10 trimmed.digits).length : Int) - 1)
  if n.lowest ≤ first && first ≤ n.highest then trimmed.positional
  else trimmed.scientific n.plus

namespace DecimalStyle

/-- Scripts write numbers from `1e-4` up to `1e16` positionally. -/
def script : DecimalStyle := ⟨-4, 15, false⟩

/-- JSON writes doubles from `1e-5` up to `1e16` positionally and gives a large exponent a plus sign. -/
def json : DecimalStyle := ⟨-5, 15, true⟩

/-- JSON writes singles from `1e-6` up to `1e13` positionally. -/
def jsonSingle : DecimalStyle := ⟨-6, 12, true⟩

/-- YAML writes the range of JSON positionally and its exponents without a plus sign. -/
def yaml : DecimalStyle := ⟨-5, 15, false⟩

end DecimalStyle

/-- The text of a datum of layout `L`, in a notation. -/
def Datum.write (L : Layout) (n : DecimalStyle) : Datum → String
  | .nan => "NaN"
  | .infinite negative => if negative then "-inf" else "inf"
  | .finite negative significand exponent =>
    let sign := if negative then "-" else ""
    if significand == 0 then sign ++ "0.0"
    else sign ++ n.write (L.shortest significand exponent)

/-- The text of a datum without exponent: all digits of an integer, with one decimal place, and
else the shortest decimal. -/
def Datum.plain (L : Layout) : Datum → String
  | .nan => "NaN"
  | .infinite negative => if negative then "-inf" else "inf"
  | .finite negative significand exponent =>
    let sign := if negative then "-" else ""
    let scale := pow2 (-exponent).toNat
    if significand % scale == 0 then
      sign ++ toString (significand * pow2 exponent.toNat / scale) ++ ".0"
    else
      let d := L.shortest significand exponent
      sign ++ (Decimal.trim d.digits d.exponent 20).positional

/-- The text of a double in a notation. -/
def Double.write (n : DecimalStyle) (x : Double) : String := x.datum.write Layout.binary64 n

/-- The text of a double in scripts. -/
def Double.repr (x : Double) : String := x.write .script

/-- The text of a double without exponent. -/
def Double.plain (x : Double) : String := x.datum.plain Layout.binary64

/-- The text of a single in a notation. -/
def Single.write (n : DecimalStyle) (x : Single) : String := x.datum.write Layout.binary32 n

/-- The text of a single in the notation of scripts. -/
def Single.repr (x : Single) : String := x.write .script

/-- The text of a single without exponent. -/
def Single.plain (x : Single) : String := x.datum.plain Layout.binary32

/-! ## Reading -/

/-- The value of a decimal digit. -/
def digitValue? (c : Char) : Option Nat :=
  if '0' ≤ c && c ≤ '9' then some (c.toNat - '0'.toNat) else none

/-- The number written by the leading digits, how many there are, and what follows. -/
def readDigits : List Char → (value count : Nat) → Nat × Nat × List Char
  | [], value, count => (value, count, [])
  | c :: rest, value, count =>
    match digitValue? c with
    | some d => readDigits rest (value * 10 + d) (count + 1)
    | none => (value, count, c :: rest)

/-- The written form of a number: its sign and its decimal, or one of the special names. -/
inductive Written where
  | nan (negative : Bool)
  | infinite (negative : Bool)
  | decimal (negative : Bool) (value : Decimal)

/-- Reads the digits of an exponent, which must be the whole rest. -/
def readExponent? : List Char → Option Int
  | '+' :: rest => unsigned? rest
  | '-' :: rest => (unsigned? rest).map (- ·)
  | rest => unsigned? rest
where
  /-- Reads one or more digits and nothing else. -/
  unsigned? (cs : List Char) : Option Int :=
    let r := readDigits cs 0 0
    if r.2.1 != 0 && r.2.2.isEmpty then some (r.1 : Int) else none

/-- Reads an unsigned decimal: digits around an optional point, at least one of them, and an
optional exponent. -/
def Decimal.read? (cs : List Char) : Option Decimal :=
  let whole := readDigits cs 0 0
  let part := match whole.2.2 with
    | '.' :: rest => readDigits rest whole.1 0
    | rest => (whole.1, 0, rest)
  if whole.2.1 + part.2.1 == 0 then none else
  let base : Decimal := ⟨part.1, -(part.2.1 : Int)⟩
  match part.2.2 with
  | [] => some base
  | c :: rest =>
    if c == 'e' || c == 'E' then
      (readExponent? rest).map fun e => ⟨base.digits, base.exponent + e⟩
    else none

/-- Reads a number: an optional sign and then a decimal, `inf`, `infinity` or `nan`, the names in
any mix of cases. -/
def Written.read? (s : String) : Option Written :=
  let signed (negative : Bool) (cs : List Char) : Option Written :=
    match String.ofList (cs.map Char.toLower) with
    | "inf" | "infinity" => some (.infinite negative)
    | "nan" => some (.nan negative)
    | _ => (Decimal.read? cs).map (.decimal negative)
  match s.toList with
  | '+' :: cs => signed false cs
  | '-' :: cs => signed true cs
  | cs => signed false cs

/-- The pattern of the magnitude nearest to a decimal. Decimals far beyond the range are settled
by the position of their first digit. -/
def Layout.ofDecimal (L : Layout) (d : Decimal) : Nat :=
  if d.digits == 0 then 0 else
  let first := d.exponent + ((Nat.toDigits 10 d.digits).length : Int)
  if 400 < first then L.infinity
  else if first < -400 then 0
  else L.nearest (d.digits * pow10 d.exponent.toNat) (pow10 (-d.exponent).toNat)

/-- The double nearest to a written number. -/
def Written.toDouble : Written → Double
  | .nan negative => .quietNaN negative
  | .infinite negative => .infinite negative
  | .decimal negative d => .ofMagnitude negative (Layout.binary64.ofDecimal d)

/-- The single nearest to a written number. -/
def Written.toSingle : Written → Single
  | .nan negative =>
    .ofMagnitude negative (Layout.binary32.infinity + Layout.binary32.quietBit)
  | .infinite negative => .ofMagnitude negative Layout.binary32.infinity
  | .decimal negative d => .ofMagnitude negative (Layout.binary32.ofDecimal d)

/-- Reads a double. -/
def Double.read? (s : String) : Option Double := (Written.read? s).map Written.toDouble

/-- Reads a single, rounding the written decimal once. -/
def Single.read? (s : String) : Option Single := (Written.read? s).map Written.toSingle

end Protoscript
