import Protoscript.Json.Basic

/-!
# Reading JSON numbers

A number without fraction and exponent is an integer if it fits 64 bits; any other number is a
double. The double is not always the nearest one: the digits are gathered in a 64-bit number until
the next one would not fit, and this number is multiplied or divided by a power of ten, each step
rounded. Numbers beyond the greatest double are refused.

* `JsonNumber` — a number as it is written, `JsonNumber.ofChars?` — its grammar;
* `JsonNumber.value?` — what it stands for.
-/

namespace Protoscript

/-- A number as it is written. -/
structure JsonNumber where
  /-- whether it has a minus sign -/
  negative : Bool
  /-- the digits before the point -/
  whole : List Nat
  /-- the digits after the point -/
  fraction : Option (List Nat)
  /-- the sign and the digits of the exponent -/
  exponent : Option (Bool × List Nat)

/-- The digits at the start of a text, and the rest. -/
def spanDigits : List Char → List Nat × List Char
  | [] => ([], [])
  | c :: rest =>
    match digitValue? c with
    | some d =>
      let r := spanDigits rest
      (d :: r.1, r.2)
    | none => ([], c :: rest)

namespace JsonNumber

/-- The exponent that a text consists of, if it is not empty. -/
def exponentOfChars? : List Char → Option (Option (Bool × List Nat))
  | [] => some none
  | e :: rest =>
    if e == 'e' || e == 'E' then
      let (negative, rest) := match rest with
        | '+' :: rest => (false, rest)
        | '-' :: rest => (true, rest)
        | rest => (false, rest)
      match spanDigits rest with
      | ([], _) => none
      | (digits, []) => some (some (negative, digits))
      | (_, _ :: _) => none
    else none

/-- The number that a text is. No digit may follow a leading zero. -/
def ofChars? (cs : List Char) : Option JsonNumber :=
  let (negative, cs) := match cs with
    | '-' :: rest => (true, rest)
    | cs => (false, cs)
  match spanDigits cs with
  | ([], _) => none
  | (0 :: _ :: _, _) => none
  | (whole, '.' :: rest) =>
    match spanDigits rest with
    | ([], _) => none
    | (fraction, rest) => (exponentOfChars? rest).map fun e => ⟨negative, whole, some fraction, e⟩
  | (whole, rest) => (exponentOfChars? rest).map fun e => ⟨negative, whole, none, e⟩

/-- Appends digits to a number for as long as it fits 64 bits, and counts them. -/
def gather (value : Nat) : List Nat → Nat × Nat
  | [] => (value, 0)
  | d :: rest =>
    if value * 10 + d < pow2 64 then
      let r := gather (value * 10 + d) rest
      (r.1, r.2 + 1)
    else (value, 0)

/-- A number times a power of ten, in rounded steps; `none` if it is too large. -/
def scale? : (fuel : Nat) → Double → Int → Option Double
  | 0, x, _ => some x
  | fuel + 1, x, exponent =>
    if exponent.natAbs ≤ 308 then
      let power := Double.ofInt (pow10 exponent.natAbs)
      if 0 ≤ exponent then
        let y := x.mulFinite power
        if y.isFinite then some y else none
      else some (x.divFinite power)
    else if x.equals (.zero false) then some x
    else if 0 ≤ exponent then none
    else scale? fuel (x.divFinite (Double.ofInt (pow10 308))) (exponent + 308)

/-- The double of a sign, a 64-bit number and a power of ten. -/
def ofParts? (negative : Bool) (significand : Nat) (exponent : Int) : Option Double :=
  (scale? 10 (Double.ofInt significand) exponent).map fun x => if negative then x.neg else x

/-- The number of a list of digits. -/
def ofDigits (digits : List Nat) : Nat := digits.foldl (fun n d => n * 10 + d) 0

/-- The greatest magnitude of an exponent that is taken as it is. -/
def exponentLimit : Nat := pow2 31 - 1

/-- What a number stands for; `none` if it is too large. -/
def value? (n : JsonNumber) : Option Json :=
  let (whole, taken) := gather 0 n.whole
  let dropped : Int := (n.whole.length - taken : Nat)
  match n.fraction, n.exponent with
  | none, none =>
    if dropped ≠ 0 then (ofParts? n.negative whole dropped).map .double
    else if !n.negative then some (.int whole)
    else if whole = 0 ∨ pow2 63 < whole then some (.double (Double.ofInt whole).neg)
    else some (.int (-whole))
  | fraction, exponent =>
    let (significand, places) := gather whole (fraction.getD [])
    let base : Int := dropped - places
    match exponent with
    | none => (ofParts? n.negative significand base).map .double
    | some (negativeExponent, digits) =>
      let e := ofDigits digits
      if exponentLimit < e then
        if significand ≠ 0 ∧ !negativeExponent then none
        else some (.double (.zero n.negative))
      else
        (ofParts? n.negative significand
          (if negativeExponent then base - e else base + e)).map .double

end JsonNumber

end Protoscript
