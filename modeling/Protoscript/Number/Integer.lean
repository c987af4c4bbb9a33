import Protoscript.Number.Power

/-!
# Texts of integers

Reading integers in a radix, and into the four fixed widths of messages.

* `readNat?` — one or more digits of a radix and nothing else;
* `readInt?` — the same with an optional sign;
* `readInt32?`, `readInt64?`, `readUInt32?`, `readUInt64?` — decimal texts that fit the width; an
  unsigned one has no minus sign.
-/

namespace Protoscript

/-- The value of a hexadecimal digit. -/
def hexValue? (c : Char) : Option Nat :=
  if '0' ≤ c && c ≤ '9' then some (c.toNat - '0'.toNat)
  else if 'a' ≤ c && c ≤ 'f' then some (c.toNat - 'a'.toNat + 10)
  else if 'A' ≤ c && c ≤ 'F' then some (c.toNat - 'A'.toNat + 10)
  else none

/-- The value of a digit in a radix of at most sixteen. -/
def radixValue? (radix : Nat) (c : Char) : Option Nat :=
  match hexValue? c with
  | some d => if d < radix then some d else none
  | none => none

/-- Reads one or more digits of a radix and nothing else. -/
def readNat? (radix : Nat) : List Char → Option Nat
  | [] => none
  | c :: rest => go 0 (c :: rest)
where
  /-- Reads the remaining digits after those that made `value`. -/
  go (value : Nat) : List Char → Option Nat
    | [] => some value
    | c :: rest =>
      match radixValue? radix c with
      | some d => go (value * radix + d) rest
      | none => none

/-- Reads an integer with an optional sign. -/
def readInt? (radix : Nat) : List Char → Option Int
  | '+' :: rest => (readNat? radix rest).map (↑·)
  | '-' :: rest => (readNat? radix rest).map fun n => -(n : Int)
  | rest => (readNat? radix rest).map (↑·)

/-- Reads a natural number with an optional plus sign. -/
def readUnsigned? (radix : Nat) : List Char → Option Nat
  | '+' :: rest => readNat? radix rest
  | rest => readNat? radix rest

/-- The integers of a signed width. -/
def fitsSigned (width : Nat) (n : Int) : Bool := -pow2 (width - 1) ≤ n && n < pow2 (width - 1)

/-- The integers of an unsigned width. -/
def fitsUnsigned (width : Nat) (n : Int) : Bool := 0 ≤ n && n < pow2 width

/-- The 32-bit signed number of the value `n`, if there is one. -/
def int32Of? (n : Int) : Option Int32 := if fitsSigned 32 n then some (Int32.ofInt n) else none

/-- The 64-bit signed number of the value `n`, if there is one. -/
def int64Of? (n : Int) : Option Int64 := if fitsSigned 64 n then some (Int64.ofInt n) else none

/-- The 32-bit unsigned number of the value `n`, if there is one. -/
def uint32Of? (n : Int) : Option UInt32 :=
  if fitsUnsigned 32 n then some (UInt32.ofNat n.toNat) else none

/-- The 64-bit unsigned number of the value `n`, if there is one. -/
def uint64Of? (n : Int) : Option UInt64 :=
  if fitsUnsigned 64 n then some (UInt64.ofNat n.toNat) else none

/-- Reads a decimal 32-bit signed number. -/
def readInt32? (s : String) : Option Int32 := (readInt? 10 s.toList).bind int32Of?

/-- Reads a decimal 64-bit signed number. -/
def readInt64? (s : String) : Option Int64 := (readInt? 10 s.toList).bind int64Of?

/-- Reads a decimal 32-bit unsigned number. -/
def readUInt32? (s : String) : Option UInt32 :=
  (readUnsigned? 10 s.toList).bind fun n => uint32Of? n

/-- Reads a decimal 64-bit unsigned number. -/
def readUInt64? (s : String) : Option UInt64 :=
  (readUnsigned? 10 s.toList).bind fun n => uint64Of? n

end Protoscript
