/-!
# Powers

The powers of the two bases in which numbers are stored and written.

* `pow2` — powers of two, the bounds of integers and the scale of floating-point numbers;
* `pow10` — powers of ten, the scale of decimal texts.
-/

namespace Protoscript

/-- A power of two. -/
def pow2 (exponent : Nat) : Nat := Nat.pow 2 exponent

/-- A power of ten. -/
def pow10 (exponent : Nat) : Nat := Nat.pow 10 exponent

theorem pow2_pos (n : Nat) : 0 < pow2 n := Nat.pow_pos (by decide)

end Protoscript
